import Xhyve.Emul.AhciSteps

/-!
# What writes to the AHCI registers do

The writes that stop, start or reset a port are the only ones that change more than a register. A write to a
register never fails but where the port was never initialised.
-/

namespace Xhyve.Emul.Ahci

open Xhyve.Lib Xhyve.Lib.Fallible

section Stop
variable {h : Host} {p : PortNo} {s t : State}

theorem touch_cancelRequests (h : Host) (p : PortNo) (rs : List Nat) (ncq : Bool) (s : State) :
    Touch h p s (cancelRequests p rs ncq s) := by
  induction rs generalizing ncq s with
  | nil => exact Touch.refl h p s
  | cons r rs ih =>
    unfold cancelRequests
    split
    · dsimp only
      have hport : ∀ ncq, Touch h p s (s.setPort p ((s.port p).cancelled r ncq)) :=
        fun ncq => touch_setPort s _ rfl rfl rfl
      exact ((hport _).trans (touch_mem _ _)).trans (ih ..)
    · exact ih ..

/-- The port once its requests have been cancelled as far as possible. -/
def State.stopped (s : State) (p : PortNo) : State :=
  let t := cancelRequests p (s.port p).iobhd false (s.noted p)
  t.setPort p (t.port p).settled

theorem portStop_eq (p : PortNo) (s : State) : ahciPortStop p s = .ok () (s.stopped p) := rfl

theorem touch_settled (h : Host) (p : PortNo) (s : State) : Touch h p s (s.setPort p (s.port p).settled) :=
  touch_setPort s _ (settled_backed _) (settled_atapi _) (settled_started _)

theorem touch_stopped (h : Host) (p : PortNo) (s : State) : Touch h p (s.noted p) (s.stopped p) :=
  (touch_cancelRequests h p _ false _).trans (touch_settled h p _)

end Stop

/-! ## `PxCMD` -/

def Port.withCmd (pr : Port) (value : BitVec 32) : Port :=
  { pr with cmd := pr.cmd &&& ~~~cmdWritable ||| cmdWritable &&& value }

def Port.launched (h : Host) (pr : Port) : Port :=
  { pr with
    cmd := pr.cmd ||| ahciPCmdCr
    cmdLst := h.paddrGuest2host (pr.clbu.toNat <<< 32 ||| pr.clb.toNat) (ahciClSize * 32) }

/-- The state with the command list started or stopped. -/
def State.switched (h : Host) (s : State) (p : PortNo) (value : BitVec 32) : State :=
  if value &&& ahciPCmdSt = 0 then s.stopped p else s.setPort p ((s.port p).launched h)

def Port.withFre (h : Host) (pr : Port) (value : BitVec 32) : Port :=
  if value &&& ahciPCmdFre ≠ 0 then
    { pr with
      cmd := pr.cmd ||| ahciPCmdFr
      rfis := h.paddrGuest2host (pr.fbu.toNat <<< 32 ||| pr.fb.toNat) 256 }
  else { pr with cmd := pr.cmd &&& ~~~ahciPCmdFr }

def Port.withClo (pr : Port) (value : BitVec 32) : Port :=
  let pr := if value &&& ahciPCmdClo ≠ 0 then
      { pr with tfd := pr.tfd &&& ~~~(ataSBusy ||| ataSDrq), cmd := pr.cmd &&& ~~~ahciPCmdClo }
    else pr
  if value &&& ahciPCmdIccMask ≠ 0 then { pr with cmd := pr.cmd &&& ~~~ahciPCmdIccMask } else pr

/-- `ahci_handle_port` is at its loop if the port is started. -/
def State.handled (s : State) (p : PortNo) : State :=
  if (s.port p).cmd &&& ahciPCmdSt = 0 then s else { s with handling := some p }

/-- The state after a write to `PxCMD`, before its commands are gone through. -/
def State.commanded (h : Host) (s : State) (p : PortNo) (value : BitVec 32) : State :=
  let t := (s.setPort p ((s.port p).withCmd value)).switched h p value
  t.setPort p (((t.port p).withFre h value).withClo value)

section Cmd
variable {h : Host} {p : PortNo} {value : BitVec 32} {s t : State}

theorem cmdStart_eq (h : Host) (p : PortNo) (value : BitVec 32) (s : State) :
    cmdStart h p value s = .ok () (s.switched h p value) := by
  unfold cmdStart State.switched
  split <;> rfl

theorem cmdFre_eq (h : Host) (p : PortNo) (value : BitVec 32) (s : State) :
    cmdFre h p value s = .ok () (s.setPort p ((s.port p).withFre h value)) := rfl

theorem cmdClo_eq (p : PortNo) (value : BitVec 32) (s : State) :
    cmdClo p value s = .ok () (s.setPort p ((s.port p).withClo value)) := by
  unfold cmdClo Port.withClo
  dsimp only
  split
  · rw [bind_of_ok (modifyPort_eq ..)]
    dsimp only
    split
    · rw [modifyPort_eq, setPort_setPort, setPort_same]
    · rfl
  · split
    · rfl
    · show EStateM.Result.ok () s = _
      rw [setPort_self]

theorem writeCmd_eq (h : Host) (p : PortNo) (value : BitVec 32) (s : State) :
    writeCmd h p value s = .ok () ((s.commanded h p value).handled p) := by
  have hcmd : modifyPort p (fun pr => { pr with cmd := pr.cmd &&& ~~~cmdWritable ||| cmdWritable &&& value }) s =
    .ok () (s.setPort p ((s.port p).withCmd value)) := rfl
  have hclo : ∀ t : State, cmdClo p value (t.setPort p ((t.port p).withFre h value)) =
      .ok () (t.setPort p (((t.port p).withFre h value).withClo value)) := by
    intro t
    rw [cmdClo_eq, setPort_setPort, setPort_same]
  unfold writeCmd
  rw [bind_of_ok hcmd, bind_of_ok (cmdStart_eq ..), bind_of_ok (cmdFre_eq ..), bind_of_ok (hclo _), handlePort_eq]
  rfl

/-- A bit that a mask leaves alone. -/
theorem masked_bit {x y b : BitVec 32} (hy : ~~~y &&& b = b) : x &&& ~~~y &&& b = x &&& b := by
  rw [BitVec.and_assoc, hy]

theorem added_bit {x y b : BitVec 32} (hy : y &&& b = 0) : (x ||| y) &&& b = x &&& b := by
  rw [BitVec.and_or_distrib_right, hy]
  exact BitVec.or_zero

theorem withCmd_started (pr : Port) : (pr.withCmd value).cmd &&& ahciPCmdSt = value &&& ahciPCmdSt := by
  show (pr.cmd &&& ~~~cmdWritable ||| cmdWritable &&& value) &&& ahciPCmdSt = _
  rw [BitVec.or_comm, added_bit, BitVec.and_comm cmdWritable, BitVec.and_assoc]
  · rfl
  · rw [BitVec.and_assoc]
    exact BitVec.and_zero

theorem withCmd_running (pr : Port) : (pr.withCmd value).cmd &&& ahciPCmdCr = pr.cmd &&& ahciPCmdCr := by
  show (pr.cmd &&& ~~~cmdWritable ||| cmdWritable &&& value) &&& ahciPCmdCr = _
  rw [added_bit, masked_bit (by decide)]
  rw [BitVec.and_comm cmdWritable, BitVec.and_assoc]
  exact BitVec.and_zero

theorem withFre_eq (h : Host) (pr : Port) (value : BitVec 32) : ∃ cmd rfis,
    pr.withFre h value = { pr with cmd := cmd, rfis := rfis } ∧
    cmd &&& ahciPCmdSt = pr.cmd &&& ahciPCmdSt ∧ cmd &&& ahciPCmdCr = pr.cmd &&& ahciPCmdCr := by
  unfold Port.withFre
  split
  · exact ⟨_, _, rfl, added_bit (by decide), added_bit (by decide)⟩
  · exact ⟨_, _, rfl, masked_bit (by decide), masked_bit (by decide)⟩

theorem withClo_eq (pr : Port) (value : BitVec 32) : ∃ cmd tfd,
    pr.withClo value = { pr with cmd := cmd, tfd := tfd } ∧
    cmd &&& ahciPCmdSt = pr.cmd &&& ahciPCmdSt ∧ cmd &&& ahciPCmdCr = pr.cmd &&& ahciPCmdCr := by
  unfold Port.withClo
  dsimp only
  split
  · split
    · refine ⟨_, _, rfl, ?_, ?_⟩
      · rw [masked_bit (by decide), masked_bit (by decide)]
      · rw [masked_bit (by decide), masked_bit (by decide)]
    · exact ⟨_, _, rfl, masked_bit (by decide), masked_bit (by decide)⟩
  · split
    · exact ⟨_, _, rfl, masked_bit (by decide), masked_bit (by decide)⟩
    · exact ⟨_, _, rfl, rfl, rfl⟩

/-- What `PxCMD` changes of a port besides starting and stopping it. -/
def Port.recommanded (pr : Port) (cmd tfd : BitVec 32) (rfis : Option Nat) : Port :=
  { pr with cmd := cmd, tfd := tfd, rfis := rfis }

theorem freClo_eq (h : Host) (pr : Port) (value : BitVec 32) : ∃ cmd tfd rfis,
    (pr.withFre h value).withClo value = pr.recommanded cmd tfd rfis ∧
    cmd &&& ahciPCmdSt = pr.cmd &&& ahciPCmdSt ∧ cmd &&& ahciPCmdCr = pr.cmd &&& ahciPCmdCr := by
  obtain ⟨cmd, rfis, hfre, hst, hcr⟩ := withFre_eq h pr value
  rw [hfre]
  obtain ⟨cmd', tfd, hclo, hst', hcr'⟩ := withClo_eq { pr with cmd := cmd, rfis := rfis } value
  exact ⟨cmd', tfd, rfis, hclo, hst'.trans hst, hcr'.trans hcr⟩

/-- Only one port, the block interface and the interrupt line have changed, and whether the port was misused. -/
structure Wrote (h : Host) (p : PortNo) (s t : State) : Prop where
  others : ∀ q, q ≠ p → t.port q = s.port q
  backed : (t.port p).backed = (s.port p).backed
  atapi : (t.port p).atapi = (s.port p).atapi
  finishing : t.finishing = s.finishing
  handling : t.handling = s.handling
  misused : t.misused = true → s.misused = true ∨ (s.port p).backed = false
  line : Relined h s t

theorem Wrote.trans {u : State} (h₁ : Wrote h p s t) (h₂ : Wrote h p t u) : Wrote h p s u where
  others q hq := (h₂.others q hq).trans (h₁.others q hq)
  backed := h₂.backed.trans h₁.backed
  atapi := h₂.atapi.trans h₁.atapi
  finishing := h₂.finishing.trans h₁.finishing
  handling := h₂.handling.trans h₁.handling
  misused hm := by
    rcases h₂.misused hm with ht | ht
    · exact h₁.misused ht
    · exact .inr (h₁.backed ▸ ht)
  line := h₁.line.trans h₂.line

theorem Touch.wrote (ht : Touch h p s t) (hh : t.handling = s.handling) : Wrote h p s t :=
  ⟨ht.others, ht.backed, ht.atapi, ht.finishing, hh, fun hm => .inl (ht.misused ▸ hm), ht.line⟩

theorem wrote_setPort (s : State) (pr : Port) (hback : pr.backed = (s.port p).backed)
    (hatapi : pr.atapi = (s.port p).atapi) : Wrote h p s (s.setPort p pr) where
  others _ hq := setPort_ne pr hq
  backed := by rw [setPort_same, hback]
  atapi := by rw [setPort_same, hatapi]
  finishing := rfl
  handling := rfl
  misused hm := .inl hm
  line := SameLine.relined ⟨rfl, rfl, rfl, rfl, rfl⟩

theorem wrote_noted (h : Host) (p : PortNo) (s : State) : Wrote h p s (s.noted p) := by
  refine ⟨fun _ _ => rfl, rfl, rfl, rfl, rfl, fun hm => ?_, SameLine.relined ⟨rfl, rfl, rfl, rfl, rfl⟩⟩
  simpa [State.noted] using hm

theorem handling_cancelRequests (rs : List Nat) (ncq : Bool) (s : State) :
    (cancelRequests p rs ncq s).handling = s.handling := by
  induction rs generalizing ncq s with
  | nil => rfl
  | cons r rs ih =>
    unfold cancelRequests
    split
    · exact ih ..
    · exact ih ..

theorem wrote_stopped (h : Host) (p : PortNo) (s : State) : Wrote h p s (s.stopped p) :=
  (wrote_noted h p s).trans ((touch_stopped h p s).wrote (handling_cancelRequests _ _ _))

theorem wrote_commanded (h : Host) (p : PortNo) (value : BitVec 32) (s : State) :
    Wrote h p s (s.commanded h p value) := by
  have hcmd : Wrote h p s (s.setPort p ((s.port p).withCmd value)) := wrote_setPort s _ rfl rfl
  have hswitch : ∀ t : State, Wrote h p t (t.switched h p value) := by
    intro t
    unfold State.switched
    split
    · exact wrote_stopped h p t
    · exact wrote_setPort t _ rfl rfl
  have hrest : ∀ t : State, Wrote h p t (t.setPort p (((t.port p).withFre h value).withClo value)) := by
    intro t
    obtain ⟨cmd, tfd, rfis, heq, -⟩ := freClo_eq h (t.port p) value
    rw [heq]
    exact wrote_setPort t _ rfl rfl
  exact (hcmd.trans (hswitch _)).trans (hrest _)

end Cmd

/-! ## The registers of a port -/

/-- A change of the registers that nothing but their next reader depends on. -/
def Port.plain (pr : Port) (clb clbu fb fbu is sctl serr : BitVec 32) : Port :=
  { pr with clb := clb, clbu := clbu, fb := fb, fbu := fbu, is := is, sctl := sctl, serr := serr }

/-- What a write to a register of a port has done. -/
inductive PortWritten (h : Host) (p : PortNo) (value : BitVec 32) (s t : State) : Option PortReg → Prop
  | plain {reg : Option PortReg} (clb clbu fb fbu is sctl serr : BitVec 32)
    (heq : t = s.setPort p ((s.port p).plain clb clbu fb fbu is sctl serr)) : PortWritten h p value s t reg
  | ie (heq : t = (s.setPort p { s.port p with ie := value &&& 0xFDC000FF }).evalIntr h) :
    PortWritten h p value s t (some .ie)
  | cmd (heq : t = (s.commanded h p value).handled p) : PortWritten h p value s t (some .cmd)
  | sctl (hst : (s.port p).cmd &&& ahciPCmdSt = 0) (hreset : Reset h p (s.setPort p { s.port p with sctl := value }) t) :
    PortWritten h p value s t (some .sctl)
  | sact (heq : t = s.setPort p { s.port p with sact := (s.port p).sact ||| value }) :
    PortWritten h p value s t (some .sact)
  | ci (heq : t = (s.setPort p { s.port p with ci := (s.port p).ci ||| value }).handled p) :
    PortWritten h p value s t (some .ci)

section PortWrite
variable {h : Host} {p : PortNo} {value : BitVec 32} {s t : State}

theorem sctlWrite_eq (h : Host) (p : PortNo) (value : BitVec 32) (s : State) :
    pciAhciPortWrite h p (some .sctl) value s =
      if (s.port p).cmd &&& ahciPCmdSt = 0 ∧ value &&& ataScDetReset ≠ 0 then
        ahciPortReset h p (s.setPort p { s.port p with sctl := value })
      else .ok () (s.setPort p { s.port p with sctl := value }) := by
  have hrun : pciAhciPortWrite h p (some .sctl) value s =
    (getPort p >>= fun pr =>
      if pr.cmd &&& ahciPCmdSt = 0 ∧ value &&& ataScDetReset ≠ 0 then ahciPortReset h p else pure ())
      (s.setPort p { s.port p with sctl := value }) := rfl
  rw [hrun, bind_of_ok (getPort_setPort s p _)]
  split <;> rfl

theorem portWrite_ok {reg : Option PortReg} (hok : pciAhciPortWrite h p reg value s = .ok () t) :
    PortWritten h p value s t reg := by
  have hself : s = s.setPort p ((s.port p).plain (s.port p).clb (s.port p).clbu (s.port p).fb (s.port p).fbu
    (s.port p).is (s.port p).sctl (s.port p).serr) := setPort_self.symm
  cases reg with
  | none =>
    cases hok
    exact .plain _ _ _ _ _ _ _ hself
  | some reg =>
    cases reg with
    | clb | clbu | fb | fbu | is | serr =>
      cases hok
      exact .plain _ _ _ _ _ _ _ rfl
    | tfd | sig | ssts | sntf | fbs | unused0 =>
      cases hok
      exact .plain _ _ _ _ _ _ _ hself
    | ie =>
      cases hok
      exact .ie rfl
    | cmd =>
      have hcmd : writeCmd h p value s = .ok () t := hok
      rw [writeCmd_eq] at hcmd
      cases hcmd
      exact .cmd rfl
    | sctl =>
      rw [sctlWrite_eq] at hok
      split at hok
      · rename_i hc
        exact .sctl hc.1 (portReset_reset hok)
      · cases hok
        exact .plain _ _ _ _ _ _ _ rfl
    | sact =>
      cases hok
      exact .sact rfl
    | ci =>
      have hci : ahciHandlePort p (s.setPort p { s.port p with ci := (s.port p).ci ||| value }) = .ok () t := hok
      rw [handlePort_eq] at hci
      cases hci
      exact .ci rfl

theorem portWrite_stop {reg : Option PortReg} {e : Stop} (herr : pciAhciPortWrite h p reg value s = .error e t) :
    Harmless (s.port p) e := by
  cases reg with
  | none => cases herr
  | some reg =>
    cases reg with
    | cmd =>
      have hcmd : writeCmd h p value s = .error e t := herr
      rw [writeCmd_eq] at hcmd
      cases hcmd
    | sctl =>
      rw [sctlWrite_eq] at herr
      split at herr
      · have hstop := portReset_stop herr
        rwa [setPort_same] at hstop
      · cases herr
    | ci =>
      have hci : ahciHandlePort p (s.setPort p { s.port p with ci := (s.port p).ci ||| value }) = .error e t := herr
      rw [handlePort_eq] at hci
      cases hci
    | clb | clbu | fb | fbu | is | serr | tfd | sig | ssts | sntf | fbs | unused0 | ie | sact => cases herr

/-- A write changes its own port; if it leads to the loop of `ahci_handle_port`, it does so last. -/
theorem PortWritten.wrote {reg : Option PortReg} (hw : PortWritten h p value s t reg) :
    ∃ u, Wrote h p s u ∧ (t = u ∨ t = u.handled p) := by
  cases hw with
  | plain _ _ _ _ _ _ _ heq => exact ⟨t, heq ▸ wrote_setPort s _ rfl rfl, .inl rfl⟩
  | ie heq =>
    have hie : Wrote h p s (s.setPort p { s.port p with ie := value &&& 0xFDC000FF }) := wrote_setPort s _ rfl rfl
    have heval : ∀ t : State, Wrote h p t (t.evalIntr h) :=
      fun t => (touch_evalIntr h p t).wrote (lined_evalIntr t h).handling
    exact ⟨t, heq ▸ hie.trans (heval _), .inl rfl⟩
  | cmd heq => exact ⟨s.commanded h p value, wrote_commanded h p value s, .inr heq⟩
  | sctl _ hreset =>
    have hsctl : Wrote h p s (s.setPort p { s.port p with sctl := value }) := wrote_setPort s _ rfl rfl
    exact ⟨t, hsctl.trans (hreset.touch.wrote hreset.handling), .inl rfl⟩
  | sact heq => exact ⟨t, heq ▸ wrote_setPort s _ rfl rfl, .inl rfl⟩
  | ci heq => exact ⟨s.setPort p { s.port p with ci := (s.port p).ci ||| value }, wrote_setPort s _ rfl rfl, .inr heq⟩

end PortWrite

/-! ## Resets of the controller -/

/-- The controller has been reset. -/
structure HbaReset (s t : State) : Prop where
  port : ∀ q, ∃ x ssts sig, t.port q = (s.port q).quiesced.rebooted x ssts sig
  used : t.used = s.used
  finishing : t.finishing = s.finishing
  handling : t.handling = s.handling
  misused : t.misused = s.misused
  ghc : t.ghc = ahciGhcAe
  is : t.is = 0
  lintr : t.lintr = false
  pins : t.pins = if s.lintr then s.pins ++ [false] else s.pins
  asked : t.asked = s.asked

section Reset
variable {h : Host} {s t : State}

/-- The ports of a list have been reset, the others not. -/
structure PortsReset (h : Host) (l : List PortNo) (s t : State) : Prop where
  reset : ∀ q ∈ l, ∃ x ssts sig, t.port q = (s.port q).quiesced.rebooted x ssts sig
  others : ∀ q, q ∉ l → t.port q = s.port q
  used : t.used = s.used
  finishing : t.finishing = s.finishing
  handling : t.handling = s.handling
  misused : t.misused = s.misused
  line : SameLine s t

/-- One turn of the loop of `ahci_reset`. -/
def resetPort (h : Host) (i : PortNo) : AhciM Unit := do
  modifyPort i Port.quiesced
  ahciPortReset h i

theorem SameLine.trans {u : State} (h₁ : SameLine s t) (h₂ : SameLine t u) : SameLine s u :=
  ⟨h₂.ghc.trans h₁.ghc, h₂.is.trans h₁.is, h₂.lintr.trans h₁.lintr, h₂.pins.trans h₁.pins, h₂.asked.trans h₁.asked⟩

theorem sameLine_setPort (p : PortNo) (pr : Port) (s : State) : SameLine s (s.setPort p pr) :=
  ⟨rfl, rfl, rfl, rfl, rfl⟩

theorem Calm.sameLine {p : PortNo} (hc : Calm p s t) : SameLine s t := by
  obtain ⟨x, rfl⟩ := hc
  exact ⟨rfl, rfl, rfl, rfl, rfl⟩

theorem resetPort_ok {i : PortNo} (hok : resetPort h i s = .ok () t) : PortsReset h [i] s t := by
  have hrun : ahciPortReset h i (s.setPort i (s.port i).quiesced) = .ok () t := hok
  have hcalm := portReset_ok hrun
  have hreset := portReset_reset hrun
  have hsame : SameLine s t := ((sameLine_setPort i _ s).trans (sameLine_setPort i _ _)).trans hcalm.sameLine
  refine ⟨fun q hq => ?_, fun q hq => ?_, hreset.used, hreset.touch.finishing, ?_, hreset.touch.misused, hsame⟩
  · obtain rfl := List.mem_singleton.mp hq
    obtain ⟨x, ssts, sig, hport⟩ := hreset.port
    rw [setPort_same] at hport
    exact ⟨x, ssts, sig, hport⟩
  · have hne : q ≠ i := fun hqi => hq (List.mem_singleton.mpr hqi)
    rw [hreset.touch.others q hne, setPort_ne _ hne]
  · obtain ⟨x, rfl⟩ := hcalm
    rfl

theorem resetPorts_ok {l : List PortNo} (hnodup : l.Nodup) (hok : l.forM (resetPort h) s = .ok () t) :
    PortsReset h l s t := by
  induction l generalizing s with
  | nil =>
    cases hok
    exact ⟨nofun, fun _ _ => rfl, rfl, rfl, rfl, rfl, SameLine.refl _⟩
  | cons i l ih =>
    obtain ⟨_, u, hhead, htail⟩ := bind_ok_iff.mp hok
    obtain ⟨hi, hl⟩ := List.nodup_cons.mp hnodup
    have h₁ := resetPort_ok hhead
    have h₂ := ih hl htail
    refine ⟨fun q hq => ?_, fun q hq => ?_, h₂.used.trans h₁.used, h₂.finishing.trans h₁.finishing,
      h₂.handling.trans h₁.handling, h₂.misused.trans h₁.misused, h₁.line.trans h₂.line⟩
    · rcases List.mem_cons.mp hq with rfl | hq
      · rw [h₂.others q hi]
        exact h₁.reset q (List.mem_singleton.mpr rfl)
      · have hne : q ∉ [i] := fun hqi => hi (List.mem_singleton.mp hqi ▸ hq)
        rw [← h₁.others q hne]
        exact h₂.reset q hq
    · rw [h₂.others q fun hql => hq (List.mem_cons_of_mem i hql)]
      exact h₁.others q fun hqi => hq (List.mem_singleton.mp hqi ▸ List.mem_cons_self)

theorem reset_ok (hok : ahciReset h s = .ok () t) : HbaReset s t := by
  have hrun : (List.finRange 6).forM (resetPort h) { s with
    ghc := ahciGhcAe
    is := 0
    lintr := false
    pins := if s.lintr then s.pins ++ [false] else s.pins } = .ok () t := hok
  have hports := resetPorts_ok (List.nodup_finRange 6) hrun
  exact ⟨fun q => hports.reset q (List.mem_finRange q), hports.used, hports.finishing, hports.handling, hports.misused,
    hports.line.ghc, hports.line.is, hports.line.lintr, hports.line.pins, hports.line.asked⟩

/-- The FIS of a reset interrupts nobody. -/
theorem portReset_total (h : Host) (p : PortNo) (s : State) : ∃ t, ahciPortReset h p s = .ok () t := by
  rw [portReset_eq]
  split
  · have hirq : ∀ pr ix, fisIrq ix (fisOf ([FisType.regd2h.value, 0, 0, 1, 1] ++
        (if Port.atapi pr then [0x14, 0xeb] else [0, 0]) ++ [0, 0, 0, 0, 0, 1])) = 0 := by
      intro pr ix
      cases pr.atapi with
      | true => exact fisIrq_quiet (by decide) (by decide) ix
      | false => exact fisIrq_quiet (by decide) (by decide) ix
    show ∃ t, ahciWriteFis h p .regd2h _ _ = .ok () t
    rw [ahciWriteFis_eq]
    split
    · dsimp only
      rw [hirq, if_pos rfl]
      exact ⟨_, rfl⟩
    · exact ⟨_, rfl⟩
  · exact ⟨_, rfl⟩

theorem resetPorts_total (h : Host) (l : List PortNo) (s : State) : ∃ t, l.forM (resetPort h) s = .ok () t := by
  induction l generalizing s with
  | nil => exact ⟨s, rfl⟩
  | cons i l ih =>
    obtain ⟨u, hhead⟩ := portReset_total h i (s.setPort i (s.port i).quiesced)
    have hreset : resetPort h i s = .ok () u := hhead
    obtain ⟨t, htail⟩ := ih u
    exact ⟨t, bind_ok_iff.mpr ⟨(), u, hreset, htail⟩⟩

/-- A reset of the controller gets to its end. -/
theorem reset_total (h : Host) (s : State) : ∃ t, ahciReset h s = .ok () t := resetPorts_total h _ _

end Reset

/-- What a write to a register of the controller has done. -/
inductive HostWritten (h : Host) (offset : Nat) (value : BitVec 32) (s t : State) : Prop
  | reset (hoff : offset = ahciGhc) (hhr : value &&& ahciGhcHr ≠ 0) (hreset : HbaReset s t)
  | enable (hoff : offset = ahciGhc) (hhr : value &&& ahciGhcHr = 0) (hie : value &&& ahciGhcIe ≠ 0)
    (heq : t = ({ s with ghc := s.ghc ||| ahciGhcIe } : State).evalIntr h)
  | status (hoff : offset = ahciIs) (heq : t = ({ s with is := s.is &&& ~~~value } : State).evalIntr h)
  | nothing (hie : offset = ahciGhc → value &&& ahciGhcHr = 0 ∧ value &&& ahciGhcIe = 0) (heq : t = s)

theorem hostWrite_ok {h : Host} {offset : Nat} {value : BitVec 32} {s t : State}
    (hok : pciAhciHostWrite h offset value s = .ok () t) : HostWritten h offset value s t := by
  unfold pciAhciHostWrite at hok
  split at hok
  · rename_i hoff
    split at hok
    · rename_i hhr
      exact .reset hoff hhr (reset_ok hok)
    · rename_i hhr
      split at hok
      · rename_i hie
        cases hok
        exact .enable hoff (not_not.mp hhr) hie rfl
      · rename_i hie
        cases hok
        exact .nothing (fun _ => ⟨not_not.mp hhr, not_not.mp hie⟩) rfl
  · rename_i hoff
    split at hok
    · rename_i his
      cases hok
      exact .status his rfl
    · cases hok
      exact .nothing (fun hghc => absurd hghc hoff) rfl

/-! ## The steps of the controller -/

/-- An operation begins. -/
def State.begun (s : State) : State := { s with asked := 0 }

/-- What a step has done. -/
inductive Stepped (h : Host) (s t : State) : Op → Prop
  | surroundings {mem : Mem} {stack : Nat → UInt8} {cancels : Nat → Bool}
    (heq : t = { s with mem := mem, stack := stack, cancels := cancels }) :
    Stepped h s t (.surroundings mem stack cancels)
  | hostWrite {offset : Nat} {value : BitVec 32} (hfree : s.handling = none) (hnear : offset < ahciOffset)
    (hw : HostWritten h offset value s.begun t) : Stepped h s t (.write offset 4 value)
  | portWrite {offset : Nat} {value : BitVec 32} {p : PortNo} (hfree : s.handling = none) (hfar : ahciOffset ≤ offset)
    (hport : portOf offset = some p)
    (hw : PortWritten h p value s.begun t (portRegAt ((offset - ahciOffset) % ahciStep))) :
    Stepped h s t (.write offset 4 value)
  | noWrite {offset : Nat} {value : BitVec 32} (hfar : ahciOffset ≤ offset) (heq : t = s.begun) :
    Stepped h s t (.write offset 4 value)
  | read {offset size : Nat} (heq : t = s) : Stepped h s t (.read offset size)
  | turn {p : PortNo} (hat : s.handling = some p) (hturn : Turned h p s t) : Stepped h s t .turn
  | callback {p : PortNo} {r : Nat} {err : Bool} (hfree : s.handling = none) (hidle : s.finishing = false)
    (hbusy : r ∈ (s.port p).iobhd) (hcall : Called h p r err s.begun t) : Stepped h s t (.callback p r err)
  | release (hat : s.finishing = true) (heq : t = { s with used := s.used - 1, finishing := false }) :
    Stepped h s t .release

section Step
variable {h : Host} {s t : State}

theorem next_ok {op : Op} (hs : next h s op = some t) : admissible s op = true ∧ perform h op s = .ok () t := by
  unfold next at hs
  split at hs
  · rename_i hadm
    split at hs
    · rename_i hok
      cases hs
      exact ⟨hadm, hok⟩
    · cases hs
  · cases hs

theorem write_ok {offset size : Nat} {value : BitVec 32} (hfree : s.handling = none)
    (hok : pciAhciWrite h offset size value s.begun = .ok () t) : Stepped h s t (.write offset size value) := by
  unfold pciAhciWrite at hok
  split at hok
  · rename_i hshape
    obtain ⟨-, rfl⟩ := hshape
    split at hok
    · rename_i hnear
      exact .hostWrite hfree hnear (hostWrite_ok hok)
    · rename_i hnear
      cases hport : portOf offset with
      | none =>
        rw [hport] at hok
        cases hok
        exact .noWrite (Nat.le_of_not_lt hnear) rfl
      | some p =>
        rw [hport] at hok
        exact .portWrite hfree (Nat.le_of_not_lt hnear) hport (portWrite_ok hok)
  · cases hok

theorem read_ok {offset size : Nat} {v : BitVec 32} (hok : pciAhciRead offset size s = .ok v t) : t = s := by
  unfold pciAhciRead at hok
  split at hok
  · cases hok
    rfl
  · cases hok

/-- A write stops at its shape, or on the way where its port was never initialised. -/
theorem write_stop {offset size : Nat} {value : BitVec 32} {e : Stop}
    (herr : pciAhciWrite h offset size value s = .error e t) :
    e = .access ∧ ¬ (offset % 4 = 0 ∧ size = 4) ∨ ∃ p, Harmless (s.port p) e := by
  unfold pciAhciWrite at herr
  split at herr
  · split at herr
    · refine absurd herr ?_
      unfold pciAhciHostWrite
      split
      · split
        · obtain ⟨u, hu⟩ := reset_total h s
          rw [hu]
          exact nofun
        · split <;> exact nofun
      · split <;> exact nofun
    · cases hport : portOf offset with
      | none =>
        rw [hport] at herr
        cases herr
      | some p =>
        rw [hport] at herr
        exact .inr ⟨p, portWrite_stop herr⟩
  · rename_i hshape
    cases herr
    exact .inl ⟨rfl, hshape⟩

theorem read_stop {offset size : Nat} {e : Stop} (herr : pciAhciRead offset size s = .error e t) :
    e = .access ∧ ¬ ((size = 1 ∨ size = 2 ∨ size = 4) ∧ offset % size = 0) := by
  unfold pciAhciRead at herr
  split at herr
  · cases herr
  · rename_i hshape
    cases herr
    exact ⟨rfl, hshape⟩

/-- The ways a step can stop the process. -/
inductive Halted (h : Host) (s : State) (e : Stop) : Op → Prop
  | write {offset size : Nat} {value : BitVec 32}
    (hstop : e = .access ∧ ¬ (offset % 4 = 0 ∧ size = 4) ∨ ∃ p, Harmless (s.port p) e) :
    Halted h s e (.write offset size value)
  | read {offset size : Nat} (hacc : e = .access)
    (hshape : ¬ ((size = 1 ∨ size = 2 ∨ size = 4) ∧ offset % size = 0)) : Halted h s e (.read offset size)
  | turn {p : PortNo} {u : State} (hat : s.handling = some p) (hidle : (s.port p).idle = false)
    (hdue : (s.port p).due = true) (hslot : ahciHandleSlot h p (s.port p).ccs (s.atSlot p) = .error e u) :
    Halted h s e .turn
  | callback {p : PortNo} {r : Nat} {err : Bool} {u : State} (hfree : s.handling = none) (hidle : s.finishing = false)
    (hbusy : r ∈ (s.port p).iobhd)
    (hstop : Harmless (s.port p) e ∨ (err = false ∧ ((s.port p).ioreq r).more = true) ∧
      continueCommand h p ((s.port p).ioreq r) (s.port p).atapi (bytesAt s.mem ((s.port p).ioreq r).cfis)
        ((s.begun.freed p r).counted p ((s.port p).ioreq r) err) = .error e u) : Halted h s e (.callback p r err)

theorem perform_turn {p : PortNo} (hat : s.handling = some p) : perform h .turn s = handlePortTurn h p s := by
  have hget : (get : AhciM State) s = .ok s s := rfl
  unfold perform
  dsimp only
  rw [bind_of_ok hget, hat]

theorem perform_stop {op : Op} {e : Stop} (hadm : admissible s op = true) (herr : perform h op s = .error e t) :
    Halted h s e op := by
  cases op with
  | surroundings mem stack cancels => cases herr
  | write offset size value =>
    have hw : pciAhciWrite h offset size value s.begun = .error e t := herr
    have hstop := write_stop hw
    exact .write hstop
  | read offset size =>
    rcases bind_error_iff.mp herr with hread | ⟨v, u, -, hrest⟩
    · obtain ⟨hacc, hshape⟩ := read_stop hread
      exact .read hacc hshape
    · cases hrest
  | turn =>
    obtain ⟨p, hat⟩ := Option.isSome_iff_exists.mp hadm
    have hturn : handlePortTurn h p s = .error e t := (perform_turn hat).symm.trans herr
    obtain ⟨hidle, hdue, u, hslot⟩ := handlePortTurn_stop hturn
    exact .turn hat hidle hdue hslot
  | callback p r err =>
    obtain ⟨hfree, hidle, hbusy⟩ := of_decide_eq_true hadm
    have hcall : ioreqCb h p r err s.begun = .error e t := herr
    have hstop := ioreqCb_stop hcall
    exact .callback hfree hidle hbusy hstop
  | release => cases herr

theorem next_cases {op : Op} (hs : next h s op = some t) : Stepped h s t op := by
  obtain ⟨hadm, hrun⟩ := next_ok hs
  cases op with
  | surroundings mem stack cancels =>
    cases hrun
    exact .surroundings rfl
  | write offset size value => exact write_ok (of_decide_eq_true hadm) hrun
  | read offset size =>
    obtain ⟨v, u, hread, hrest⟩ := bind_ok_iff.mp hrun
    cases hrest
    exact .read (read_ok hread)
  | turn =>
    obtain ⟨p, hat⟩ := Option.isSome_iff_exists.mp hadm
    have hturn : handlePortTurn h p s = .ok () t := (perform_turn hat).symm.trans hrun
    exact .turn hat (handlePortTurn_ok hturn)
  | callback p r err =>
    obtain ⟨hfree, hidle, hbusy⟩ := of_decide_eq_true hadm
    exact .callback hfree hidle hbusy (ioreqCb_ok hrun)
  | release =>
    cases hrun
    exact .release hadm rfl

end Step

/-- The controller after its reset. -/
def startState (h : Host) (atapi : Bool) (mem : Mem) : State :=
  match ahciReset h (zeroState atapi mem) with
  | .ok _ s => s
  | .error _ s => s

theorem startState_init (h : Host) (atapi : Bool) (mem : Mem) : (system h).init (startState h atapi mem) := by
  obtain ⟨t, ht⟩ := reset_total h (zeroState atapi mem)
  refine ⟨atapi, mem, (), ?_⟩
  unfold startState
  rw [ht]

/-- A host whose guest has all of memory, each address at itself. -/
def flatHost : Host where
  paddrGuest2host a _ := some a
  sectsz := 512
  size := 0x100000
  chs := (2, 16, 63)
  psectsz := 512
  psectoff := 0
  ro := false
  candelete := false
  ident := []
  msi := false

end Xhyve.Emul.Ahci
