import Xhyve.Emul.AhciInterrupts
import Xhyve.Emul.AhciSlots

/-!
# A stopped AHCI port is clean

What stops a port clears what it had issued as soon as nothing is in flight, be that at once or in the last
callback. A reset of the controller stops every port too, but leaves that undone.
-/

namespace Xhyve.Emul.Ahci

open Xhyve.Lib Xhyve.Lib.Fallible

/-- A port that is stopped with nothing in flight has nothing issued, nothing active, no error and does not run. -/
structure Clean (pr : Port) : Prop where
  ci : pr.ci = 0
  sact : pr.sact = 0
  waitforclear : pr.waitforclear = false
  running : pr.cmd &&& ahciPCmdCr = 0

/-- As soon as the port is stopped and nothing is in flight. -/
def CleanWhenStopped (pr : Port) : Prop := pr.cmd &&& ahciPCmdSt = 0 → pr.pending = 0 → Clean pr

section Port
variable {pr pr' : Port}

/-- `ahci_check_stopped` makes a port clean that has to be. -/
theorem clean_settled (pr : Port) : CleanWhenStopped pr.settled := by
  intro hst hpend
  unfold Port.settled at hst hpend ⊢
  split
  · refine ⟨rfl, rfl, rfl, ?_⟩
    show pr.cmd &&& ~~~(ahciPCmdCr ||| ahciPCmdCcsMask) &&& ahciPCmdCr = 0
    rw [BitVec.and_assoc]
    exact BitVec.and_zero
  · rename_i hc
    rw [if_neg hc] at hst hpend
    exact absurd ⟨hst, hpend⟩ hc

/-- A port that is started, or has something in flight, need not be clean. -/
theorem clean_of_started (hst : pr.cmd &&& ahciPCmdSt ≠ 0) : CleanWhenStopped pr := fun h => absurd h hst

theorem clean_of_pending (hpend : pr.pending ≠ 0) : CleanWhenStopped pr := fun _ h => absurd h hpend

end Port

/-- What cleanness depends on is as before. -/
structure SameIssue (pr pr' : Port) : Prop where
  started : pr'.cmd &&& ahciPCmdSt = pr.cmd &&& ahciPCmdSt
  running : pr'.cmd &&& ahciPCmdCr = pr.cmd &&& ahciPCmdCr
  pending : pr'.pending = pr.pending
  ci : pr'.ci = pr.ci
  sact : pr'.sact = pr.sact ∨ pr'.sact = 0
  waitforclear : pr'.waitforclear = pr.waitforclear

theorem CleanWhenStopped.same {pr pr' : Port} (hc : CleanWhenStopped pr) (hs : SameIssue pr pr') :
    CleanWhenStopped pr' := by
  intro hst hpend
  have hclean := hc (hs.started ▸ hst) (hs.pending ▸ hpend)
  refine ⟨hs.ci.trans hclean.ci, ?_, hs.waitforclear.trans hclean.waitforclear, hs.running.trans hclean.running⟩
  rcases hs.sact with hsact | hsact
  · exact hsact.trans hclean.sact
  · exact hsact

/-! ## Steps -/

/-- Every port is clean when it has to be, and only commands of a started port are gone through. -/
structure StopInv (s : State) : Prop where
  clean : ∀ p, CleanWhenStopped (s.port p)
  handling : ∀ p, s.handling = some p → (s.port p).cmd &&& ahciPCmdSt ≠ 0

section Steps
variable {h : Host} {p : PortNo} {value : BitVec 32} {s t : State}

/-- A change of one port. -/
theorem StopInv.change (hi : StopInv s) (hothers : ∀ q, q ≠ p → t.port q = s.port q)
    (hclean : CleanWhenStopped (t.port p)) (hfree : s.handling = none)
    (hhand : t.handling = s.handling ∨ t.handling = some p ∧ (t.port p).cmd &&& ahciPCmdSt ≠ 0) : StopInv t := by
  refine ⟨fun q => ?_, fun q hq => ?_⟩
  · by_cases hqp : q = p
    · rw [hqp]
      exact hclean
    · rw [hothers q hqp]
      exact hi.clean q
  · rcases hhand with hsame | ⟨hsome, hst⟩
    · rw [hsame, hfree] at hq
      cases hq
    · obtain rfl := Option.some.inj (hsome.symm.trans hq)
      exact hst

theorem commanded_clean (h : Host) (p : PortNo) (value : BitVec 32) (s : State) :
    CleanWhenStopped ((s.commanded h p value).port p) := by
  unfold State.commanded
  rw [setPort_same]
  obtain ⟨cmd, tfd, rfis, heq, hst, hcr⟩ :=
    freClo_eq h (((s.setPort p ((s.port p).withCmd value)).switched h p value).port p) value
  rw [heq]
  have hswitch : CleanWhenStopped (((s.setPort p ((s.port p).withCmd value)).switched h p value).port p) := by
    unfold State.switched
    split
    · have hport : ∀ u : State, (u.stopped p).port p =
        ((cancelRequests p (u.port p).iobhd false (u.noted p)).port p).settled := fun _ => setPort_same _
      rw [hport]
      exact clean_settled _
    · rename_i hstart
      refine clean_of_started ?_
      rw [setPort_same, setPort_same]
      show (((s.port p).withCmd value).cmd ||| ahciPCmdCr) &&& ahciPCmdSt ≠ 0
      rw [added_bit (by decide), withCmd_started]
      exact hstart
  exact hswitch.same ⟨hst, hcr, rfl, rfl, .inl rfl, rfl⟩

theorem StopInv.handled (hi : StopInv s) (hfree : s.handling = none) (p : PortNo) : StopInv (s.handled p) := by
  unfold State.handled
  split
  · exact hi
  · rename_i hst
    exact hi.change (p := p) (fun _ _ => rfl) (hi.clean p) hfree (.inr ⟨rfl, hst⟩)

/-- A change that does not start or stop anything. -/
theorem StopInv.same (hi : StopInv s) (hport : t.port = s.port) (hhand : t.handling = s.handling) : StopInv t := by
  refine ⟨fun q => ?_, fun q hq => ?_⟩
  · rw [hport]
    exact hi.clean q
  · rw [hport]
    exact hi.handling q (hhand ▸ hq)

/-- Commands are issued to a port only while it is started. -/
def issuesStarted (s : State) : Op → Prop
  | .write offset _ value => ∀ p, portOf offset = some p →
    portRegAt ((offset - ahciOffset) % ahciStep) = some .ci ∨ portRegAt ((offset - ahciOffset) % ahciStep) = some .sact →
    value ≠ 0 → (s.port p).cmd &&& ahciPCmdSt ≠ 0
  | _ => True

theorem StopInv.portWrite {reg : Option PortReg} (hi : StopInv s) (hfree : s.handling = none)
    (hissue : reg = some .ci ∨ reg = some .sact → value ≠ 0 → (s.port p).cmd &&& ahciPCmdSt ≠ 0)
    (hw : PortWritten h p value s t reg) : StopInv t := by
  have hset : ∀ pr : Port, CleanWhenStopped pr → StopInv (s.setPort p pr) := by
    intro pr hclean
    refine hi.change (p := p) (fun q hq => setPort_ne pr hq) ?_ hfree (.inl rfl)
    rw [setPort_same]
    exact hclean
  have hadd : ∀ x : BitVec 32, value = 0 → x ||| value = x := by
    intro x hzero
    rw [hzero]
    exact BitVec.or_zero
  cases hw with
  | plain clb clbu fb fbu is sctl serr heq =>
    rw [heq]
    exact hset _ ((hi.clean p).same ⟨rfl, rfl, rfl, rfl, .inl rfl, rfl⟩)
  | ie heq =>
    have hie := hset { s.port p with ie := value &&& 0xFDC000FF } ((hi.clean p).same ⟨rfl, rfl, rfl, rfl, .inl rfl, rfl⟩)
    have hl := lined_evalIntr (s.setPort p { s.port p with ie := value &&& 0xFDC000FF }) h
    rw [heq]
    exact hie.same hl.port hl.handling
  | cmd heq =>
    have hwrote := wrote_commanded h p value s
    rw [heq]
    refine StopInv.handled ?_ (hwrote.handling.trans hfree) p
    exact hi.change hwrote.others (commanded_clean h p value s) hfree (.inl hwrote.handling)
  | sctl hst hreset =>
    obtain ⟨x, ssts, sig, hport⟩ := hreset.port
    have hothers : ∀ q, q ≠ p → t.port q = s.port q := by
      intro q hq
      rw [hreset.touch.others q hq, setPort_ne _ hq]
    refine hi.change hothers ?_ hfree (.inl hreset.handling)
    rw [hport, setPort_same]
    exact (hi.clean p).same ⟨rfl, rfl, rfl, rfl, .inr rfl, rfl⟩
  | sact heq =>
    rw [heq]
    refine hset _ ?_
    by_cases hzero : value = 0
    · exact (hi.clean p).same ⟨rfl, rfl, rfl, rfl, .inl (hadd _ hzero), rfl⟩
    · exact clean_of_started (hissue (.inr rfl) hzero)
  | ci heq =>
    rw [heq]
    refine StopInv.handled (hset _ ?_) hfree p
    by_cases hzero : value = 0
    · exact (hi.clean p).same ⟨rfl, rfl, rfl, hadd _ hzero, .inl rfl, rfl⟩
    · exact clean_of_started (hissue (.inl rfl) hzero)

/-- What is left of a port after a reset of the controller: nothing active, but what was issued, and the error. -/
theorem quiesced_clean {pr : Port} {x : Scratch} {ssts sig : BitVec 32} :
    CleanWhenStopped (pr.quiesced.rebooted x ssts sig) ↔ pr.pending ≠ 0 ∨ pr.ci = 0 ∧ pr.waitforclear = false := by
  have hcmd : ∀ b : Bool, (ahciPCmdSud ||| ahciPCmdPod ||| if b then ahciPCmdCps else 0) &&& ahciPCmdSt = 0 ∧
      (ahciPCmdSud ||| ahciPCmdPod ||| if b then ahciPCmdCps else 0) &&& ahciPCmdCr = 0 := by decide
  have hstopped : (pr.quiesced.rebooted x ssts sig).cmd &&& ahciPCmdSt = 0 := (hcmd pr.backed).1
  constructor
  · intro hclean
    by_cases hpend : pr.pending = 0
    · have hc := hclean hstopped hpend
      exact .inr ⟨hc.ci, hc.waitforclear⟩
    · exact .inl hpend
  · rintro (hpend | ⟨hci, hwait⟩)
    · exact clean_of_pending hpend
    · exact fun _ _ => ⟨hci, rfl, hwait, (hcmd pr.backed).2⟩

/-- No port is idle with something issued or with an error when the controller is reset. -/
def resetsSettled (s : State) : Op → Prop
  | .write offset _ value => offset = ahciGhc → value &&& ahciGhcHr ≠ 0 →
    ∀ p, (s.port p).pending ≠ 0 ∨ (s.port p).ci = 0 ∧ (s.port p).waitforclear = false
  | _ => True

theorem hbaReset_clean (hr : HbaReset s t) :
    (∀ p, CleanWhenStopped (t.port p)) ↔ ∀ p, (s.port p).pending ≠ 0 ∨ (s.port p).ci = 0 ∧ (s.port p).waitforclear = false := by
  refine forall_congr' fun p => ?_
  obtain ⟨x, ssts, sig, hport⟩ := hr.port p
  rw [hport]
  exact quiesced_clean

/-- Every command that is continued has a request in flight again, or was the last of its port. -/
theorem continueCommand_clean {aior : Ioreq} {atapi : Bool} {c : Nat → UInt8}
    (hok : continueCommand h p aior atapi c s = .ok () t) : CleanWhenStopped (t.port p) := by
  have hsubmitted : ∀ {accepted : Bool} {a : Ioreq} {u : State}, Submitted h p accepted a u t →
      CleanWhenStopped (t.port p) := by
    intro accepted a u hsub
    obtain ⟨r, rest, x, -, hport⟩ := hsub.port
    refine clean_of_pending fun hzero => ?_
    have hbit : (t.port p).pending.getLsbD a.slot.val = true := by
      have hset : (t.port p).pending = WordSet.set a.slot.val (u.port p).pending := by
        rw [hport]
        cases accepted <;> rfl
      rw [hset, WordSet.getLsbD_set a.slot.isLt]
      simp
    rw [hzero] at hbit
    simp at hbit
  unfold continueCommand at hok
  split at hok
  · obtain ⟨u, r, rest, -, -, hsub⟩ := atapiRead_ok hok
    exact hsubmitted hsub
  · split at hok
    · obtain ⟨buf, -, htrim⟩ := dsmTrim_ok hok
      unfold TrimDone at htrim
      split at htrim
      · exact absurd htrim id
      · obtain ⟨u, -, hfin⟩ := htrim.mid
        rw [hfin.port]
        exact clean_settled _
      · obtain ⟨r, hsub⟩ := htrim
        exact hsubmitted hsub
    · obtain ⟨r, rest, -, hsub, -⟩ := handleRw_ok hok
      exact hsubmitted hsub

theorem Called.clean {r : Nat} {err : Bool} (hc : Called h p r err s t) : CleanWhenStopped (t.port p) := by
  cases hc with
  | continued _ hrun => exact continueCommand_clean hrun
  | ended _ _ hfin =>
    rw [hfin.port]
    exact clean_settled _

/-- What the loop does to its own port leaves that started. -/
theorem StopInv.loop (hi : StopInv s) (hat : s.handling = some p) (ht : Touch h p s t) : StopInv t := by
  have hst : (t.port p).cmd &&& ahciPCmdSt ≠ 0 := ht.started ▸ hi.handling p hat
  refine ⟨fun q => ?_, fun q hq => ?_⟩
  · by_cases hqp : q = p
    · rw [hqp]
      exact clean_of_started hst
    · rw [ht.others q hqp]
      exact hi.clean q
  · have hqp : some p = some q := by
      rcases ht.handling with hsame | ⟨hsome, -⟩
      · rw [← hq, hsame, hat]
      · rw [← hq, hsome]
    obtain rfl := Option.some.inj hqp
    exact hst

theorem StopInv.turned (hi : StopInv s) (hat : s.handling = some p) (ht : Turned h p s t) : StopInv t := by
  cases ht with
  | ended _ heq =>
    rw [heq]
    exact ⟨hi.clean, nofun⟩
  | passed _ _ heq =>
    rw [heq]
    exact hi.loop hat (touch_advanced h p s)
  | looked _ _ hslot heq =>
    have hnoted : StopInv ((s.atSlot p).noted p) := (hi.loop hat (touch_atSlot h p s)).same rfl rfl
    rw [heq]
    exact hnoted.loop hat (hslot.touch.trans (touch_advanced h p _))

theorem StopInv.step {op : Op} (hi : StopInv s) (hissue : issuesStarted s op) (hreset : resetsSettled s op)
    (hs : next h s op = some t) : StopInv t := by
  have hbegun : StopInv s.begun := hi.same rfl rfl
  cases next_cases hs with
  | surroundings heq => exact hi.same (heq ▸ rfl) (heq ▸ rfl)
  | hostWrite hfree _ hw =>
    cases hw with
    | reset hoff hhr hr =>
      refine ⟨(hbaReset_clean hr).mpr (hreset hoff hhr), fun q hq => ?_⟩
      rw [hr.handling] at hq
      exact absurd (hfree.symm.trans hq) nofun
    | enable _ _ _ heq =>
      have hl := lined_evalIntr { s.begun with ghc := s.begun.ghc ||| ahciGhcIe } h
      rw [heq]
      exact hbegun.same hl.port hl.handling
    | status _ heq =>
      have hl := fun value : BitVec 32 => lined_evalIntr { s.begun with is := s.begun.is &&& ~~~value } h
      rw [heq]
      exact hbegun.same (hl _).port (hl _).handling
    | nothing _ heq =>
      rw [heq]
      exact hbegun
  | portWrite hfree _ hport hw => exact hbegun.portWrite hfree (hissue _ hport) hw
  | noWrite _ heq =>
    rw [heq]
    exact hbegun
  | read heq =>
    rw [heq]
    exact hi
  | turn hat hturn => exact hi.turned hat hturn
  | @callback p _ _ hfree _ _ hcall =>
    have hothers : ∀ q, q ≠ p → t.port q = s.port q := by
      intro q hq
      rw [hcall.touch.others q hq]
      exact setPort_ne _ hq
    exact hi.change hothers hcall.clean hfree hcall.touch.handling
  | release _ heq => exact hi.same (heq ▸ rfl) (heq ▸ rfl)

end Steps

/-! ## Stopped ports -/

theorem zeroState_clean (atapi : Bool) (mem : Mem) (p : PortNo) :
    ((zeroState atapi mem).port p).ci = 0 ∧ ((zeroState atapi mem).port p).waitforclear = false := by
  by_cases hp : p = 0
  · subst hp
    exact ⟨rfl, rfl⟩
  · have hzero : (zeroState atapi mem).port p = zeroPort := by simp [zeroState, hp]
    rw [hzero]
    exact ⟨rfl, rfl⟩

/-- The steps of a guest that keeps to the order of commands and resets no port it has left behind. -/
def orderly (s : State) (op : Op) : Prop := issuesStarted s op ∧ resetsSettled s op

theorem stop_inductive (h : Host) : ((system h).restrict orderly).Inductive StopInv where
  init s hs := by
    obtain ⟨atapi, mem, u, hreset⟩ := hs
    have hr := reset_ok hreset
    refine ⟨(hbaReset_clean hr).mpr fun p => .inr (zeroState_clean atapi mem p), fun q hq => ?_⟩
    rw [hr.handling] at hq
    cases hq
  step _ _ _ hi hs := by
    obtain ⟨hok, hnext⟩ := hs
    exact hi.step hok.1 hok.2 hnext

/-- As long as the controller is reset only while no port is idle with something issued or with an error, every
stopped port is clean, and the reset is where it would go wrong. -/
theorem stopped_clean {h : Host} {s : State} (hr : ((system h).restrict orderly).Reachable s) :
    (∀ p, CleanWhenStopped (s.port p)) ∧
      ∀ value t, value &&& ahciGhcHr ≠ 0 → next h s (.write ahciGhc 4 value) = some t →
        ((∀ p, CleanWhenStopped (t.port p)) ↔ resetsSettled s (.write ahciGhc 4 value)) := by
  refine ⟨((stop_inductive h).reachable hr).clean, fun value t hhr hs => ?_⟩
  have hstep := next_cases hs
  have hreset : HbaReset s.begun t := by
    cases hstep with
    | hostWrite _ _ hw =>
      cases hw with
      | reset _ _ hreset => exact hreset
      | enable _ hclear _ _ => exact absurd hclear hhr
      | status hoff _ => exact absurd hoff (by decide)
      | nothing hnone _ => exact absurd (hnone rfl).1 hhr
    | portWrite _ hfar _ _ => exact absurd hfar (by decide)
    | noWrite hfar _ => exact absurd hfar (by decide)
  rw [hbaReset_clean hreset]
  exact ⟨fun hall _ _ => hall, fun hok => hok rfl hhr⟩

/-- Port 0 is started, the refused command issued, the port stopped and the controller reset. -/
def stopRun : List Op := refusedRun ++ [.write 0x118 4 0x10, .write 0x04 4 0x1]

/-- The same without the stop: the controller is reset with the error still there. -/
def forgetRun : List Op := refusedRun ++ [.write 0x04 4 0x1]

instance (s : State) : ∀ op, Decidable (issuesStarted s op)
  | .write .. => inferInstanceAs (Decidable (∀ _, _))
  | .surroundings .. | .read .. | .turn | .callback .. | .release => inferInstanceAs (Decidable True)

instance (s : State) : ∀ op, Decidable (resetsSettled s op)
  | .write .. => inferInstanceAs (Decidable (_ → _))
  | .surroundings .. | .read .. | .turn | .callback .. | .release => inferInstanceAs (Decidable True)

instance (s : State) (op : Op) : Decidable (orderly s op) := inferInstanceAs (Decidable (_ ∧ _))

/-- The guest that stops the port first finds it clean. -/
theorem stopped_clean_stop : ∃ s, ((system flatHost).restrict orderly).Reachable s ∧
    (s.port 0).cmd &&& ahciPCmdSt = 0 ∧ (s.port 0).pending = 0 ∧ Clean (s.port 0) := by
  have hrun : (System.exec (System.guarded orderly (next flatHost)) (startState flatHost false nopMem) stopRun).map
      (fun s => ((s.port 0).cmd &&& ahciPCmdSt, (s.port 0).pending)) = some (0, 0) := by decide +kernel
  obtain ⟨s, hs, hboth⟩ := Option.map_eq_some_iff.mp hrun
  obtain ⟨hst, hpend⟩ := Prod.mk.inj hboth
  have hr : ((system flatHost).restrict orderly).Reachable s :=
    System.exec_reachable_guarded (.init (startState_init flatHost false nopMem)) hs
  exact ⟨s, hr, hst, hpend, (stopped_clean hr).1 0 hst hpend⟩

/-- A guest that resets the controller after an error, and only issues commands to a started port, finds the command
still issued and the error still there. -/
theorem stopped_port_not_clean : ∃ s, ((system flatHost).restrict issuesStarted).Reachable s ∧
    ¬ CleanWhenStopped (s.port 0) := by
  have hrun : (System.exec (System.guarded issuesStarted (next flatHost)) (startState flatHost false nopMem)
      forgetRun).map (fun s => ((s.port 0).cmd &&& ahciPCmdSt, (s.port 0).pending, (s.port 0).ci,
        (s.port 0).waitforclear)) = some (0, 0, 1, true) := by decide +kernel
  obtain ⟨s, hs, hall⟩ := Option.map_eq_some_iff.mp hrun
  obtain ⟨hst, hpend, hci, -⟩ : _ ∧ _ ∧ _ ∧ _ := by simpa using hall
  refine ⟨s, System.exec_reachable_guarded (.init (startState_init flatHost false nopMem)) hs, fun hclean => ?_⟩
  have hzero := (hclean hst hpend).ci
  rw [hci] at hzero
  exact absurd hzero (by decide)

end Xhyve.Emul.Ahci
