import Xhyve.Emul.AhciRegisters

/-!
# The interrupt line of the AHCI controller

The line is evaluated where a port raises an interrupt and where an interrupt register or `GHC` is written.
Between evaluations it agrees with the global status and the global enable bit, whatever the ports do. The
enable bit itself follows the guest's writes only upwards: once set, nothing but a reset clears it.
-/

namespace Xhyve.Emul.Ahci

open Xhyve.Lib Xhyve.Lib.Fallible

/-- The first calls for the pin: asserted, deasserted, asserted and so on. -/
def alternating (n : Nat) : List Bool := (List.range n).map fun i => decide (i % 2 = 0)

/-- The line agrees with its history, and no interrupt a port asked for has been lost. -/
structure PinsInv (s : State) : Prop where
  pins : s.pins = alternating s.pins.length
  level : s.lintr = decide (s.pins.length % 2 = 1)
  asked : s.asked ||| s.is = s.is

/-- The line also agrees with the global status. -/
structure LineInv (s : State) : Prop extends PinsInv s where
  line : s.lintr = s.enabled

section Line
variable {h : Host} {p : PortNo} {s t : State}

theorem enabled_of_sameLine (hl : SameLine s t) : t.enabled = s.enabled := by
  unfold State.enabled
  rw [hl.is, hl.ghc]

theorem LineInv.sameLine (hi : LineInv s) (hl : SameLine s t) : LineInv t where
  pins := by rw [hl.pins, ← hi.pins]
  level := by rw [hl.lintr, hl.pins, hi.level]
  asked := by rw [hl.asked, hl.is, hi.asked]
  line := by rw [hl.lintr, enabled_of_sameLine hl, hi.line]

/-- A call for the pin that changes its level. -/
theorem alternating_push {l : List Bool} {b : Bool} (hl : l = alternating l.length)
    (hb : b = decide (l.length % 2 = 0)) : l ++ [b] = alternating (l ++ [b]).length := by
  rw [List.length_append, List.length_singleton, alternating, List.range_succ, List.map_append, ← alternating, ← hl, hb]
  rfl

theorem PinsInv.push {b : Bool} (hi : PinsInv s) (hb : s.lintr = !b) (hline : s.enabled = b) :
    LineInv { s with lintr := b, pins := s.pins ++ [b] } := by
  have hlen : b = decide (s.pins.length % 2 = 0) := by
    rw [hi.level] at hb
    cases b with
    | true => simpa using hb
    | false => simpa using hb
  refine ⟨⟨alternating_push hi.pins hlen, ?_, hi.asked⟩, hline.symm⟩
  show b = decide ((s.pins ++ [b]).length % 2 = 1)
  rw [List.length_append, List.length_singleton, hlen, decide_eq_decide]
  omega

theorem PinsInv.gather (hi : PinsInv s) : PinsInv s.gather := by
  refine ⟨hi.pins, hi.level, ?_⟩
  show s.asked ||| portsAsking s ||| (s.is ||| portsAsking s) = s.is ||| portsAsking s
  rw [BitVec.or_assoc, BitVec.or_comm s.is, ← BitVec.or_assoc (portsAsking s), BitVec.or_self, BitVec.or_comm,
    BitVec.or_assoc, BitVec.or_comm s.is, hi.asked, BitVec.or_comm]

/-- Every evaluation brings the line in order. -/
theorem PinsInv.evalIntr (hmsi : h.msi = false) (hi : PinsInv s) : LineInv (s.evalIntr h) := by
  have hg := hi.gather
  show LineInv (s.gather.setLine h)
  unfold State.setLine
  rw [hmsi, Bool.false_or]
  cases hen : s.gather.enabled with
  | true =>
    rw [if_pos rfl]
    cases hl : s.gather.lintr with
    | true => exact ⟨hg, hl.trans hen.symm⟩
    | false => exact hg.push hl hen
  | false =>
    rw [if_neg nofun]
    cases hl : s.gather.lintr with
    | true => exact hg.push hl hen
    | false => exact ⟨hg, hl.trans hen.symm⟩

theorem LineInv.relined (hmsi : h.msi = false) (hi : LineInv s) (hr : Relined h s t) :
    LineInv t ∧ t.ghc = s.ghc := by
  induction hr with
  | refl => exact ⟨hi, rfl⟩
  | tail _ hstep ih =>
    obtain ⟨hu, hghc⟩ := ih
    rcases hstep with hl | rfl
    · exact ⟨hu.sameLine hl, hl.ghc.trans hghc⟩
    · exact ⟨hu.toPinsInv.evalIntr hmsi, (lined_evalIntr _ h).ghc.trans hghc⟩

end Line

/-! ## The line along the steps -/

section Steps
variable {h : Host} {p : PortNo} {value : BitVec 32} {s t : State}

theorem PortWritten.relined {reg : Option PortReg} (hw : PortWritten h p value s t reg) : Relined h s t := by
  obtain ⟨u, hwrote, heq | heq⟩ := hw.wrote
  · rw [heq]
    exact hwrote.line
  · rw [heq]
    exact .trans hwrote.line (touch_handlePort h p u).line

theorem Turned.relined (ht : Turned h p s t) : Relined h s t := by
  cases ht with
  | ended _ heq =>
    rw [heq]
    exact SameLine.relined ⟨rfl, rfl, rfl, rfl, rfl⟩
  | passed _ _ heq =>
    rw [heq]
    exact (touch_advanced h p s).line
  | looked _ _ hslot heq =>
    rw [heq]
    refine .trans (touch_atSlot h p s).line (.trans (wrote_noted h p _).line ?_)
    exact .trans hslot.touch.line (touch_advanced h p _).line

theorem LineInv.begun (hi : LineInv s) : LineInv s.begun :=
  ⟨⟨hi.pins, hi.level, BitVec.zero_or⟩, hi.line⟩

end Steps

/-! ## The guest's view -/

/-- Whether the guest has enabled interrupts, going by its writes to `GHC` since the last reset. -/
def ieAfter (ie : Bool) : Op → Bool
  | .write offset _ value =>
    if offset = ahciGhc then
      if value &&& ahciGhcHr ≠ 0 then false else value &&& ahciGhcIe ≠ 0
    else ie
  | _ => ie

/-- The controller, together with what the guest last wrote. -/
def watchedNext (h : Host) (x : State × Bool) (op : Op) : Option (State × Bool) :=
  (next h x.1 op).map fun t => (t, ieAfter x.2 op)

def watched (h : Host) : System (State × Bool) Op :=
  System.ofFn (fun x => (system h).init x.1 ∧ x.2 = false) (watchedNext h)

/-- The guest does not write `GHC` with the enable bit clear while it is set, unless to reset the controller. -/
def keepsEnabled (x : State × Bool) : Op → Prop
  | .write offset _ value =>
    offset = ahciGhc → value &&& ahciGhcHr = 0 → value &&& ahciGhcIe = 0 → x.2 = false
  | _ => True

/-- The enable bit of the controller is what the guest wrote. -/
structure WatchInv (x : State × Bool) : Prop where
  line : LineInv x.1
  enable : (x.1.ghc &&& ahciGhcIe ≠ 0 : Bool) = x.2

section Watch
variable {h : Host} {s t : State} {ie : Bool}

theorem WatchInv.relined (hmsi : h.msi = false) (hi : WatchInv (s, ie)) (hr : Relined h s t) : WatchInv (t, ie) := by
  obtain ⟨hline, hghc⟩ := hi.line.relined hmsi hr
  refine ⟨hline, ?_⟩
  show (t.ghc &&& ahciGhcIe ≠ 0 : Bool) = ie
  rw [hghc]
  exact hi.enable

theorem lineInv_reset (hi : PinsInv s) (hask : s.asked = 0) (hr : HbaReset s t) : LineInv t := by
  have hen : t.enabled = false := by
    unfold State.enabled
    rw [hr.is]
    exact decide_eq_false fun hc => hc.1 rfl
  have hasked : t.asked ||| t.is = t.is := by
    rw [hr.asked, hr.is, hask]
    rfl
  refine ⟨⟨?_, ?_, hasked⟩, hr.lintr.trans hen.symm⟩
  · rw [hr.pins]
    split
    · rename_i hl
      refine alternating_push hi.pins ?_
      have hodd : s.pins.length % 2 = 1 := by simpa [hl] using hi.level
      rw [hodd]
      rfl
    · exact hi.pins
  · rw [hr.lintr, hr.pins]
    split
    · rename_i hl
      have hodd : s.pins.length % 2 = 1 := by simpa [hl] using hi.level
      rw [List.length_append, List.length_singleton]
      refine (decide_eq_false ?_).symm
      omega
    · rename_i hl
      rw [← hi.level]
      exact (Bool.not_eq_true _ ▸ hl : s.lintr = false).symm

theorem watchInv_hostWrite (hmsi : h.msi = false) {offset size : Nat} {value : BitVec 32} (hi : WatchInv (s, ie))
    (hask : s.asked = 0) (hok : keepsEnabled (s, ie) (.write offset size value))
    (hw : HostWritten h offset value s t) : WatchInv (t, ieAfter ie (.write offset size value)) := by
  cases hw with
  | reset hoff hhr hreset =>
    have hafter : ieAfter ie (.write offset size value) = false := by
      show (if offset = ahciGhc then _ else _) = _
      rw [if_pos hoff, if_pos hhr]
    rw [hafter]
    refine ⟨lineInv_reset hi.line.toPinsInv hask hreset, ?_⟩
    show (t.ghc &&& ahciGhcIe ≠ 0 : Bool) = false
    rw [hreset.ghc]
    decide
  | enable hoff hhr hie heq =>
    have hafter : ieAfter ie (.write offset size value) = true := by
      show (if offset = ahciGhc then _ else _) = _
      rw [if_pos hoff, if_neg (not_not.mpr hhr)]
      exact decide_eq_true hie
    rw [hafter, heq]
    refine ⟨PinsInv.evalIntr hmsi ⟨hi.line.pins, hi.line.level, hi.line.asked⟩, ?_⟩
    show ((State.evalIntr _ h).ghc &&& ahciGhcIe ≠ 0 : Bool) = true
    rw [(lined_evalIntr _ h).ghc]
    show decide ((s.ghc ||| ahciGhcIe) &&& ahciGhcIe ≠ 0) = true
    rw [BitVec.and_or_distrib_right]
    refine decide_eq_true fun hzero => ?_
    have hie := BitVec.or_eq_zero_iff.mp hzero
    exact absurd hie.2 (by decide)
  | status hoff heq =>
    have hafter : ieAfter ie (.write offset size value) = ie := by
      show (if offset = ahciGhc then _ else _) = _
      rw [hoff, if_neg (by decide)]
    rw [hafter, heq]
    refine ⟨PinsInv.evalIntr hmsi ⟨hi.line.pins, hi.line.level, ?_⟩, ?_⟩
    · show s.asked ||| (s.is &&& ~~~value) = s.is &&& ~~~value
      rw [hask]
      exact BitVec.zero_or
    · show ((State.evalIntr _ h).ghc &&& ahciGhcIe ≠ 0 : Bool) = ie
      rw [(lined_evalIntr _ h).ghc]
      exact hi.enable
  | nothing hnone heq =>
    rw [heq]
    refine ⟨hi.line, ?_⟩
    show (s.ghc &&& ahciGhcIe ≠ 0 : Bool) = _
    rw [hi.enable]
    show ie = if offset = ahciGhc then _ else _
    split
    · rename_i hoff
      obtain ⟨hhr, hie⟩ := hnone hoff
      have hclear : ie = false := hok hoff hhr hie
      rw [if_neg (not_not.mpr hhr), hclear]
      exact (decide_eq_false (not_not.mpr hie)).symm
    · rfl

theorem watchInv_step (hmsi : h.msi = false) {op : Op} (hi : WatchInv (s, ie)) (hok : keepsEnabled (s, ie) op)
    (hs : next h s op = some t) : WatchInv (t, ieAfter ie op) := by
  have hbegun : WatchInv (s.begun, ie) := ⟨hi.line.begun, hi.enable⟩
  have hsame : ∀ {u v}, WatchInv (u, ie) → SameLine u v → WatchInv (v, ie) := fun hu hl => hu.relined hmsi hl.relined
  have hfar : ∀ {offset size value}, ahciOffset ≤ offset → ieAfter ie (.write offset size value) = ie := by
    intro offset size value hge
    show (if offset = ahciGhc then _ else _) = _
    rw [if_neg]
    rintro rfl
    exact absurd hge (by decide)
  cases next_cases hs with
  | surroundings heq => exact hsame hi (heq ▸ ⟨rfl, rfl, rfl, rfl, rfl⟩)
  | hostWrite _ _ hw => exact watchInv_hostWrite hmsi hbegun rfl hok hw
  | portWrite _ hge _ hw =>
    rw [hfar hge]
    exact hbegun.relined hmsi hw.relined
  | noWrite hge heq =>
    rw [hfar hge, heq]
    exact hbegun
  | read heq =>
    rw [heq]
    exact hi
  | turn _ hturn => exact hi.relined hmsi hturn.relined
  | callback _ _ _ hcall =>
    have hfreed : ∀ p r, SameLine s.begun (s.begun.freed p r) := fun _ _ => ⟨rfl, rfl, rfl, rfl, rfl⟩
    exact (hsame hbegun (hfreed _ _)).relined hmsi hcall.touch.line
  | release _ heq => exact hsame hi (heq ▸ ⟨rfl, rfl, rfl, rfl, rfl⟩)

theorem watchInv_init (hs : (system h).init s) : WatchInv (s, false) := by
  obtain ⟨atapi, mem, u, hreset⟩ := hs
  have hr := reset_ok hreset
  have hzero : PinsInv (zeroState atapi mem) := ⟨rfl, rfl, BitVec.zero_or⟩
  refine ⟨lineInv_reset hzero rfl hr, ?_⟩
  show (s.ghc &&& ahciGhcIe ≠ 0 : Bool) = false
  rw [hr.ghc]
  decide

theorem watched_inductive (hmsi : h.msi = false) : ((watched h).restrict keepsEnabled).Inductive WatchInv where
  init x hx := by
    obtain ⟨hinit, hie⟩ := hx
    obtain ⟨s, ie⟩ := x
    subst hie
    exact watchInv_init hinit
  step x op y hi hs := by
    obtain ⟨hok, hnext⟩ := hs
    obtain ⟨t, ht, rfl⟩ := Option.map_eq_some_iff.mp hnext
    exact watchInv_step hmsi hi hok ht

end Watch

/-! ## The line and `GHC` -/

/-- The line is what the guest's last word on `GHC` and the global status say, the status holds every port that
an evaluation of this operation found asking, and the pin goes up and down in turn. -/
structure LineSound (s : State) (ie : Bool) : Prop where
  line : s.lintr = true ↔ ie = true ∧ s.is ≠ 0
  gathered : ∀ i : PortNo, s.asked.getLsbD i.val = true → s.is.getLsbD i.val = true
  pins : s.pins = alternating s.pins.length

theorem foldl_asking (s : State) (i : PortNo) (l : List PortNo) (m : BitVec 32) :
    (l.foldl (fun m i => if (s.port i).is &&& (s.port i).ie ≠ 0 then WordSet.set i.val m else m) m).getLsbD i.val =
      (m.getLsbD i.val || decide (i ∈ l ∧ (s.port i).is &&& (s.port i).ie ≠ 0)) := by
  induction l generalizing m with
  | nil => simp
  | cons j l ih =>
    rw [List.foldl_cons, ih]
    have hj : j.val < 32 := by omega
    split
    · rename_i hask
      rw [WordSet.getLsbD_set hj]
      by_cases hij : i = j
      · subst hij
        have hmem : i ∈ i :: l ∧ (s.port i).is &&& (s.port i).ie ≠ 0 := ⟨List.mem_cons_self, hask⟩
        rw [decide_eq_true hmem]
        simp
      · have hval : i.val ≠ j.val := fun hv => hij (Fin.ext hv)
        simp [hij, hval]
    · rename_i hask
      by_cases hij : i = j
      · subst hij
        simp [not_not.mp hask]
      · simp [hij]

/-- An evaluation looks at every port. -/
theorem portsAsking_iff (s : State) (i : PortNo) :
    (portsAsking s).getLsbD i.val = true ↔ (s.port i).is &&& (s.port i).ie ≠ 0 := by
  unfold portsAsking
  rw [foldl_asking]
  simp

theorem asked_evalIntr (s : State) (h : Host) : (s.evalIntr h).asked = s.asked ||| portsAsking s := by
  show (s.gather.setLine h).asked = _
  unfold State.setLine
  split
  · split <;> rfl
  · split <;> rfl

/-- As long as the guest does not try to take back its permission, the line is right after every operation. -/
theorem line_follows_ghc {h : Host} (hmsi : h.msi = false) {x : State × Bool}
    (hr : ((watched h).restrict keepsEnabled).Reachable x) :
    LineSound x.1 x.2 ∧
      ∀ i, (x.1.port i).is &&& (x.1.port i).ie ≠ 0 → (x.1.evalIntr h).asked.getLsbD i.val = true := by
  have hi := (watched_inductive hmsi).reachable hr
  refine ⟨⟨?_, fun i hask => ?_, hi.line.pins⟩, fun i hask => ?_⟩
  · rw [hi.line.line, ← hi.enable]
    unfold State.enabled
    simp only [decide_eq_true_eq]
    exact And.comm
  · rw [← hi.line.asked, BitVec.getLsbD_or, hask, Bool.true_or]
  · rw [asked_evalIntr, BitVec.getLsbD_or, (portsAsking_iff x.1 i).mpr hask, Bool.or_true]

/-! ## A guest that disables interrupts -/

/-- A command list whose first entry is its own command table, which holds a `NOP`. -/
def nopMem : Mem := fun a => if a = 0 then 0x27 else if a = 1 then 0x80 else 0

/-- Interrupts are enabled, port 0 is started, and a command is issued that is refused. -/
def refusedRun : List Op :=
  [.write 0x04 4 0x2, .write 0x114 4 0x1, .write 0x118 4 0x11, .turn, .write 0x138 4 0x1, .turn, .turn]

/-- The guest then writes `GHC` with the enable bit clear. -/
def disableRun : List Op := refusedRun ++ [.write 0x04 4 0]

/-- The line is up, as it should be. -/
theorem line_follows_ghc_refused : ∃ x, ((watched flatHost).restrict keepsEnabled).Reachable x ∧
    x.1.lintr = true ∧ LineSound x.1 x.2 := by
  have hrun : (System.exec (watchedNext flatHost) (startState flatHost false nopMem, false) refusedRun).map
      (fun x => x.1.lintr) = some true := by decide +kernel
  obtain ⟨x, hx, hline⟩ := Option.map_eq_some_iff.mp hrun
  have hok : ∀ op ∈ refusedRun, ∀ x, keepsEnabled x op := by
    intro op hop x
    simp only [refusedRun, List.mem_cons, List.not_mem_nil, or_false] at hop
    rcases hop with rfl | rfl | rfl | rfl | rfl | rfl | rfl
    · exact fun _ _ hie => absurd hie (by decide)
    · exact fun hoff => absurd hoff (by decide)
    · exact fun hoff => absurd hoff (by decide)
    · trivial
    · exact fun hoff => absurd hoff (by decide)
    · trivial
    · trivial
  have hr : ((watched flatHost).restrict keepsEnabled).Reachable x :=
    System.exec_reachable_restrict hok (.init ⟨startState_init flatHost false nopMem, rfl⟩) hx
  exact ⟨x, hr, hline, (line_follows_ghc rfl hr).1⟩

/-- The guest has disabled interrupts and the line stays up. -/
theorem line_up_though_disabled : flatHost.msi = false ∧
    ∃ x, (watched flatHost).Reachable x ∧ x.2 = false ∧ x.1.lintr = true ∧ ¬ LineSound x.1 x.2 := by
  have hrun : (System.exec (watchedNext flatHost) (startState flatHost false nopMem, false) disableRun).map
      (fun x => (x.1.lintr, x.2)) = some (true, false) := by decide +kernel
  obtain ⟨x, hx, hboth⟩ := Option.map_eq_some_iff.mp hrun
  obtain ⟨hline, hie⟩ := Prod.mk.inj hboth
  have hr : (watched flatHost).Reachable x :=
    System.exec_reachable (.init ⟨startState_init flatHost false nopMem, rfl⟩) hx
  refine ⟨rfl, x, hr, hie, hline, fun hsound => ?_⟩
  have hen := (hsound.line.mp hline).1
  rw [hie] at hen
  cases hen

end Xhyve.Emul.Ahci
