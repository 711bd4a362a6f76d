import Xhyve.Emul.AhciSlots
import Xhyve.Lib.RoundRobin

/-!
# The loop of `ahci_handle_port` comes to its end

A slot that is looked at is either done with, or the loop ends with it, except where its table does not hold a FIS of
the host's and where an error is to be reported without a receive area. Such a slot is looked at again and again.
-/

namespace Xhyve.Emul.Ahci

open Xhyve.Lib Xhyve.Lib.Fallible

/-! ## One slot -/

/-- The device is busy or in error. -/
def Port.blocked (pr : Port) : Prop := pr.tfd &&& (ataSBusy ||| ataSDrq) ≠ 0 ∨ pr.waitforclear = true

/-- A slot that has been looked at is done with, or the loop is. -/
def Ends (slot : Slot) (pr : Port) : Prop := pr.fresh.getLsbD slot.val = false ∨ pr.blocked

/-- The table of a slot holds a FIS of the host's. A command in it that is refused can be reported as an error. -/
def Taken (h : Host) (pr : Port) (m : Mem) (slot : Slot) : Prop := ∃ cfis, tableOf h pr m slot = some cfis ∧
  m cfis = FisType.regh2d.value ∧
    (m (cfis + 1) &&& 0x80 ≠ 0 → cmdKind pr m slot cfis = .answer true → pr.fisArea.isSome = true)

/-- Of the commands to issue none is new, and that of the slot is not among them. -/
def Fewer (slot : Slot) (pr pr' : Port) : Prop :=
  ∀ j, pr'.fresh.getLsbD j = true → pr.fresh.getLsbD j = true ∧ j ≠ slot.val

section Slot
variable {h : Host} {p : PortNo} {slot : Slot} {cfis : Nat} {pr pr' pr'' : Port} {s t u : State}

theorem fresh_bit (pr : Port) (j : Nat) : pr.fresh.getLsbD j = (pr.ci.getLsbD j && !pr.pending.getLsbD j) := by
  show (pr.ci &&& ~~~pr.pending).getLsbD j = _
  rw [BitVec.getLsbD_and, BitVec.getLsbD_not]
  by_cases hj : j < 32
  · rw [decide_eq_true hj, Bool.true_and]
  · rw [BitVec.getLsbD_of_ge pr.ci j (Nat.le_of_not_lt hj), Bool.false_and, Bool.false_and]

theorem clr_bit (slot : Slot) (x : BitVec 32) (j : Nat) :
    (WordSet.clr slot.val x).getLsbD j = (x.getLsbD j && decide (j ≠ slot.val)) := WordSet.getLsbD_clr slot.isLt

/-- A command whose bit in `ci` goes is no longer to be issued, -/
theorem fewer_ci (hci : pr'.ci = WordSet.clr slot.val pr.ci)
    (hpending : ∀ j, j ≠ slot.val → pr'.pending.getLsbD j = pr.pending.getLsbD j) : Fewer slot pr pr' := by
  intro j hj
  rw [fresh_bit, hci, clr_bit] at hj
  obtain ⟨hbit, hclear⟩ := Bool.and_eq_true_iff.mp hj
  obtain ⟨hset, hne⟩ := Bool.and_eq_true_iff.mp hbit
  rw [hpending j (of_decide_eq_true hne)] at hclear
  rw [fresh_bit, hset, hclear]
  exact ⟨rfl, of_decide_eq_true hne⟩

/-- nor is one that is in flight. -/
theorem fewer_pending (hci : ∀ j, pr'.ci.getLsbD j = true → pr.ci.getLsbD j = true)
    (hpending : pr'.pending = WordSet.set slot.val pr.pending) : Fewer slot pr pr' := by
  intro j hj
  rw [fresh_bit, hpending, WordSet.getLsbD_set slot.isLt] at hj
  obtain ⟨hset, hclear⟩ := Bool.and_eq_true_iff.mp hj
  rw [Bool.not_eq_true', Bool.or_eq_false_iff] at hclear
  rw [fresh_bit, hci j hset, hclear.1]
  exact ⟨rfl, of_decide_eq_false hclear.2⟩

theorem Fewer.ends (hfewer : Fewer slot pr pr') : Ends slot pr' := by
  refine .inl ?_
  by_contra hset
  exact (hfewer slot.val (Bool.not_eq_false _ ▸ hset)).2 rfl

theorem Submitted.fewer {accepted : Bool} {aior : Ioreq} (hsub : Submitted h p accepted aior s t)
    (hslot : aior.slot = slot) : Fewer slot (s.port p) (t.port p) := by
  obtain ⟨r, rest, x, -, hport⟩ := hsub.port
  subst hslot
  rw [hport]
  cases accepted with
  | true =>
    refine fewer_pending (fun j hj => ?_) rfl
    have hbit : (WordSet.clr aior.slot.val (s.port p).ci).getLsbD j = true := hj
    rw [clr_bit] at hbit
    exact (Bool.and_eq_true_iff.mp hbit).1
  | false => exact fewer_pending (fun _ hj => hj) rfl

/-- A command answered without an error is done with. -/
theorem Answered.fewer (hans : Answered h p slot false s t) : Fewer slot (s.port p) (t.port p) := by
  obtain ⟨x, errCfis, is, -, hport⟩ := hans.port
  rw [hport]
  exact fewer_ci rfl fun _ _ => rfl

theorem settled_fresh (pr : Port) (j : Nat) : pr.settled.fresh.getLsbD j = true → pr.fresh.getLsbD j = true := by
  unfold Port.settled
  split
  · intro hj
    rw [fresh_bit] at hj
    have hzero : (0 : BitVec 32).getLsbD j = true := (Bool.and_eq_true_iff.mp hj).1
    rw [show (0 : BitVec 32).getLsbD j = false from BitVec.getLsbD_zero] at hzero
    cases hzero
  · exact id

theorem Trimmed.fewer (htrim : Trimmed h p slot s t) : Fewer slot (s.port p) (t.port p) := by
  obtain ⟨u, hans, hfin⟩ := htrim.mid
  obtain ⟨x, errCfis, is, -, hport⟩ := hans.port
  have hfewer : Fewer slot (s.port p) { u.port p with pending := WordSet.clr slot.val (u.port p).pending } := by
    rw [hport]
    refine fewer_ci rfl fun k hk => ?_
    show (WordSet.clr slot.val (s.port p).pending).getLsbD k = _
    rw [clr_bit, decide_eq_true hk, Bool.and_true]
  intro j hj
  rw [hfin.port] at hj
  exact hfewer j (settled_fresh _ j hj)

theorem Fewer.trans (h₁ : ∀ j, pr'.fresh.getLsbD j = true → pr.fresh.getLsbD j = true) (h₂ : Fewer slot pr' pr'') :
    Fewer slot pr pr'' := fun j hj => ⟨h₁ j (h₂ j hj).1, (h₂ j hj).2⟩

theorem ReadPrelude.fresh {c : Nat → UInt8} (hpre : ReadPrelude h p slot c s u) (j : Nat)
    (hj : (u.port p).fresh.getLsbD j = true) : (s.port p).fresh.getLsbD j = true := by
  unfold ReadPrelude at hpre
  split at hpre
  · exact (hpre.fewer j hj).1
  · rwa [hpre] at hj

/-- What is left to issue after a command, unless it is refused. -/
theorem Effect.fewer {k : Kind} (heff : Effect h p slot cfis s t k) (hk : k ≠ .answer true) :
    Fewer slot (s.port p) (t.port p) := by
  cases heff with
  | answer hans =>
    rename_i failed
    cases failed with
    | true => exact absurd rfl hk
    | false => exact hans.fewer
  | rw _ hsub => exact hsub.fewer rfl
  | flush hsub => exact hsub.fewer rfl
  | trimmed htrim => exact htrim.fewer
  | trim hsub => exact hsub.fewer rfl
  | read hpre _ hsub => exact Fewer.trans hpre.fresh (hsub.fewer rfl)

theorem not_idle (hidle : pr.idle = false) : pr.fresh ≠ 0 ∧ ¬ pr.blocked := by
  have hnone := of_decide_eq_false hidle
  exact ⟨fun hzero => hnone (.inl hzero), fun hblocked => hnone (.inr hblocked)⟩

theorem idle_of_blocked (hblocked : pr.blocked) : pr.idle = true := decide_eq_true (.inr hblocked)

/-- A slot the code makes something of is done with, or the device has reported an error. -/
theorem SlotDone.progress (hd : SlotDone h p slot s t) (htaken : Taken h (s.port p) s.mem slot) :
    Fewer slot (s.port p) (t.port p) ∨ (t.port p).blocked := by
  obtain ⟨cfis, htable, hfis, hrejected⟩ := htaken
  cases hd with
  | ignored htable' hfis' =>
    rw [htable] at htable'
    obtain rfl := Option.some.inj htable'
    exact absurd hfis hfis'
  | command htable' _ hcmd heff =>
    rw [htable] at htable'
    obtain rfl := Option.some.inj htable'
    have hissued : (s.issued p slot (s.mem (cfis + 2))).port p = { s.port p with
        tfd := (s.port p).tfd ||| ataSBusy
        reports := (s.port p).reports ++ [.issue slot (s.mem (cfis + 2))] } := setPort_same _
    by_cases hk : cmdKind (s.port p) s.mem slot cfis = .answer true
    · have harea := hrejected hcmd hk
      rw [hk] at heff
      cases heff with
      | answer hans =>
        obtain ⟨x, errCfis, is, -, hport⟩ := hans.port
        refine .inr (.inr ?_)
        rw [hport, hissued]
        show ((s.port p).waitforclear || (true && (s.port p).fisArea.isSome)) = true
        rw [harea, Bool.and_true, Bool.or_true]
    · refine .inl (Fewer.trans (fun j hj => ?_) (heff.fewer hk))
      rwa [hissued] at hj
  | control _ _ _ hctl =>
    obtain ⟨x, reset, serr, sact, ssts, sig, -, hport⟩ := hctl.port
    refine .inl ?_
    rw [hport]
    exact fewer_ci rfl fun _ _ => rfl

/-- Any other slot is as it was before, and so is the port. -/
theorem SlotDone.stays (hd : SlotDone h p slot s t) (hidle : (s.port p).idle = false)
    (hdue : (s.port p).fresh.getLsbD slot.val = true) (hnot : ¬ Taken h (s.port p) s.mem slot) : ¬ Ends slot (t.port p) := by
  obtain ⟨-, hgoing⟩ := not_idle hidle
  intro hends
  cases hd with
  | ignored _ _ heq =>
    rw [heq] at hends
    rcases hends with hclear | hblocked
    · rw [hdue] at hclear
      cases hclear
    · exact hgoing hblocked
  | command htable hfis hcmd heff =>
    rename_i cfis
    by_cases hk : cmdKind (s.port p) s.mem slot cfis = .answer true
    · have harea : (s.port p).fisArea.isSome = false := by
        by_contra hsome
        exact hnot ⟨cfis, htable, hfis, fun _ _ => Bool.not_eq_false _ ▸ hsome⟩
      rw [hk] at heff
      cases heff with
      | answer hans =>
        obtain ⟨x, errCfis, is, htfd, hport⟩ := hans.port
        unfold State.issued at hport
        rw [setPort_same] at hport
        rw [hport] at hends
        rcases hends with hclear | hbusy | hwait
        · have hfresh : (s.port p).fresh.getLsbD slot.val = false := hclear
          rw [hdue] at hfresh
          cases hfresh
        · exact hbusy htfd
        · have hold : ((s.port p).waitforclear || (true && (s.port p).fisArea.isSome)) = true := hwait
          rw [harea, Bool.and_false, Bool.or_false] at hold
          exact hgoing (.inr hold)
    · exact hnot ⟨cfis, htable, hfis, fun _ hrejected => absurd hrejected hk⟩
  | control htable hfis hcmd => exact hnot ⟨_, htable, hfis, fun hne => absurd hcmd hne⟩

end Slot

/-! ## One turn -/

/-- The loop is at a slot that is to be handled. -/
def Looked (pr : Port) : Prop := pr.idle = false ∧ pr.due = true

/-- How many more turns there can be. -/
noncomputable def Port.turnsLeft (pr : Port) : Nat :=
  if pr.idle then 1 else WordSet.rank pr.fresh pr.ccs.val + 2

section Turn
variable {h : Host} {p : PortNo} {pr : Port} {s t : State}

theorem withCcs_fisArea (pr : Port) : pr.withCcs.fisArea = pr.fisArea := by
  have hshift : ∀ k : Slot, BitVec.ofNat 32 k.val <<< ahciPCmdCcsShift &&& ahciPCmdFre = 0 := by decide
  have hcmd : pr.withCcs.cmd &&& ahciPCmdFre = pr.cmd &&& ahciPCmdFre := by
    show (pr.cmd &&& ~~~ahciPCmdCcsMask ||| BitVec.ofNat 32 pr.ccs.val <<< ahciPCmdCcsShift) &&& ahciPCmdFre = _
    rw [BitVec.and_or_distrib_right, hshift, BitVec.and_assoc]
    exact BitVec.or_zero
  unfold Port.fisArea
  rw [hcmd]
  rfl

theorem taken_withCcs (pr : Port) (m : Mem) (slot : Slot) : Taken h pr.withCcs m slot ↔ Taken h pr m slot := by
  unfold Taken
  rw [withCcs_fisArea]
  rfl

theorem atSlot_port (s : State) (p : PortNo) : ((s.atSlot p).noted p).port p = (s.port p).withCcs := setPort_same _

/-- A slot that is looked at ends its turn as it should exactly if the code makes something of it. -/
theorem Turned.ends_iff (ht : Turned h p s t) (hlooked : Looked (s.port p)) :
    Ends (s.port p).ccs (t.port p) ↔ Taken h (s.port p) s.mem (s.port p).ccs := by
  obtain ⟨hidle, hdue⟩ := hlooked
  cases ht with
  | ended hended =>
    rw [hidle] at hended
    cases hended
  | passed _ hnot =>
    rw [hdue] at hnot
    cases hnot
  | @looked u _ _ hslot heq =>
    have hends : Ends (s.port p).ccs (t.port p) ↔ Ends (s.port p).ccs (u.port p) := by
      rw [heq, State.advanced, setPort_same]
      rfl
    have hmem : ((s.atSlot p).noted p).mem = s.mem := rfl
    rw [hends, ← taken_withCcs, ← atSlot_port, ← hmem]
    constructor
    · intro hdone
      by_contra hnot
      refine hslot.stays ?_ ?_ hnot hdone
      · rw [atSlot_port]
        exact hidle
      · rw [atSlot_port]
        exact hdue
    · intro htaken
      rcases hslot.progress htaken with hfewer | hblocked
      · exact hfewer.ends
      · exact .inr hblocked

theorem ccs_next (k : Slot) : (k + 1).val = (k.val + 1) % 32 := Fin.val_add k 1

theorem turnsLeft_idle (hidle : pr.idle = true) : pr.turnsLeft = 1 := by
  unfold Port.turnsLeft
  rw [if_pos hidle]

theorem turnsLeft_going (hidle : pr.idle = false) : pr.turnsLeft = WordSet.rank pr.fresh pr.ccs.val + 2 := by
  unfold Port.turnsLeft
  rw [hidle]
  rfl

/-- Each turn but the last brings the loop nearer to its end. -/
theorem Turned.nearer (ht : Turned h p s t) (hidle : (s.port p).idle = false)
    (htaken : Looked (s.port p) → Taken h (s.port p) s.mem (s.port p).ccs) :
    (t.port p).turnsLeft < (s.port p).turnsLeft := by
  rw [turnsLeft_going hidle]
  cases hend : (t.port p).idle with
  | true =>
    rw [turnsLeft_idle hend]
    omega
  | false =>
    rw [turnsLeft_going hend]
    refine Nat.add_lt_add_right ?_ 2
    obtain ⟨hfresh, -⟩ := not_idle hidle
    cases ht with
    | ended hended =>
      rw [hidle] at hended
      cases hended
    | passed _ hdue heq =>
      rw [heq, State.advanced, setPort_same]
      show WordSet.rank (s.port p).fresh ((s.port p).ccs + 1).val < _
      rw [ccs_next]
      exact WordSet.rank_pass hfresh (s.port p).ccs.isLt hdue
    | @looked u _ hdue hslot heq =>
      have hslot' : Fewer (s.port p).ccs (s.port p) (u.port p) ∨ (u.port p).blocked := by
        have hprogress := hslot.progress (by
          rw [atSlot_port, taken_withCcs]
          exact htaken ⟨hidle, hdue⟩)
        rw [atSlot_port] at hprogress
        exact hprogress
      rw [heq, State.advanced, setPort_same] at hend ⊢
      rcases hslot' with hfewer | hblocked
      · exact WordSet.rank_shrink hdue hfewer _
      · exact absurd hblocked (not_idle hend).2

end Turn

/-! ## The loop -/

/-- The turns of one call of `ahci_handle_port`, each with the state before it and the state after it. In between the
surroundings do what they like. -/
inductive Loop (h : Host) (p : PortNo) : State → List (State × State) → State → Prop
  | start (s : State) : Loop h p s [] s
  | between {s t u : State} {op : Op} {ts : List (State × State)} (hat : s.handling = some p) (hop : op ≠ .turn)
    (hstep : next h s op = some t) (hrest : Loop h p t ts u) : Loop h p s ts u
  | turn {s t u : State} {ts : List (State × State)} (hat : s.handling = some p) (hstep : next h s .turn = some t)
    (hrest : Loop h p t ts u) : Loop h p s ((s, t) :: ts) u

/-- Every slot that was looked at is done with or ends the loop, and there are not more turns than slots times slots and
one for each and the last. -/
def Terminates (p : PortNo) (ts : List (State × State)) : Prop :=
  (∀ x ∈ ts, Looked (x.1.port p) → Ends (x.1.port p).ccs (x.2.port p)) ∧ ts.length ≤ 32 * 33 + 1

/-- The code makes something of every slot that was looked at. -/
def Understood (h : Host) (p : PortNo) (ts : List (State × State)) : Prop :=
  ∀ x ∈ ts, Looked (x.1.port p) → Taken h (x.1.port p) x.1.mem (x.1.port p).ccs

section Loop
variable {h : Host} {p : PortNo} {s t u : State} {ts : List (State × State)}

theorem next_turn (hat : s.handling = some p) (hstep : next h s .turn = some t) : Turned h p s t := by
  cases next_cases hstep with
  | turn hat' hturned =>
    rw [hat] at hat'
    obtain rfl := Option.some.inj hat'
    exact hturned

/-- Who does not need the lock leaves the ports alone. -/
theorem next_between {op : Op} (hat : s.handling = some p) (hop : op ≠ .turn) (hstep : next h s op = some t) :
    t.port p = s.port p := by
  have hbusy : s.handling ≠ none := by
    rw [hat]
    exact nofun
  cases next_cases hstep with
  | surroundings heq =>
    rw [heq]
  | hostWrite hfree => exact absurd hfree hbusy
  | portWrite hfree => exact absurd hfree hbusy
  | noWrite _ heq =>
    rw [heq]
    rfl
  | read heq => rw [heq]
  | turn => exact absurd rfl hop
  | callback hfree => exact absurd hfree hbusy
  | release _ heq => rw [heq]

/-- Nothing more is turned once the loop has ended. -/
theorem Loop.over (hrun : Loop h p s ts u) (hfree : s.handling = none) : ts = [] := by
  cases hrun with
  | start => rfl
  | between hat =>
    rw [hfree] at hat
    cases hat
  | turn hat =>
    rw [hfree] at hat
    cases hat

theorem turnsLeft_le (pr : Port) : pr.turnsLeft ≤ 32 * 33 + 1 := by
  have hrank := WordSet.rank_lt (by decide) pr.fresh pr.ccs.val
  unfold Port.turnsLeft
  split
  · omega
  · omega

theorem Loop.length_le (hrun : Loop h p s ts u) (hund : Understood h p ts) : ts.length ≤ (s.port p).turnsLeft := by
  induction hrun with
  | start => exact Nat.zero_le _
  | between hat hop hstep _ ih =>
    rw [← next_between hat hop hstep]
    exact ih hund
  | @turn s t u ts hat hstep hrest ih =>
    have hle := ih fun x hx => hund x (List.mem_cons_of_mem _ hx)
    have hturned := next_turn hat hstep
    rw [List.length_cons]
    cases hidle : (s.port p).idle with
    | true =>
      have hfree : t.handling = none := by
        cases hturned with
        | ended _ heq => rw [heq]
        | passed hgoing =>
          rw [hidle] at hgoing
          cases hgoing
        | looked hgoing =>
          rw [hidle] at hgoing
          cases hgoing
      rw [hrest.over hfree, turnsLeft_idle hidle]
      rfl
    | false =>
      have hnearer := hturned.nearer hidle (hund (s, t) List.mem_cons_self)
      omega

/-- The turns of a loop are turns. -/
theorem Loop.turned (hrun : Loop h p s ts u) : ∀ x ∈ ts, Turned h p x.1 x.2 := by
  induction hrun with
  | start => exact nofun
  | between _ _ _ _ ih => exact ih
  | turn hat hstep _ ih =>
    intro x hx
    rcases List.mem_cons.mp hx with rfl | hx
    · exact next_turn hat hstep
    · exact ih x hx

/-- The loop comes to its end, slot by slot, exactly if the code makes something of every slot it looks at. -/
theorem issue_terminates_iff (h : Host) (p : PortNo) {s u : State} {ts : List (State × State)} (hrun : Loop h p s ts u) :
    Terminates p ts ↔ Understood h p ts := by
  constructor
  · intro hends x hx hlooked
    exact ((hrun.turned x hx).ends_iff hlooked).mp (hends.1 x hx hlooked)
  · intro hund
    refine ⟨fun x hx hlooked => ?_, Nat.le_trans (hrun.length_le hund) (turnsLeft_le _)⟩
    exact ((hrun.turned x hx).ends_iff hlooked).mpr (hund x hx hlooked)

end Loop

/-- Port 0 is started and a command issued. -/
def issueRun : List Op := [.write 0x118 4 0x1, .turn, .write 0x138 4 0x1]

/-- A flush is handed over in the first of two turns. -/
theorem issue_terminates_flush : ∃ s ts u, Loop flatHost 0 s ts u ∧ ts.length = 2 ∧ Terminates 0 ts := by
  have hrun : (System.exec (next flatHost) (startState flatHost false flushMem) issueRun).map (fun s =>
      decide (s.handling = some 0 ∧ tableOf flatHost (s.port 0) s.mem (s.port 0).ccs = some 0 ∧ s.mem 0 = 0x27 ∧
        cmdKind (s.port 0) s.mem (s.port 0).ccs 0 = .flush ∧ (next flatHost s .turn).map (fun t =>
          decide (t.handling = some 0 ∧ (t.port 0).idle = true ∧ (next flatHost t .turn).isSome = true)) = some true)) =
      some true := by decide +kernel
  obtain ⟨s, -, hall⟩ := Option.map_eq_some_iff.mp hrun
  obtain ⟨hheld, htable, hfis, hkind, hturn⟩ := of_decide_eq_true hall
  obtain ⟨t, hst, hthen⟩ := Option.map_eq_some_iff.mp hturn
  obtain ⟨hheld', hidle, hlast⟩ := of_decide_eq_true hthen
  obtain ⟨u, htu⟩ := Option.isSome_iff_exists.mp hlast
  have hloop : Loop flatHost 0 s [(s, t), (t, u)] u := .turn hheld hst (.turn hheld' htu (.start u))
  refine ⟨s, _, u, hloop, rfl, (issue_terminates_iff flatHost 0 hloop).mpr fun x hx hlooked => ?_⟩
  rcases List.mem_cons.mp hx with rfl | hx
  · refine ⟨0, htable, hfis, fun _ hrejected => ?_⟩
    rw [hkind] at hrejected
    cases hrejected
  · obtain rfl := List.mem_singleton.mp hx
    exact absurd hidle (by rw [hlooked.1]; exact nofun)

/-! ## A loop without an end -/

/-- There are commands to issue, and no table of theirs holds a FIS of the host's. -/
structure Stuck (h : Host) (p : PortNo) (s : State) : Prop where
  held : s.handling = some p
  going : (s.port p).idle = false
  list : (s.port p).cmdLst.isSome = true
  foreign : ∀ slot : Slot, (s.port p).fresh.getLsbD slot.val = true →
    ∃ cfis, tableOf h (s.port p) s.mem slot = some cfis ∧ s.mem cfis ≠ FisType.regh2d.value

section Stuck
variable {h : Host} {p : PortNo} {s t : State}

theorem Stuck.advanced (hs : Stuck h p s) : Stuck h p (s.advanced p) := by
  have hport : (s.advanced p).port p = { s.port p with ccs := (s.port p).ccs + 1 } := setPort_same _
  refine ⟨hs.held, ?_, ?_, ?_⟩
  · rw [hport]
    exact hs.going
  · rw [hport]
    exact hs.list
  · rw [hport]
    exact hs.foreign

theorem Stuck.atSlot (hs : Stuck h p s) : Stuck h p ((s.atSlot p).noted p) := by
  refine ⟨hs.held, ?_, ?_, ?_⟩
  · rw [atSlot_port]
    exact hs.going
  · rw [atSlot_port]
    exact hs.list
  · rw [atSlot_port]
    exact hs.foreign

theorem Stuck.turn (hs : Stuck h p s) : ∃ t, next h s .turn = some t ∧ Stuck h p t := by
  have hadm : admissible s .turn = true := by
    unfold admissible
    rw [hs.held]
    rfl
  obtain ⟨a, hlist⟩ := Option.isSome_iff_exists.mp hs.list
  have hturn : ∃ t, handlePortTurn h p s = .ok () t ∧ Stuck h p t := by
    rw [handlePortTurn_eq, hs.going]
    cases hdue : (s.port p).due with
    | false => exact ⟨_, rfl, hs.advanced⟩
    | true =>
      obtain ⟨cfis, htable, hfis⟩ := hs.foreign (s.port p).ccs hdue
      have hslot : ahciHandleSlot h p (s.port p).ccs (s.atSlot p) = .ok () ((s.atSlot p).noted p) := by
        have hlst : ((s.atSlot p).port p).cmdLst = some a := by
          rw [show (s.atSlot p).port p = (s.port p).withCcs from setPort_same _]
          exact hlist
        have htab : tableOf h ((s.atSlot p).port p) (s.atSlot p).mem (s.port p).ccs = some cfis := by
          rw [show (s.atSlot p).port p = (s.port p).withCcs from setPort_same _]
          exact htable
        rw [handleSlot_eq, hlst, htab]
        show handleTable h p (s.port p).ccs s.mem _ (some cfis) _ = _
        rw [handleTable, if_pos hfis]
        rfl
      exact ⟨_, bind_of_ok hslot, hs.atSlot.advanced⟩
  obtain ⟨t, hok, ht⟩ := hturn
  refine ⟨t, ?_, ht⟩
  unfold next
  rw [if_pos hadm, perform_turn hs.held, hok]

/-- It is turned as often as one likes. -/
theorem Stuck.forever (n : Nat) : ∀ {s}, Stuck h p s → ∃ ts u, Loop h p s ts u ∧ ts.length = n := by
  induction n with
  | zero => exact fun {s} _ => ⟨[], s, .start s, rfl⟩
  | succ n ih =>
    intro s hs
    obtain ⟨t, hstep, ht⟩ := hs.turn
    obtain ⟨ts, u, hrest, hlen⟩ := ih ht
    exact ⟨(s, t) :: ts, u, .turn hs.held hstep hrest, by rw [List.length_cons, hlen]⟩

end Stuck

/-- All of memory is zero, and nothing in the table of slot 0 is a FIS. -/
theorem foreign_stuck : ∃ s, (system flatHost).Reachable s ∧ Stuck flatHost 0 s := by
  have hrun : (System.exec (next flatHost) (startState flatHost false fun _ => 0) issueRun).map
      (fun s => decide (s.handling = some 0 ∧ (s.port 0).idle = false ∧ (s.port 0).cmdLst.isSome = true ∧
        (s.port 0).fresh = 1 ∧ tableOf flatHost (s.port 0) s.mem 0 = some 0 ∧ s.mem 0 = 0)) = some true := by decide +kernel
  obtain ⟨s, hs, hall⟩ := Option.map_eq_some_iff.mp hrun
  obtain ⟨hheld, hgoing, hlist, hfresh, htable, hzero⟩ := of_decide_eq_true hall
  have hr : (system flatHost).Reachable s :=
    System.exec_reachable (.init (startState_init flatHost false fun _ => 0)) hs
  refine ⟨s, hr, hheld, hgoing, hlist, fun slot hslot => ?_⟩
  have hfirst : ∀ slot : Slot, (1 : BitVec 32).getLsbD slot.val = true → slot = 0 := by decide
  rw [hfresh] at hslot
  rw [hfirst slot hslot]
  refine ⟨0, htable, ?_⟩
  rw [hzero]
  decide

theorem issue_never_ends : ¬ ∀ (h : Host) (p : PortNo) (s : State), (system h).Reachable s →
    ∃ n, ∀ ts u, Loop h p s ts u → ts.length ≤ n := by
  intro hclaim
  obtain ⟨s, hr, hstuck⟩ := foreign_stuck
  obtain ⟨n, hbound⟩ := hclaim flatHost 0 s hr
  obtain ⟨ts, u, hrun, hlen⟩ := hstuck.forever (n + 1)
  have hle := hbound ts u hrun
  omega

end Xhyve.Emul.Ahci
