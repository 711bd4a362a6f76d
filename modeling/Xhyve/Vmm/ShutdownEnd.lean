import Xhyve.Vmm.ShutdownPlaces

/-!
# How the machine comes to its end

Every vCPU has a way to go, and as long as the program has not ended one of them can go on: a vCPU whose bit is not
set yet, then one that is still in `cpumask`, then whoever has the lock, and at last the boot processor.
-/

namespace Xhyve.Vmm.Shutdown

open Xhyve.Lib
open Xhyve.Vmm.Halt (SuspendHow)

/-- How far a vCPU that adds no others has still to go, where `active` is what a comparison should read. -/
def rank (active : Finset Vcpu) : Pc → Nat
  | .unborn => 0
  | .activated => 21
  | .masked | .adding _ => 20
  | .user => 19
  | .enter => 18
  | .guest => 17
  | .exited => 16
  | .kernel => 15
  | .run => 14
  | .suspended _ => 13
  | .sawActive _ read | .sawSuspended _ read => if read = active then 7 else 12
  | .pause _ => 9
  | .barrier _ => 8
  | .delete _ => 6
  | .waiting _ => 5
  | .lock _ => 4
  | .look _ | .signal _ => 3
  | .unlock _ => 2
  | .gone => 1

/-- The way of all vCPUs, and the last step. -/
def distance (s : State) : Nat := ∑ i, rank s.active (s.pc i) + if s.ended = none then 1 else 0

/-- The state in which the program ends. -/
def last (s : State) : State := { s with resetcpu := none, ended := s.suspend.map .suspended }

/-- A step on the way. -/
structure Closer (s t : State) : Prop where
  suspend : t.suspend = s.suspend
  ended : t.ended = s.ended
  active : t.active = s.active
  mover : ∃ i, rank s.active (t.pc i) < rank s.active (s.pc i) ∧
    ∀ j, j ≠ i → rank s.active (t.pc j) ≤ rank s.active (s.pc j)

section Progress
variable {s t : State} {i : Vcpu} {how : SuspendHow} {p q : Pc}

theorem Closer.distance (h : Closer s t) : distance t < distance s := by
  obtain ⟨i, hcloser, hothers⟩ := h.mover
  have hsum := sum_rank_lt i hcloser hothers
  rw [Shutdown.distance, Shutdown.distance, h.active, h.ended]
  exact Nat.add_lt_add_right hsum _

theorem Closer.moved (hp : s.pc i = p) (hpc : t.pc = Function.update s.pc i q) (hsuspend : t.suspend = s.suspend)
    (hended : t.ended = s.ended) (hactive : t.active = s.active) (hrank : rank s.active q < rank s.active p) :
    Closer s t := by
  refine ⟨hsuspend, hended, hactive, i, ?_, fun j hj => ?_⟩
  · rwa [hpc, Function.update_self, hp]
  · rw [hpc, Function.update_of_ne hj]

theorem go_adding (h : Inv s) {n : Vcpu} (hp : s.pc i = .adding n) : ∃ t, go s i = some t ∧ Closer s t := by
  obtain ⟨rfl, hn, hactivated | hmasked⟩ := h.adding hp
  · refine ⟨{ goto s n .masked with cpumask := insert n s.cpumask }, ?_,
      .moved hactivated rfl rfl rfl rfl (by decide : (20 : Nat) < 21)⟩
    simp only [go, hp, hactivated]
  · refine ⟨goto (goto s n .user) bsp .user, ?_, rfl, rfl, rfl, bsp, ?_, fun j hj => ?_⟩
    · simp only [go, hp, hmasked]
    · rw [goto_same, hp]
      exact (by decide : (19 : Nat) < 20)
    · rw [goto_other _ _ hj]
      by_cases hjn : j = n
      · rw [hjn, goto_same, hmasked]
        exact (by decide : (19 : Nat) ≤ 20)
      · rw [goto_other _ _ hjn]

/-- An active vCPU whose bit is not set yet, or the boot processor for it, can go on. -/
theorem go_early (h : Inv s) (hsuspend : s.suspend = some how) (hactive : (s.pc i).active = true)
    (hlate : (s.pc i).late = false) : ∃ j t, go s j = some t ∧ Closer s t := by
  have hbsp : (s.pc i).starting = true → ∃ j t, go s j = some t ∧ Closer s t := by
    intro hstart
    have hnew := (h.starting i).mp hstart
    cases hb : s.pc bsp with
    | adding n => exact ⟨bsp, go_adding h hb⟩
    | _ =>
      rw [hb] at hnew
      cases hnew
  cases hp : s.pc i with
  | unborn => rw [hp] at hactive; cases hactive
  | activated | masked => exact hbsp (by rw [hp]; rfl)
  | adding n => exact ⟨i, go_adding h hp⟩
  | user =>
    refine ⟨i, goto s i .run, ?_, .moved hp rfl rfl rfl rfl (by decide : (14 : Nat) < 19)⟩
    simp only [go, hp, if_pos (h.user_runs hp)]
  | run =>
    refine ⟨i, goto s i (.suspended how), ?_, .moved hp rfl rfl rfl rfl (by decide : (13 : Nat) < 14)⟩
    simp only [go, hp, hsuspend]
  | enter =>
    by_cases hkick : s.kicked i = true
    · refine ⟨i, { goto s i .exited with kicked := Function.update s.kicked i false }, ?_,
        .moved hp rfl rfl rfl rfl (by decide : (16 : Nat) < 18)⟩
      simp only [go, hp, if_pos hkick]
    · refine ⟨i, goto s i .guest, ?_, .moved hp rfl rfl rfl rfl (by decide : (17 : Nat) < 18)⟩
      simp only [go, hp, if_neg hkick]
  | guest =>
    refine ⟨i, { goto s i .exited with kicked := Function.update s.kicked i false }, ?_,
      .moved hp rfl rfl rfl rfl (by decide : (16 : Nat) < 17)⟩
    simp only [go, hp]
  | exited =>
    refine ⟨i, goto s i .kernel, ?_, .moved hp rfl rfl rfl rfl (by decide : (15 : Nat) < 16)⟩
    simp only [go, hp]
  | kernel =>
    refine ⟨i, goto s i .run, ?_, .moved hp rfl rfl rfl rfl (by decide : (14 : Nat) < 15)⟩
    simp only [go, hp]
  | suspended how =>
    refine ⟨i, { goto s i (.barrier how) with suspended := insert i s.suspended }, ?_,
      .moved hp rfl rfl rfl rfl (by decide : (8 : Nat) < 13)⟩
    simp only [go, hp]
  | _ => rw [hp] at hlate; cases hlate

theorem closer_afterCmp {equal : Bool} {read : Finset Vcpu} (hp : rank s.active (s.pc i) = if read = s.active then 7 else 12)
    (hequal : equal = decide (read = s.active)) : Closer s (goto s i (afterCmp how equal)) := by
  refine .moved rfl rfl rfl rfl rfl ?_
  rw [hp, hequal]
  by_cases hread : read = s.active
  · rw [if_pos hread, decide_eq_true hread]
    exact (by decide : (6 : Nat) < 7)
  · rw [if_neg hread, decide_eq_false hread]
    exact (by decide : (9 : Nat) < 12)

/-- With all bits set, whoever is in `cpumask` can go on. -/
theorem go_inMask (hall : s.suspended = s.active) (hmask : (s.pc i).inMask = true) (hlate : (s.pc i).late = true)
    (hin : i ∈ s.cpumask) : ∃ t, go s i = some t ∧ Closer s t := by
  cases hp : s.pc i with
  | barrier how =>
    refine ⟨goto s i (.sawActive how s.active), ?_, .moved hp rfl rfl rfl rfl ?_⟩
    · simp only [go, hp]
    · exact (if_pos rfl).trans_lt (by decide : (7 : Nat) < 8)
  | sawActive how read =>
    refine ⟨goto s i (afterCmp how (s.suspended = read)), ?_, closer_afterCmp (by rw [hp]; rfl) ?_⟩
    · simp only [go, hp]
    · rw [hall]
      exact decide_eq_decide.mpr eq_comm
  | sawSuspended how read =>
    refine ⟨goto s i (afterCmp how (read = s.active)), ?_, closer_afterCmp (by rw [hp]; rfl) rfl⟩
    simp only [go, hp]
  | pause how =>
    refine ⟨goto s i (.barrier how), ?_, .moved hp rfl rfl rfl rfl (by decide : (8 : Nat) < 9)⟩
    simp only [go, hp]
  | delete how =>
    refine ⟨{ goto s i (.lock how) with cpumask := s.cpumask.erase i }, ?_,
      .moved hp rfl rfl rfl rfl (by decide : (4 : Nat) < 6)⟩
    simp only [go, hp, if_pos hin]
  | unborn | activated | lock | signal | look | waiting | unlock | gone => rw [hp] at hmask; cases hmask
  | _ => rw [hp] at hlate; cases hlate

/-- Whoever has the lock gives it back, the boot processor by ending the program. -/
theorem go_holds (h : Inv s) (hempty : s.cpumask = ∅) (hholds : (s.pc i).holds = true) :
    ∃ t, go s i = some t ∧ (Closer s t ∨ t = last s) := by
  have hat := h.place i
  cases hp : s.pc i with
  | signal how =>
    rw [hp] at hat
    by_cases hwait : ∃ how', s.pc bsp = .waiting how'
    · obtain ⟨how', hwait⟩ := hwait
      refine ⟨goto (goto s bsp (.lock how')) i (.unlock how), ?_, Or.inl ⟨rfl, rfl, rfl, i, ?_, fun j hj => ?_⟩⟩
      · simp only [go, hp, hwait]
      · rw [goto_same, hp]
        exact (by decide : (2 : Nat) < 3)
      · rw [goto_other _ _ hj]
        by_cases hjb : j = bsp
        · rw [hjb, goto_same, hwait]
          exact (by decide : (4 : Nat) ≤ 5)
        · rw [goto_other _ _ hjb]
    · refine ⟨goto s i (.unlock how), ?_, Or.inl (.moved hp rfl rfl rfl rfl (by decide : (2 : Nat) < 3))⟩
      simp only [go, hp]
      split
      · rename_i how' hw
        exact absurd ⟨how', hw⟩ hwait
      · rfl
  | look how =>
    refine ⟨goto s i (.unlock how), ?_, Or.inl (.moved hp rfl rfl rfl rfl (by decide : (2 : Nat) < 3))⟩
    simp only [go, hp, if_pos hempty]
  | unlock how =>
    rw [hp] at hat
    by_cases hi : i = bsp
    · refine ⟨last s, ?_, Or.inr rfl⟩
      simp only [go, hp, if_pos hi, last, hat.1, Option.map_some]
    · refine ⟨{ goto s i .gone with resetcpu := none }, ?_,
        Or.inl (.moved hp rfl rfl rfl rfl (by decide : (1 : Nat) < 2))⟩
      simp only [go, hp, if_neg hi]
  | _ => rw [hp] at hholds; cases hholds

theorem go_lock (hfree : s.resetcpu = none) (hp : s.pc i = .lock how) : ∃ t, go s i = some t ∧ Closer s t := by
  refine ⟨{ goto s i (if i = bsp then .look how else .signal how) with resetcpu := some i }, ?_,
    .moved hp rfl rfl rfl rfl ?_⟩
  · simp only [go, hp, if_pos hfree]
  · split
    all_goals exact (by decide : (3 : Nat) < 4)

/-- With `cpumask` empty, the boot processor can go on, or whoever it waits for. -/
theorem go_last (h : Inv s) (hempty : s.cpumask = ∅) :
    ∃ i t, go s i = some t ∧ (Closer s t ∨ t = last s) := by
  have hnot : ∀ i, (s.pc i).inMask ≠ true := by
    intro i hi
    have hin := (h.cpumask i).mpr hi
    rw [hempty] at hin
    exact absurd hin (Finset.notMem_empty i)
  cases hown : s.resetcpu with
  | some i => exact ⟨i, go_holds h hempty ((h.resetcpu i).mp hown)⟩
  | none =>
    have hfree : ∀ i, (s.pc i).holds ≠ true := by
      intro i hi
      rw [← h.resetcpu i, hown] at hi
      cases hi
    have hlock : ∀ {i how}, s.pc i = .lock how →
        ∃ i t, go s i = some t ∧ (Closer s t ∨ t = last s) := by
      intro i how hp
      obtain ⟨t, hgo, hcloser⟩ := go_lock hown hp
      exact ⟨i, t, hgo, Or.inl hcloser⟩
    have hat := h.place bsp
    have hmask := hnot bsp
    have hholds := hfree bsp
    cases hb : s.pc bsp with
    | lock how => exact hlock hb
    | waiting how =>
      obtain ⟨j, -, hj⟩ := h.signalled how hb
      have hmask := hnot j
      have hholds := hfree j
      cases hp : s.pc j with
      | lock how => exact hlock hp
      | signal => rw [hp] at hholds; exact absurd rfl hholds
      | unborn | activated | look | waiting | unlock | gone => rw [hp] at hj; cases hj
      | _ => rw [hp] at hmask; exact absurd rfl hmask
    | unborn | activated | gone => rw [hb] at hat; exact absurd rfl hat
    | signal | look | unlock => rw [hb] at hholds; exact absurd rfl hholds
    | _ => rw [hb] at hmask; exact absurd rfl hmask

theorem late_active {p : Pc} (h : p.late = true) : p.active = true := by
  cases p with
  | unborn => cases h
  | _ => rfl

/-- As long as the machine is suspended and the program has not ended, somebody can go on towards the end. -/
theorem go_on (h : Inv s) (hsuspend : s.suspend = some how) :
    ∃ i t, go s i = some t ∧ (Closer s t ∨ t = last s) := by
  by_cases hall : s.active ⊆ s.suspended
  · have heq : s.suspended = s.active := by
      refine Finset.Subset.antisymm (fun i hi => ?_) hall
      exact (h.active i).mpr (late_active ((h.suspended i).mp hi))
    rcases Finset.eq_empty_or_nonempty s.cpumask with hempty | ⟨i, hin⟩
    · exact go_last h hempty
    · have hmask : (s.pc i).inMask = true := (h.cpumask i).mp hin
      have hactive : (s.pc i).active = true := by
        cases hp : s.pc i with
        | unborn => rw [hp] at hmask; cases hmask
        | _ => rfl
      have hlate : (s.pc i).late = true := (h.suspended i).mp (hall ((h.active i).mpr hactive))
      obtain ⟨t, hgo, hcloser⟩ := go_inMask heq hmask hlate hin
      exact ⟨i, t, hgo, Or.inl hcloser⟩
  · obtain ⟨i, hactive, hnot⟩ := Finset.not_subset.mp hall
    have hlate : (s.pc i).late = false := by
      rw [Bool.eq_false_iff]
      exact fun hlate => hnot ((h.suspended i).mpr hlate)
    obtain ⟨j, t, hgo, hcloser⟩ := go_early h hsuspend ((h.active i).mp hactive) hlate
    exact ⟨j, t, hgo, Or.inl hcloser⟩

end Progress

theorem distance_last {s : State} {how : SuspendHow} (hlive : s.ended = none) (hsuspend : s.suspend = some how) :
    (last s).ended = some (.suspended how) ∧ distance (last s) < distance s := by
  have hended : (last s).ended = some (.suspended how) := by
    rw [last, hsuspend]
    rfl
  have hpc : (last s).pc = s.pc := rfl
  have hactive : (last s).active = s.active := rfl
  refine ⟨hended, ?_⟩
  simp only [distance, hpc, hactive, hended, hlive, reduceCtorEq, if_true, if_false, Nat.lt_add_one, Nat.add_zero]

theorem go_on_next {s : State} {how : SuspendHow} (hv : Valid s) (hlive : s.ended = none)
    (hsuspend : s.suspend = some how) :
    ∃ i t, next s (.go i) = some t ∧ Valid t ∧ t.suspend = some how ∧
      (t.ended = none ∨ t.ended = some (.suspended how)) ∧ distance t < distance s := by
  obtain ⟨i, t, hgo, hend⟩ := go_on (hv.inv hlive) hsuspend
  have hnext : next s (.go i) = some t := by
    simp only [next, hlive, Option.isSome_none, Bool.false_eq_true, if_false]
    exact hgo
  refine ⟨i, t, hnext, next_valid hv hnext, ?_⟩
  rcases hend with hcloser | rfl
  · exact ⟨hcloser.suspend.trans hsuspend, Or.inl (hcloser.ended.trans hlive), hcloser.distance⟩
  · obtain ⟨hended, hcloser⟩ := distance_last hlive hsuspend
    exact ⟨hsuspend, Or.inr hended, hcloser⟩

/-- However far the threads are, they can bring the program to its end, and nobody has to add a vCPU or to ask again. -/
theorem ends {s : State} {how : SuspendHow} (hv : Valid s) (hlive : s.ended = none) (hsuspend : s.suspend = some how) :
    ∃ as, (∀ a ∈ as, ∃ i, a = .go i) ∧ ∃ t, System.exec next s as = some t ∧ t.ended = some (.suspended how) := by
  have hprog : ∀ s : State, (Valid s ∧ s.suspend = some how ∧ (s.ended = none ∨ s.ended = some (.suspended how))) →
      ¬ s.ended = some (.suspended how) → ∃ a, (∃ i, a = Act.go i) ∧ ∃ t, next s a = some t ∧
        (Valid t ∧ t.suspend = some how ∧ (t.ended = none ∨ t.ended = some (.suspended how))) ∧
        distance t < distance s := by
    intro s hs hgoal
    obtain ⟨hv, hsuspend, hended⟩ := hs
    obtain ⟨i, t, hnext, hv', hsuspend', hended', hcloser⟩ := go_on_next hv (hended.resolve_right hgoal) hsuspend
    exact ⟨.go i, ⟨i, rfl⟩, t, hnext, ⟨hv', hsuspend', hended'⟩, hcloser⟩
  obtain ⟨as, has, t, hexec, -, hgoal⟩ :=
    System.exists_exec_of_progress _ _ _ distance hprog ⟨hv, hsuspend, Or.inl hlive⟩
  exact ⟨as, has, t, hexec, hgoal⟩

theorem go_suspend {s t : State} {i : Vcpu} (hs : go s i = some t) : t.suspend = s.suspend := by
  unfold go at hs
  split at hs
  all_goals repeat' split at hs
  all_goals first
    | cases hs; done
    | obtain rfl := Option.some.inj hs
      rfl

theorem goOther_suspend {s t : State} {i : Vcpu} (hs : goOther s i = some t) : t.suspend = s.suspend := by
  unfold goOther at hs
  split at hs
  all_goals repeat' split at hs
  all_goals first
    | cases hs; done
    | obtain rfl := Option.some.inj hs
      rfl

/-- Nobody changes the reason once it is set. -/
theorem next_suspend {s t : State} {a : Act} {how : SuspendHow} (hs : next s a = some t) (hsuspend : s.suspend = some how) :
    t.suspend = some how := by
  unfold next at hs
  split at hs
  · cases hs
  · cases a with
    | suspend how' =>
      obtain rfl := Option.some.inj hs
      rw [vmSuspend, hsuspend]
      exact hsuspend
    | notify =>
      cases hnotify : s.notify with
      | none => simp only [vmSuspendNotify, hnotify, reduceCtorEq] at hs
      | some n =>
        simp only [vmSuspendNotify, hnotify] at hs
        split at hs
        · rename_i hn
          obtain rfl := Option.some.inj hs
          obtain ⟨kicked, hframe⟩ := notify_frame (s := s) (i := ⟨n, hn⟩) rfl
          rw [hframe]
          exact hsuspend
        · obtain rfl := Option.some.inj hs
          exact hsuspend
    | go i => exact (go_suspend hs).trans hsuspend
    | other i => exact (goOther_suspend hs).trans hsuspend
    | add i n =>
      dsimp only at hs
      split at hs
      · obtain rfl := Option.some.inj hs
        unfold vcpuAdd
        split
        all_goals exact hsuspend
      · cases hs

/-- The reason in the `vm_exit` of a vCPU. -/
def Pc.reason : Pc → Option SuspendHow
  | .suspended how | .barrier how | .sawActive how _ | .sawSuspended how _ | .pause how | .delete how | .lock how
  | .signal how | .look how | .waiting how | .unlock how => some how
  | _ => none

structure Orderly (s : State) : Prop where
  /-- All vCPUs are told the same reason. -/
  told : s.ended = none → ∀ i how, (s.pc i).reason = some how → s.suspend = some how
  /-- Once its bit is set a vCPU does not run any more. -/
  quiet : s.ended = none → ∀ i ∈ s.suspended, (s.pc i).running = false
  /-- `vm_suspend` has all vCPUs in the guest interrupted. -/
  kicked : s.ended = none → s.suspend ≠ none → s.notify = none → ∀ i, s.pc i = .guest → s.kicked i = true
  /-- Unless an assertion fails, the program ends with the first reason, with no other vCPU's thread in `vm_run`. -/
  ended : ∀ e, s.ended = some e → e ≠ .assertion →
    ∃ how, e = .suspended how ∧ s.suspend = some how ∧ ∀ i, i ≠ bsp → (s.pc i).stopped = true
  /-- The first reason stays, -/
  first : ∀ as t how, s.suspend = some how → System.exec next s as = some t → t.suspend = some how
  /-- and the program can end from wherever it is. -/
  ends : ∀ how, s.ended = none → s.suspend = some how →
    ∃ as, (∀ a ∈ as, ∃ i, a = .go i) ∧ ∃ t, System.exec next s as = some t ∧ t.ended = some (.suspended how)

theorem place_reason {s : State} {i : Vcpu} {p : Pc} (h : At s i p) {how : SuspendHow} (hr : p.reason = some how) :
    s.suspend = some how := by
  cases p with
  | suspended how' | barrier how' | pause how' =>
    obtain rfl := Option.some.inj hr
    exact h
  | sawActive how' _ | sawSuspended how' _ | delete how' | lock how' | signal how' | look how' | waiting how' | unlock how' =>
    obtain rfl := Option.some.inj hr
    exact h.1
  | _ => cases hr

theorem late_not_running {p : Pc} (h : p.late = true) : p.running = false := by
  cases p with
  | run | enter | guest | exited => cases h
  | _ => rfl

theorem shutdown_orderly {s : State} (h : system.Reachable s) : Orderly s := by
  have hv := reachable_valid h
  refine ⟨fun hlive i how => place_reason ((hv.inv hlive).place i), fun hlive i hi => ?_, fun hlive hsus hdone i hp => ?_,
    fun e he hne => ?_, fun as => ?_, fun how hlive hsus => ends hv hlive hsus⟩
  · exact late_not_running (((hv.inv hlive).suspended i).mp hi)
  · have hkick : Kicked s i := (hv.inv hlive).place_at hp
    rcases hkick hsus with hkicked | ⟨n, hn, -⟩
    · exact hkicked
    · rw [hdone] at hn
      cases hn
  · obtain ⟨how, heq, hsus⟩ := (hv.final e he).how hne
    exact ⟨how, heq, hsus, (hv.final e he).stopped hne⟩
  · induction as generalizing s with
    | nil =>
      intro t how hsus hexec
      obtain rfl := Option.some.inj hexec
      exact hsus
    | cons a as ih =>
      intro t how hsus hexec
      obtain ⟨u, hu, hrest⟩ := Option.bind_eq_some_iff.mp hexec
      exact ih (h.step hu) (reachable_valid (h.step hu)) t how (next_suspend hu hsus) hrest

def secondVcpu : Vcpu := ⟨1, by decide⟩

/-- Two vCPUs, and a reset that the second one finds in the guest: the boot processor waits for it. -/
theorem shutdown_orderly_reset : ∃ s, system.Reachable s ∧ s.suspend = some .reset ∧ s.pc bsp = .waiting .reset ∧
    s.pc secondVcpu = .pause .reset ∧ Orderly s := by
  have hrun : (System.exec next State.initial
      ([.add bsp secondVcpu, .go bsp, .go bsp, .go secondVcpu, .go secondVcpu, .go secondVcpu, .suspend .reset, .notify,
        .notify] ++ List.replicate 7 (.go secondVcpu) ++ List.replicate 8 (.go bsp))).map
      (fun s => (s.suspend, s.pc bsp, s.pc secondVcpu)) = some (some .reset, .waiting .reset, .pause .reset) := by
    decide +kernel
  obtain ⟨s, hs, hobs⟩ := Option.map_eq_some_iff.mp hrun
  have hr : system.Reachable s := System.exec_reachable (.init rfl) hs
  simp only [Prod.mk.injEq] at hobs
  exact ⟨s, hr, hobs.1, hobs.2.1, hobs.2.2, shutdown_orderly hr⟩

end Xhyve.Vmm.Shutdown
