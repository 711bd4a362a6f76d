import Xhyve.Lib.Places
import Xhyve.Vmm.Shutdown

/-!
# Where the vCPUs are while the machine ends

The sets and the lock follow from the places of the vCPUs. Behind its comparison the boot processor knows that
all active vCPUs have come to theirs, and since nobody else adds vCPUs this stays so; it looks at
`cpumask` with the lock, and whoever is in it then signals with the lock later.
-/

namespace Xhyve.Vmm.Shutdown

open Xhyve.Lib
open Xhyve.Vmm.Halt (SuspendHow vmMaxcpu)

/-! ## What a place says -/

namespace Pc

def active : Pc → Bool
  | .unborn => false
  | _ => true

/-- Behind setting its bit in `suspended_cpus`. -/
def late : Pc → Bool
  | .barrier _ | .sawActive _ _ | .sawSuspended _ _ | .pause _ | .delete _ | .lock _ | .signal _ | .look _ | .waiting _
  | .unlock _ | .gone => true
  | _ => false

def inMask : Pc → Bool
  | .unborn | .activated | .lock _ | .signal _ | .look _ | .waiting _ | .unlock _ | .gone => false
  | _ => true

/-- With `resetcpu_mtx`. -/
def holds : Pc → Bool
  | .signal _ | .look _ | .unlock _ => true
  | _ => false

/-- Activated, and without a thread. -/
def starting : Pc → Bool
  | .activated | .masked => true
  | _ => false

def newcpu : Pc → Option Vcpu
  | .adding n => some n
  | _ => none

/-- Has still to pass the signal to the boot processor. -/
def willSignal : Pc → Bool
  | .unborn | .activated | .look _ | .waiting _ | .unlock _ | .gone => false
  | _ => true

/-- Its thread is out of `vm_run` for good, if there is one. -/
def stopped : Pc → Bool
  | .unborn | .lock _ | .signal _ | .unlock _ | .gone => true
  | _ => false

def traits (p : Pc) : Bool × Bool × Bool × Bool × Bool × Option Vcpu :=
  (p.active, p.late, p.inMask, p.holds, p.starting, p.newcpu)

end Pc

/-- The machine is suspended, and an interrupt is pending or the loop of `vm_suspend` still comes by. -/
def Kicked (s : State) (i : Vcpu) : Prop :=
  s.suspend ≠ none → s.kicked i = true ∨ ∃ n, s.notify = some n ∧ n ≤ i.val

/-- What holds while a vCPU is at a place. Behind its comparison the boot processor knows that all active vCPUs have
come to theirs. -/
def At (s : State) (i : Vcpu) : Pc → Prop
  | .unborn | .activated | .masked | .gone => i ≠ bsp
  | .adding _ => i = bsp
  | .enter | .guest => Kicked s i
  | .user | .run | .exited | .kernel => True
  | .suspended how | .barrier how | .pause how => s.suspend = some how
  | .sawActive how active => s.suspend = some how ∧ (i = bsp → active = s.active)
  | .sawSuspended how suspended => s.suspend = some how ∧ suspended ⊆ s.suspended
  | .delete how | .lock how => s.suspend = some how ∧ (i = bsp → s.active ⊆ s.suspended)
  | .signal how => s.suspend = some how ∧ i ≠ bsp
  | .look how | .waiting how => s.suspend = some how ∧ i = bsp ∧ s.active ⊆ s.suspended
  | .unlock how => s.suspend = some how ∧ (i = bsp → s.active ⊆ s.suspended ∧ s.cpumask = ∅)

structure Inv (s : State) : Prop where
  active : Follows s.active s.pc Pc.active
  suspended : Follows s.suspended s.pc Pc.late
  cpumask : Follows s.cpumask s.pc Pc.inMask
  resetcpu : Owner s.resetcpu s.pc Pc.holds
  starting : ∀ i, (s.pc i).starting = true ↔ (s.pc bsp).newcpu = some i
  place : ∀ i, At s i (s.pc i)
  /-- The boot processor is not left waiting. -/
  signalled : ∀ how, s.pc bsp = .waiting how → ∃ j, j ≠ bsp ∧ (s.pc j).willSignal = true

/-- What a vCPU that does not move relies on. -/
structure Keeps (s s' : State) (i : Vcpu) : Prop where
  suspend : ∀ how, s.suspend = some how → s'.suspend = some how
  active : i = bsp → s'.active = s.active
  suspended : s.suspended ⊆ s'.suspended
  cpumask : i = bsp → s.cpumask = ∅ → s'.cpumask = ∅
  kicked : s.pc i = .enter ∨ s.pc i = .guest → Kicked s i → Kicked s' i

section Moves
variable {s s' : State} {i : Vcpu} {p q : Pc}

theorem goto_same (s : State) (i : Vcpu) (q : Pc) : (goto s i q).pc i = q := Function.update_self ..

theorem goto_other (s : State) {i j : Vcpu} (q : Pc) (hj : j ≠ i) : (goto s i q).pc j = s.pc j :=
  Function.update_of_ne hj ..

theorem Keeps.passed (h : Keeps s s' i) (hall : i = bsp → s.active ⊆ s.suspended) (hi : i = bsp) :
    s'.active ⊆ s'.suspended := by
  rw [h.active hi]
  exact (hall hi).trans h.suspended

theorem Keeps.place (h : Keeps s s' i) (hat : At s i (s.pc i)) : At s' i (s.pc i) := by
  have hkick := h.kicked
  cases hp : s.pc i with
  | unborn | activated | masked | gone | adding | user | run | exited | kernel =>
    rw [hp] at hat
    exact hat
  | enter =>
    rw [hp] at hat
    exact hkick (Or.inl hp) hat
  | guest =>
    rw [hp] at hat
    exact hkick (Or.inr hp) hat
  | suspended how | barrier how | pause how =>
    rw [hp] at hat
    exact h.suspend how hat
  | sawActive how active =>
    rw [hp] at hat
    exact ⟨h.suspend how hat.1, fun hi => (hat.2 hi).trans (h.active hi).symm⟩
  | sawSuspended how suspended =>
    rw [hp] at hat
    exact ⟨h.suspend how hat.1, hat.2.trans h.suspended⟩
  | delete how | lock how =>
    rw [hp] at hat
    exact ⟨h.suspend how hat.1, h.passed hat.2⟩
  | signal how =>
    rw [hp] at hat
    exact ⟨h.suspend how hat.1, hat.2⟩
  | look how | waiting how =>
    rw [hp] at hat
    exact ⟨h.suspend how hat.1, hat.2.1, h.passed (fun _ => hat.2.2) hat.2.1⟩
  | unlock how =>
    rw [hp] at hat
    exact ⟨h.suspend how hat.1, fun hi => ⟨h.passed (fun hi => (hat.2 hi).1) hi, h.cpumask hi (hat.2 hi).2⟩⟩

/-- One vCPU moves, with the sets behind it. -/
theorem Inv.moved (h : Inv s) (hpc : s'.pc = Function.update s.pc i q)
    (hactive : Follows s'.active (Function.update s.pc i q) Pc.active)
    (hsuspended : Follows s'.suspended (Function.update s.pc i q) Pc.late)
    (hcpumask : Follows s'.cpumask (Function.update s.pc i q) Pc.inMask)
    (hresetcpu : Owner s'.resetcpu (Function.update s.pc i q) Pc.holds)
    (hstarting : q.starting = (s.pc i).starting) (hnewcpu : q.newcpu = (s.pc i).newcpu)
    (hat : At s' i q) (hkeep : ∀ j, j ≠ i → Keeps s s' j)
    (hsignalled : ∀ how, Function.update s.pc i q bsp = .waiting how →
      ∃ j, j ≠ bsp ∧ (Function.update s.pc i q j).willSignal = true) : Inv s' where
  active := hpc ▸ hactive
  suspended := hpc ▸ hsuspended
  cpumask := hpc ▸ hcpumask
  resetcpu := hpc ▸ hresetcpu
  starting j := by
    have hnew : (Function.update s.pc i q bsp).newcpu = (s.pc bsp).newcpu := by
      by_cases hb : bsp = i
      · rw [hb, Function.update_self, hnewcpu]
      · rw [Function.update_of_ne hb]
    rw [hpc, hnew]
    by_cases hj : j = i
    · subst hj
      rw [Function.update_self, hstarting]
      exact h.starting j
    · rw [Function.update_of_ne hj]
      exact h.starting j
  place j := by
    rw [hpc]
    by_cases hj : j = i
    · subst hj
      rwa [Function.update_self]
    · rw [Function.update_of_ne hj]
      exact (hkeep j hj).place (h.place j)
  signalled := hpc ▸ hsignalled

/-- Nothing has changed for the others. -/
theorem Keeps.same (hsuspend : s'.suspend = s.suspend) (hnotify : s'.notify = s.notify)
    (hkicked : s'.kicked i = s.kicked i) (hactive : s'.active = s.active) (hsuspended : s.suspended ⊆ s'.suspended)
    (hcpumask : s'.cpumask ⊆ s.cpumask) : Keeps s s' i where
  suspend how h := hsuspend.trans h
  active _ := hactive
  suspended := hsuspended
  cpumask _ h := Finset.subset_empty.mp (h ▸ hcpumask)
  kicked _ h := by
    unfold Kicked
    rw [hsuspend, hkicked, hnotify]
    exact h

theorem willSignal_of_update (h : ∃ j, j ≠ bsp ∧ (s.pc j).willSignal = true)
    (hq : (s.pc i).willSignal = true → q.willSignal = true) :
    ∃ j, j ≠ bsp ∧ (Function.update s.pc i q j).willSignal = true := by
  obtain ⟨j, hne, hj⟩ := h
  refine ⟨j, hne, ?_⟩
  by_cases hji : j = i
  · subst hji
    rw [Function.update_self]
    exact hq hj
  · rwa [Function.update_of_ne hji]

/-- The boot processor waits afterwards only if it has waited before, and who has to signal still has to. -/
theorem Inv.signalled_of (h : Inv s) (i : Vcpu) (q : Pc) (hwait : ∀ how, q ≠ .waiting how)
    (hq : (s.pc i).willSignal = true → q.willSignal = true) (how : SuspendHow)
    (hbsp : Function.update s.pc i q bsp = .waiting how) :
    ∃ j, j ≠ bsp ∧ (Function.update s.pc i q j).willSignal = true := by
  refine willSignal_of_update (h.signalled how ?_) hq
  by_cases hi : bsp = i
  · rw [hi, Function.update_self] at hbsp
    exact absurd hbsp (hwait how)
  · rwa [Function.update_of_ne hi] at hbsp

/-- A vCPU moves between places that say the same of the sets. -/
theorem Inv.walks (h : Inv s) (hp : s.pc i = p) (htraits : q.traits = p.traits) (hat : At s i q)
    (hwait : ∀ how, q ≠ .waiting how) (hq : p.willSignal = true → q.willSignal = true) : Inv (goto s i q) := by
  subst hp
  simp only [Pc.traits, Prod.mk.injEq] at htraits
  obtain ⟨hactive, hlate, hmask, hholds, hstarting, hnewcpu⟩ := htraits
  refine h.moved rfl (h.active.keep hactive) (h.suspended.keep hlate) (h.cpumask.keep hmask)
    (h.resetcpu.keep hholds) hstarting hnewcpu hat (fun j _ => .same rfl rfl rfl rfl
      (Finset.Subset.refl _) (Finset.Subset.refl _)) (h.signalled_of i q hwait hq)

end Moves

/-! ## What a step keeps -/

structure Final (s : State) (e : End) : Prop where
  how : e ≠ .assertion → ∃ how, e = .suspended how ∧ s.suspend = some how
  stopped : e ≠ .assertion → ∀ i, i ≠ bsp → (s.pc i).stopped = true

structure Valid (s : State) : Prop where
  inv : s.ended = none → Inv s
  final : ∀ e, s.ended = some e → Final s e

theorem Valid.of_inv {s : State} (hlive : s.ended = none) (h : Inv s) : Valid s where
  inv _ := h
  final e he := by rw [hlive] at he; cases he

theorem Valid.assertion (s : State) : Valid { s with ended := some .assertion } where
  inv := nofun
  final e he := by
    obtain rfl := Option.some.inj he
    exact ⟨fun h => absurd rfl h, fun h => absurd rfl h⟩

section Steps
variable {s s' : State} {i n : Vcpu} {how : SuspendHow}

theorem Inv.place_at (h : Inv s) {p : Pc} (hp : s.pc i = p) : At s i p := hp ▸ h.place i

theorem update_bsp (hi : i ≠ bsp) (q : Pc) : Function.update s.pc i q bsp = s.pc bsp :=
  Function.update_of_ne (Ne.symm hi) ..

/-- The boot processor goes on with `vcpu_add`. -/
theorem Inv.masked (h : Inv s) (hi : i ≠ bsp) (hbsp : s.pc bsp = .adding i) (hp : s.pc i = .activated) :
    Inv { goto s i .masked with cpumask := insert i s.cpumask } := by
  have hmask : bsp ∈ s.cpumask := (h.cpumask bsp).mpr (by rw [hbsp]; rfl)
  refine h.moved rfl (h.active.keep (by rw [hp]; rfl)) (h.suspended.keep (by rw [hp]; rfl))
    (h.cpumask.insert rfl) (h.resetcpu.keep (by rw [hp]; rfl)) (by rw [hp]; rfl) (by rw [hp]; rfl) hi
    (fun j _ => ⟨fun _ => id, fun _ => rfl, Finset.Subset.refl _, fun _ hempty => ?_, fun _ => id⟩) fun how hwait => ?_
  · rw [hempty] at hmask
    exact absurd hmask (Finset.notMem_empty bsp)
  · rw [update_bsp hi, hbsp] at hwait
    cases hwait

/-- The thread of the new vCPU starts, and `vcpu_add` returns. -/
theorem Inv.started (h : Inv s) (hi : i ≠ bsp) (hbsp : s.pc bsp = .adding i) (hp : s.pc i = .masked) :
    Inv (goto (goto s i .user) bsp .user) := by
  have hb : Function.update s.pc i .user bsp = .adding i := (update_bsp hi _).trans hbsp
  constructor
  · exact (h.active.keep (by rw [hp]; rfl)).keep (by rw [hb]; rfl)
  · exact (h.suspended.keep (by rw [hp]; rfl)).keep (by rw [hb]; rfl)
  · exact (h.cpumask.keep (by rw [hp]; rfl)).keep (by rw [hb]; rfl)
  · exact (h.resetcpu.keep (by rw [hp]; rfl)).keep (by rw [hb]; rfl)
  · intro j
    rw [goto_same]
    refine iff_of_false (fun hstart => ?_) nofun
    by_cases hj : j = bsp
    · rw [hj, goto_same] at hstart
      cases hstart
    · rw [goto_other _ _ hj] at hstart
      by_cases hji : j = i
      · rw [hji, goto_same] at hstart
        cases hstart
      · rw [goto_other _ _ hji, h.starting j, hbsp] at hstart
        exact hji (Option.some.inj hstart).symm
  · intro j
    by_cases hj : j = bsp
    · rw [hj, goto_same]
      trivial
    · rw [goto_other _ _ hj]
      by_cases hji : j = i
      · rw [hji, goto_same]
        trivial
      · rw [goto_other _ _ hji]
        exact h.place j
  · intro how hwait
    rw [goto_same] at hwait
    cases hwait

theorem Inv.added (h : Inv s) (hbsp : s.pc bsp = .user) (hn : n ∉ s.active) :
    Inv { s with
      pc := Function.update (Function.update s.pc n .activated) bsp (.adding n)
      active := insert n s.active } := by
  have hne : n ≠ bsp := by
    rintro rfl
    exact hn ((h.active bsp).mpr (by rw [hbsp]; rfl))
  have hunborn : s.pc n = .unborn := by
    have hnot : ¬ (s.pc n).active = true := fun hact => hn ((h.active n).mpr hact)
    cases hp : s.pc n with
    | unborn => rfl
    | _ => exact absurd (by rw [hp]; rfl) hnot
  have hb : Function.update s.pc n .activated bsp = .user := (update_bsp hne _).trans hbsp
  constructor
  · exact (h.active.insert rfl).keep (by rw [hb]; rfl)
  · exact (h.suspended.keep (by rw [hunborn]; rfl)).keep (by rw [hb]; rfl)
  · exact (h.cpumask.keep (by rw [hunborn]; rfl)).keep (by rw [hb]; rfl)
  · exact (h.resetcpu.keep (by rw [hunborn]; rfl)).keep (by rw [hb]; rfl)
  · intro j
    dsimp only
    rw [Function.update_self]
    by_cases hj : j = bsp
    · subst hj
      rw [Function.update_self]
      exact iff_of_false nofun fun heq => hne (Option.some.inj heq)
    · rw [Function.update_of_ne hj]
      by_cases hjn : j = n
      · subst hjn
        rw [Function.update_self]
        exact iff_of_true rfl rfl
      · rw [Function.update_of_ne hjn, h.starting j, hbsp]
        exact iff_of_false nofun fun heq => hjn (Option.some.inj heq).symm
  · intro j
    dsimp only
    by_cases hj : j = bsp
    · subst hj
      rw [Function.update_self]
      rfl
    · rw [Function.update_of_ne hj]
      by_cases hjn : j = n
      · subst hjn
        rw [Function.update_self]
        exact hne
      · rw [Function.update_of_ne hjn]
        have hkeep : Keeps s { s with
            pc := Function.update (Function.update s.pc n .activated) bsp (.adding n)
            active := insert n s.active } j :=
          ⟨fun _ => id, fun hb => absurd hb hj, Finset.Subset.refl _, fun hb => absurd hb hj, fun _ => id⟩
        exact hkeep.place (h.place j)
  · intro how hwait
    dsimp only at hwait
    rw [Function.update_self] at hwait
    cases hwait

/-- A vCPU leaves the guest, with or without an interrupt. -/
theorem Inv.exit (h : Inv s) {p : Pc} (hp : s.pc i = p) (htraits : Pc.exited.traits = p.traits) :
    Inv { goto s i .exited with kicked := Function.update s.kicked i false } := by
  subst hp
  simp only [Pc.traits, Prod.mk.injEq] at htraits
  obtain ⟨hactive, hlate, hmask, hholds, hstarting, hnewcpu⟩ := htraits
  exact h.moved rfl (h.active.keep hactive) (h.suspended.keep hlate) (h.cpumask.keep hmask) (h.resetcpu.keep hholds)
    hstarting hnewcpu trivial (fun j hj => .same rfl rfl (Function.update_of_ne hj ..) rfl (Finset.Subset.refl _)
      (Finset.Subset.refl _)) (h.signalled_of i .exited (fun _ => nofun) fun _ => rfl)

theorem Inv.suspendedBit (h : Inv s) (hp : s.pc i = .suspended how) :
    Inv { goto s i (.barrier how) with suspended := insert i s.suspended } := by
  refine h.moved rfl (h.active.keep (by rw [hp]; rfl)) (h.suspended.insert rfl) (h.cpumask.keep (by rw [hp]; rfl))
    (h.resetcpu.keep (by rw [hp]; rfl)) (by rw [hp]; rfl) (by rw [hp]; rfl) (h.place_at hp)
    (fun j _ => .same rfl rfl rfl rfl (Finset.subset_insert i _) (Finset.Subset.refl _))
    (h.signalled_of i (.barrier how) (fun _ => nofun) fun _ => rfl)

theorem Inv.deleted (h : Inv s) (hp : s.pc i = .delete how) :
    Inv { goto s i (.lock how) with cpumask := s.cpumask.erase i } := by
  refine h.moved rfl (h.active.keep (by rw [hp]; rfl)) (h.suspended.keep (by rw [hp]; rfl)) (h.cpumask.erase rfl)
    (h.resetcpu.keep (by rw [hp]; rfl)) (by rw [hp]; rfl) (by rw [hp]; rfl) (h.place_at hp)
    (fun j _ => .same rfl rfl rfl rfl (Finset.Subset.refl _) (Finset.erase_subset i _))
    (h.signalled_of i (.lock how) (fun _ => nofun) fun _ => rfl)

theorem Inv.locked (h : Inv s) (hfree : s.resetcpu = none) (hp : s.pc i = .lock how) :
    Inv { goto s i (if i = bsp then .look how else .signal how) with resetcpu := some i } := by
  have hown : Owner none s.pc Pc.holds := hfree ▸ h.resetcpu
  have hat := h.place_at hp
  by_cases hi : i = bsp
  · rw [if_pos hi]
    refine h.moved rfl (h.active.keep (by rw [hp]; rfl)) (h.suspended.keep (by rw [hp]; rfl))
      (h.cpumask.keep (by rw [hp]; rfl)) (hown.take rfl) (by rw [hp]; rfl) (by rw [hp]; rfl) ⟨hat.1, hi, hat.2 hi⟩
      (fun j _ => .same rfl rfl rfl rfl (Finset.Subset.refl _) (Finset.Subset.refl _)) fun how hwait => ?_
    rw [hi, Function.update_self] at hwait
    cases hwait
  · rw [if_neg hi]
    exact h.moved rfl (h.active.keep (by rw [hp]; rfl)) (h.suspended.keep (by rw [hp]; rfl))
      (h.cpumask.keep (by rw [hp]; rfl)) (hown.take rfl) (by rw [hp]; rfl) (by rw [hp]; rfl) ⟨hat.1, hi⟩
      (fun j _ => .same rfl rfl rfl rfl (Finset.Subset.refl _) (Finset.Subset.refl _))
      (h.signalled_of i (.signal how) (fun _ => nofun) fun _ => rfl)

/-- Whoever is still in `cpumask` will signal. -/
theorem Inv.waits (h : Inv s) (hp : s.pc i = .look how) (hmask : s.cpumask ≠ ∅) :
    Inv { goto s i (.waiting how) with resetcpu := none } := by
  have hat := h.place_at hp
  obtain ⟨j, hj⟩ := Finset.nonempty_iff_ne_empty.mpr hmask
  have hin : (s.pc j).inMask = true := (h.cpumask j).mp hj
  have hji : j ≠ i := by
    rintro rfl
    rw [hp] at hin
    cases hin
  refine h.moved rfl (h.active.keep (by rw [hp]; rfl)) (h.suspended.keep (by rw [hp]; rfl))
    (h.cpumask.keep (by rw [hp]; rfl)) (h.resetcpu.release (by rw [hp]; rfl) rfl) (by rw [hp]; rfl) (by rw [hp]; rfl) hat
    (fun j _ => .same rfl rfl rfl rfl (Finset.Subset.refl _) (Finset.Subset.refl _)) fun _ _ => ⟨j, hat.2.1 ▸ hji, ?_⟩
  rw [Function.update_of_ne hji]
  cases hpj : s.pc j with
  | unborn | activated | look | waiting | unlock | gone =>
    rw [hpj] at hin
    cases hin
  | _ => rfl

/-- A signal that nobody waits for. -/
theorem Inv.unlocks (h : Inv s) (hi : i ≠ bsp) (hp : s.pc i = .signal how) (hbsp : ∀ how, s.pc bsp ≠ .waiting how) :
    Inv (goto s i (.unlock how)) := by
  have hat := h.place_at hp
  refine h.moved rfl (h.active.keep (by rw [hp]; rfl)) (h.suspended.keep (by rw [hp]; rfl))
    (h.cpumask.keep (by rw [hp]; rfl)) (h.resetcpu.keep (by rw [hp]; rfl)) (by rw [hp]; rfl) (by rw [hp]; rfl)
    ⟨hat.1, fun h => absurd h hi⟩ (fun j _ => .same rfl rfl rfl rfl (Finset.Subset.refl _) (Finset.Subset.refl _))
    fun how hwait => ?_
  rw [update_bsp hi] at hwait
  exact absurd hwait (hbsp how)

theorem Inv.leaves (h : Inv s) (hi : i ≠ bsp) (hp : s.pc i = .unlock how) :
    Inv { goto s i .gone with resetcpu := none } := by
  refine h.moved rfl (h.active.keep (by rw [hp]; rfl)) (h.suspended.keep (by rw [hp]; rfl))
    (h.cpumask.keep (by rw [hp]; rfl)) (h.resetcpu.release (by rw [hp]; rfl) rfl) (by rw [hp]; rfl) (by rw [hp]; rfl) hi
    (fun j _ => .same rfl rfl rfl rfl (Finset.Subset.refl _) (Finset.Subset.refl _))
    (h.signalled_of i .gone (fun _ => nofun) fun hs => by rw [hp] at hs; cases hs)

/-- The boot processor has found `cpumask` empty. -/
theorem Inv.stopped (h : Inv s) (hp : s.pc bsp = .unlock how) (hi : i ≠ bsp) : (s.pc i).stopped = true := by
  have hempty : s.cpumask = ∅ := ((h.place_at hp).2 rfl).2
  have hnot : ¬ (s.pc i).inMask = true := by
    rw [← h.cpumask i, hempty]
    exact Finset.notMem_empty i
  have hstart : ¬ (s.pc i).starting = true := by
    rw [h.starting i, hp]
    exact nofun
  have hat := h.place i
  cases hpi : s.pc i with
  | unborn | lock | signal | unlock | gone => rfl
  | activated =>
    rw [hpi] at hstart
    exact absurd rfl hstart
  | look how | waiting how =>
    rw [hpi] at hat
    exact absurd hat.2.1 hi
  | _ =>
    rw [hpi] at hnot
    exact absurd rfl hnot

end Steps

section Runs
variable {s s' : State} {i : Vcpu} {how : SuspendHow}

theorem Valid.walk (h : Inv s) (hlive : s.ended = none) {p q : Pc} (hp : s.pc i = p) (htraits : q.traits = p.traits)
    (hat : At s i q) (hwait : ∀ how, q ≠ .waiting how) (hq : p.willSignal = true → q.willSignal = true) :
    Valid (goto s i q) := .of_inv hlive (h.walks hp htraits hat hwait hq)

/-- All active vCPUs have come to the comparison, where it is the boot processor's. -/
theorem Inv.afterCmp (h : Inv s) {p : Pc} (hp : s.pc i = p) (htraits : ∀ q, Pc.traits (.pause q) = p.traits)
    (hreason : s.suspend = some how) {equal : Bool}
    (hequal : equal = true → i = bsp → s.active ⊆ s.suspended) : Inv (goto s i (afterCmp how equal)) := by
  cases equal with
  | false => exact h.walks hp (htraits how) hreason (fun _ => nofun) fun _ => rfl
  | true => exact h.walks hp (htraits how) ⟨hreason, hequal rfl⟩ (fun _ => nofun) fun _ => rfl

theorem Inv.user_runs (h : Inv s) (hp : s.pc i = .user) : i ∈ s.active ∧ i ∉ s.suspended :=
  ⟨(h.active i).mpr (by rw [hp]; rfl), h.suspended.not_mem (by rw [hp]; rfl)⟩

/-- `vcpu_add` goes on with the vCPU it has activated. -/
theorem Inv.adding (h : Inv s) {n : Vcpu} (hp : s.pc i = .adding n) :
    i = bsp ∧ n ≠ bsp ∧ (s.pc n = .activated ∨ s.pc n = .masked) := by
  have hi : i = bsp := h.place_at hp
  subst hi
  have hstart : (s.pc n).starting = true := (h.starting n).mpr (by rw [hp]; rfl)
  cases hn : s.pc n with
  | activated => exact ⟨rfl, h.place_at hn, Or.inl rfl⟩
  | masked => exact ⟨rfl, h.place_at hn, Or.inr rfl⟩
  | _ =>
    rw [hn] at hstart
    cases hstart

theorem go_valid (h : Inv s) (hlive : s.ended = none) (hs : go s i = some s') : Valid s' := by
  have hat := h.place i
  cases hp : s.pc i with
  | unborn | activated | masked | gone | waiting =>
    simp only [go, hp, reduceCtorEq] at hs
  | user =>
    simp only [go, hp, if_pos (h.user_runs hp), Option.some.injEq] at hs
    subst hs
    exact .walk h hlive hp rfl trivial (fun _ => nofun) fun _ => rfl
  | adding n =>
    obtain ⟨rfl, hn, hactivated | hmasked⟩ := h.adding hp
    · simp only [go, hp, hactivated, Option.some.injEq] at hs
      subst hs
      exact .of_inv hlive (h.masked hn hp hactivated)
    · simp only [go, hp, hmasked, Option.some.injEq] at hs
      subst hs
      exact .of_inv hlive (h.started hn hp hmasked)
  | run =>
    cases hsuspend : s.suspend with
    | some how =>
      simp only [go, hp, hsuspend, Option.some.injEq] at hs
      subst hs
      exact .walk h hlive hp rfl hsuspend (fun _ => nofun) fun _ => rfl
    | none =>
      simp only [go, hp, hsuspend, Option.some.injEq] at hs
      subst hs
      exact .walk h hlive hp rfl (fun hne => absurd hsuspend hne) (fun _ => nofun) fun _ => rfl
  | enter =>
    simp only [go, hp] at hs
    split at hs
    · obtain rfl := Option.some.inj hs
      exact .of_inv hlive (h.exit hp rfl)
    · obtain rfl := Option.some.inj hs
      rw [hp] at hat
      exact .walk h hlive hp rfl hat (fun _ => nofun) fun _ => rfl
  | guest =>
    simp only [go, hp, Option.some.injEq] at hs
    subst hs
    exact .of_inv hlive (h.exit hp rfl)
  | exited | kernel =>
    simp only [go, hp, Option.some.injEq] at hs
    subst hs
    exact .walk h hlive hp rfl trivial (fun _ => nofun) fun _ => rfl
  | suspended how =>
    simp only [go, hp, Option.some.injEq] at hs
    subst hs
    exact .of_inv hlive (h.suspendedBit hp)
  | barrier how =>
    simp only [go, hp, Option.some.injEq] at hs
    subst hs
    rw [hp] at hat
    exact .walk h hlive hp rfl ⟨hat, fun _ => rfl⟩ (fun _ => nofun) fun _ => rfl
  | sawActive how active =>
    simp only [go, hp, Option.some.injEq] at hs
    subst hs
    rw [hp] at hat
    refine .of_inv hlive (h.afterCmp hp (fun _ => rfl) hat.1 fun heq hi => ?_)
    rw [of_decide_eq_true heq, hat.2 hi]
  | sawSuspended how suspended =>
    simp only [go, hp, Option.some.injEq] at hs
    subst hs
    rw [hp] at hat
    refine .of_inv hlive (h.afterCmp hp (fun _ => rfl) hat.1 fun heq _ => ?_)
    rw [← of_decide_eq_true heq]
    exact hat.2
  | pause how =>
    simp only [go, hp, Option.some.injEq] at hs
    subst hs
    rw [hp] at hat
    exact .walk h hlive hp rfl hat (fun _ => nofun) fun _ => rfl
  | delete how =>
    have hmask : i ∈ s.cpumask := (h.cpumask i).mpr (by rw [hp]; rfl)
    simp only [go, hp, if_pos hmask, Option.some.injEq] at hs
    subst hs
    exact .of_inv hlive (h.deleted hp)
  | lock how =>
    simp only [go, hp] at hs
    split at hs
    · rename_i hfree
      obtain rfl := Option.some.inj hs
      exact .of_inv hlive (h.locked hfree hp)
    · cases hs
  | signal how =>
    rw [hp] at hat
    simp only [go, hp] at hs
    split at hs
    · rename_i how' hwaiting
      obtain rfl := Option.some.inj hs
      have hbsp := h.place_at hwaiting
      have hwoken : Inv (goto s bsp (.lock how')) :=
        h.walks hwaiting rfl ⟨hbsp.1, fun _ => hbsp.2.2⟩ (fun _ => nofun) nofun
      refine .of_inv hlive (hwoken.unlocks hat.2 ?_ fun how => ?_)
      · rw [goto_other _ _ hat.2, hp]
      · rw [goto_same]
        exact nofun
    · rename_i hnot
      obtain rfl := Option.some.inj hs
      exact .of_inv hlive (h.unlocks hat.2 hp hnot)
  | look how =>
    rw [hp] at hat
    simp only [go, hp] at hs
    split at hs
    · rename_i hempty
      obtain rfl := Option.some.inj hs
      exact .walk h hlive hp rfl ⟨hat.1, fun _ => ⟨hat.2.2, hempty⟩⟩ (fun _ => nofun) nofun
    · rename_i hmask
      obtain rfl := Option.some.inj hs
      exact .of_inv hlive (h.waits hp hmask)
  | unlock how =>
    rw [hp] at hat
    by_cases hi : i = bsp
    · subst hi
      simp only [go, hp, if_pos, Option.some.injEq] at hs
      subst hs
      refine ⟨nofun, fun e he => ?_⟩
      obtain rfl := Option.some.inj he
      exact ⟨fun _ => ⟨how, rfl, hat.1⟩, fun _ j hj => h.stopped hp hj⟩
    · simp only [go, hp, if_neg hi, Option.some.injEq] at hs
      subst hs
      exact .of_inv hlive (h.leaves hi hp)

theorem goOther_valid (h : Inv s) (hlive : s.ended = none) (hs : goOther s i = some s') : Valid s' := by
  have hat := h.place i
  cases hp : s.pc i with
  | exited | kernel =>
    simp only [goOther, hp, Option.some.injEq] at hs
    subst hs
    exact .walk h hlive hp rfl trivial (fun _ => nofun) fun _ => rfl
  | run =>
    simp only [goOther, hp] at hs
    split at hs
    · obtain rfl := Option.some.inj hs
      exact .walk h hlive hp rfl trivial (fun _ => nofun) fun _ => rfl
    · cases hs
  | barrier how =>
    simp only [goOther, hp, Option.some.injEq] at hs
    subst hs
    rw [hp] at hat
    exact .walk h hlive hp rfl ⟨hat, Finset.Subset.refl _⟩ (fun _ => nofun) fun _ => rfl
  | waiting how =>
    simp only [goOther, hp, Option.some.injEq] at hs
    subst hs
    rw [hp] at hat
    exact .walk h hlive hp rfl ⟨hat.1, fun _ => hat.2.2⟩ (fun _ => nofun) nofun
  | _ => simp only [goOther, hp, reduceCtorEq] at hs

/-- What all rely on, and the places themselves, stay; whoever is about to be in the guest will be interrupted. -/
theorem Inv.keeps (h : Inv s) (hpc : s'.pc = s.pc) (hactive : s'.active = s.active)
    (hsuspended : s'.suspended = s.suspended) (hcpumask : s'.cpumask = s.cpumask) (hresetcpu : s'.resetcpu = s.resetcpu)
    (hkeep : ∀ j, Keeps s s' j) : Inv s' where
  active := by rw [hactive, hpc]; exact h.active
  suspended := by rw [hsuspended, hpc]; exact h.suspended
  cpumask := by rw [hcpumask, hpc]; exact h.cpumask
  resetcpu := by rw [hresetcpu, hpc]; exact h.resetcpu
  starting := by rw [hpc]; exact h.starting
  place j := by rw [hpc]; exact (hkeep j).place (h.place j)
  signalled := by rw [hpc]; exact h.signalled

theorem vmSuspend_inv (h : Inv s) (how : SuspendHow) : Inv (vmSuspend s how) := by
  cases hsuspend : s.suspend with
  | some how' =>
    rw [vmSuspend, hsuspend]
    exact h
  | none =>
    rw [vmSuspend, hsuspend]
    refine h.keeps rfl rfl rfl rfl rfl fun j => ⟨fun how hhow => ?_, fun _ => rfl, Finset.Subset.refl _, fun _ => id,
      fun _ _ _ => Or.inr ⟨0, rfl, Nat.zero_le _⟩⟩
    rw [hsuspend] at hhow
    cases hhow

/-- A turn of the loop has its vCPU interrupted, if it is about to be in the guest. -/
theorem notified_kicked (h : Inv s) {n : Nat} (hn : n < vmMaxcpu) (hnotify : s.notify = some n) {s₁ : State}
    (hs₁ : s₁ = if (⟨n, hn⟩ : Vcpu) ∈ s.active then vcpuNotifyEvent s ⟨n, hn⟩ else s) (j : Vcpu)
    (hin : s.pc j = .enter ∨ s.pc j = .guest) (hkicked : Kicked s j) (hsuspend : s.suspend ≠ none) :
    s₁.kicked j = true ∨ n + 1 ≤ j.val := by
  have hrunning : (s.pc j).running = true := by
    rcases hin with hp | hp
    all_goals rw [hp]; rfl
  have hact : j ∈ s.active := by
    rcases hin with hp | hp
    all_goals exact (h.active j).mpr (by rw [hp]; rfl)
  rcases hkicked hsuspend with hkick | ⟨m, hm, hle⟩
  · left
    subst hs₁
    split
    · unfold vcpuNotifyEvent
      split
      · by_cases hj : j = ⟨n, hn⟩
        · rw [hj]
          exact Function.update_self ..
        · exact (Function.update_of_ne hj ..).trans hkick
      · exact hkick
    · exact hkick
  · obtain rfl : n = m := Option.some.inj (hnotify.symm.trans hm)
    rcases Nat.eq_or_lt_of_le hle with heq | hlt
    · left
      obtain rfl : j = ⟨n, hn⟩ := Fin.ext heq.symm
      rw [if_pos hact, vcpuNotifyEvent, if_pos hrunning] at hs₁
      rw [hs₁]
      exact Function.update_self ..
    · exact Or.inr hlt

/-- The loop of `vm_suspend` changes nothing but interrupts. -/
theorem notify_frame {i : Vcpu} {s₁ : State} (hs₁ : s₁ = if i ∈ s.active then vcpuNotifyEvent s i else s) :
    ∃ kicked, s₁ = { s with kicked := kicked } := by
  subst hs₁
  unfold vcpuNotifyEvent
  split
  · split
    · exact ⟨_, rfl⟩
    · exact ⟨_, rfl⟩
  · exact ⟨_, rfl⟩

theorem vmSuspendNotify_inv (h : Inv s) (hs : vmSuspendNotify s = some s') : Inv s' ∧ s'.ended = s.ended := by
  cases hnotify : s.notify with
  | none =>
    rw [vmSuspendNotify, hnotify] at hs
    cases hs
  | some n =>
    rw [vmSuspendNotify, hnotify] at hs
    dsimp only at hs
    split at hs
    · rename_i hn
      obtain rfl := Option.some.inj hs
      have hkick := notified_kicked h hn hnotify rfl
      obtain ⟨kicked, hframe⟩ := notify_frame (s := s) (i := ⟨n, hn⟩) rfl
      rw [hframe] at hkick ⊢
      exact ⟨h.keeps rfl rfl rfl rfl rfl fun j => ⟨fun _ => id, fun _ => rfl, Finset.Subset.refl _, fun _ => id,
        fun hin hk hsus => (hkick j hin hk hsus).imp id fun hle => ⟨n + 1, rfl, hle⟩⟩, rfl⟩
    · rename_i hn
      obtain rfl := Option.some.inj hs
      refine ⟨h.keeps rfl rfl rfl rfl rfl fun j => ⟨fun _ => id, fun _ => rfl, Finset.Subset.refl _, fun _ => id,
        fun _ hk hsus => (hk hsus).imp id fun ⟨m, hm, hle⟩ => ?_⟩, rfl⟩
      obtain rfl : n = m := Option.some.inj (hnotify.symm.trans hm)
      exact absurd (hle.trans_lt j.isLt) hn

theorem next_valid {a : Act} (h : Valid s) (hs : next s a = some s') : Valid s' := by
  cases hlive : s.ended with
  | some e => simp only [next, hlive, Option.isSome_some, if_true, reduceCtorEq] at hs
  | none =>
    have hinv := h.inv hlive
    simp only [next, hlive, Option.isSome_none, Bool.false_eq_true, if_false] at hs
    cases a with
    | suspend how =>
      obtain rfl := Option.some.inj hs
      refine .of_inv ?_ (vmSuspend_inv hinv how)
      unfold vmSuspend
      split
      all_goals exact hlive
    | notify =>
      obtain ⟨hinv', hended⟩ := vmSuspendNotify_inv hinv hs
      exact .of_inv (hended.trans hlive) hinv'
    | go i => exact go_valid hinv hlive hs
    | other i => exact goOther_valid hinv hlive hs
    | add i n =>
      dsimp only at hs
      split at hs
      · rename_i hp
        obtain rfl := Option.some.inj hs
        unfold vcpuAdd
        split
        · exact .assertion s
        · rename_i hok
          obtain ⟨hbsp, hn⟩ := not_or.mp hok
          obtain rfl := not_not.mp hbsp
          exact .of_inv hlive (hinv.added hp hn)
      · cases hs

end Runs

theorem initial_inv : Inv State.initial where
  active := (by decide : ∀ i, i ∈ State.initial.active ↔ (State.initial.pc i).active = true)
  suspended := (by decide : ∀ i, i ∈ State.initial.suspended ↔ (State.initial.pc i).late = true)
  cpumask := (by decide : ∀ i, i ∈ State.initial.cpumask ↔ (State.initial.pc i).inMask = true)
  resetcpu := (by decide : ∀ i, State.initial.resetcpu = some i ↔ (State.initial.pc i).holds = true)
  starting := by decide
  place i := by
    by_cases hi : i = bsp
    · rw [hi]
      trivial
    · have hunborn : State.initial.pc i = .unborn := if_neg hi
      rw [hunborn]
      exact hi
  signalled := nofun

theorem reachable_valid {s : State} (h : system.Reachable s) : Valid s :=
  System.Inductive.reachable ⟨fun _ hs => hs ▸ .of_inv rfl initial_inv, fun _ _ _ => next_valid⟩ h

end Xhyve.Vmm.Shutdown
