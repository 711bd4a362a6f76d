import Mathlib
import Xhyve.Lib.Exclusive
import Xhyve.Lib.Transition

/-!
# The state of a virtual CPU

Every call of the API that touches a virtual CPU freezes it first and thaws it afterwards, and waits
while it is not idle; some calls freeze all virtual CPUs, one after the other. `vm_run` takes the frozen
virtual CPU to running or sleeping and back. Any transition that is not foreseen aborts the program.
-/

namespace Xhyve.Vmm.VcpuLock

open Xhyve.Lib

def vmMaxcpu : Nat := 16

/-- `enum vcpu_state`. -/
inductive VcpuState
  | idle | frozen | running | sleeping
deriving DecidableEq, Repr

/-- What `vcpu_set_state_locked` comes to. -/
inductive Outcome
  /-- Waits for the virtual CPU to become idle. -/
  | waits
  | kassert
  | ebusy
  | set (state : VcpuState)
deriving DecidableEq, Repr

def vcpuSetStateLocked (state newstate : VcpuState) (fromIdle : Bool) : Outcome :=
  if fromIdle && state ≠ .idle then .waits
  else if !fromIdle && state = .idle then .kassert
  else
    let error : Bool := match state with
      | .idle | .running | .sleeping => newstate ≠ .frozen
      | .frozen => newstate = .frozen
    if error then .ebusy else .set newstate

/-! ## The threads -/

abbrev Vcpu := Fin vmMaxcpu

/-- Where a thread is. `run` tells `xh_vm_run` from the other calls for one virtual CPU. -/
inductive Pc
  | out
  /-- In `vcpu_freeze(vcpu, true)`. -/
  | freeze (run : Bool) (vcpu : Vcpu)
  /-- Between the two calls of `vcpu_freeze`. -/
  | inside (run : Bool) (vcpu : Vcpu)
  /-- In `VMRUN`. -/
  | running (vcpu : Vcpu)
  /-- In `vm_handle_hlt` or `vm_handle_suspend`. -/
  | sleeping (vcpu : Vcpu)
  /-- In the loop of `vcpu_freeze_all(true)`. -/
  | freezeAll (next : Vcpu)
  | insideAll
  /-- In the loop of `vcpu_freeze_all(false)`. -/
  | thawAll (next : Vcpu)
deriving DecidableEq, Repr

inductive Act
  /-- Calls a function for one virtual CPU, -/
  | call (run : Bool) (vcpu : Vcpu)
  /-- or one for all. -/
  | callAll
  /-- Goes on, or leaves the call. -/
  | go
  | enter | sleep
deriving DecidableEq, Repr

structure State (θ : Type) where
  vcpus : Vcpu → VcpuState
  pc : θ → Pc
  aborted : Bool

variable {θ : Type} [DecidableEq θ]

/-- `vcpu_set_state` by thread `t`, which is at `pc` afterwards; without a result while it waits. -/
def setState (s : State θ) (t : θ) (v : Vcpu) (newstate : VcpuState) (fromIdle : Bool) (pc : Pc) :
    Option (State θ) :=
  match vcpuSetStateLocked (s.vcpus v) newstate fromIdle with
  | .waits => none
  | .kassert | .ebusy => some { s with aborted := true }
  | .set state => some { s with
      vcpus := Function.update s.vcpus v state
      pc := Function.update s.pc t pc }

def jump (s : State θ) (t : θ) (pc : Pc) : State θ := { s with pc := Function.update s.pc t pc }

def firstVcpu : Vcpu := ⟨0, by decide⟩

/-- The virtual CPU after `v`, `last` behind them all. -/
def nextVcpu (v : Vcpu) (more : Vcpu → Pc) (last : Pc) : Pc :=
  if h : v.val + 1 < vmMaxcpu then more ⟨v.val + 1, h⟩ else last

/-- A thread at a place from where there is one way on. -/
def goOn (s : State θ) (t : θ) : Pc → Option (State θ)
  | .out => none
  | .freeze run v => setState s t v .frozen true (.inside run v)
  | .inside _ v => setState s t v .idle false .out
  | .running v | .sleeping v => setState s t v .frozen false (.inside true v)
  | .freezeAll v => setState s t v .frozen true (nextVcpu v .freezeAll .insideAll)
  | .insideAll => some (jump s t (.thawAll firstVcpu))
  | .thawAll v => setState s t v .idle false (nextVcpu v .thawAll .out)

/-- One step of thread `t`. -/
def next (s : State θ) : θ × Act → Option (State θ)
  | (t, a) =>
    if s.aborted then none
    else
      match a, s.pc t with
      | .call run v, .out => some (jump s t (.freeze run v))
      | .callAll, .out => some (jump s t (.freezeAll firstVcpu))
      | .enter, .inside true v => setState s t v .running false (.running v)
      | .sleep, .inside true v => setState s t v .sleeping false (.sleeping v)
      | .go, pc => goOn s t pc
      | _, _ => none

def Start (s : State θ) : Prop := (∀ v, s.vcpus v = .idle) ∧ (∀ t, s.pc t = .out) ∧ s.aborted = false

def system (θ : Type) [DecidableEq θ] : System (State θ) (θ × Act) := System.ofFn Start next

/-! ## Who has frozen what -/

/-- The state in which a thread at `pc` has a virtual CPU. -/
def claim : Pc → Vcpu → VcpuState
  | .out, _ | .freeze _ _, _ => .idle
  | .inside _ v, u => if u = v then .frozen else .idle
  | .running v, u => if u = v then .running else .idle
  | .sleeping v, u => if u = v then .sleeping else .idle
  | .freezeAll v, u => if u < v then .frozen else .idle
  | .insideAll, _ => .frozen
  | .thawAll v, u => if u < v then .idle else .frozen

/-- The virtual CPU a thread waits for. -/
def wants : Pc → Option Vcpu
  | .freeze _ v | .freezeAll v => some v
  | _ => none

structure Inv (s : State θ) : Prop where
  alive : s.aborted = false
  exclusive : Exclusive .idle (fun t => claim (s.pc t)) s.vcpus

theorem not_lt_firstVcpu (v : Vcpu) : ¬ v < firstVcpu := Nat.not_lt_zero _

theorem claim_freezeAll (v u : Vcpu) : claim (.freezeAll v) u = if u < v then .frozen else .idle := rfl

theorem claim_thawAll (v u : Vcpu) : claim (.thawAll v) u = if u < v then .idle else .frozen := rfl

theorem claim_firstFreeze (u : Vcpu) : claim (.freezeAll firstVcpu) u = .idle := by
  rw [claim_freezeAll, if_neg (not_lt_firstVcpu u)]

theorem claim_firstThaw (u : Vcpu) : claim (.thawAll firstVcpu) u = .frozen := by
  rw [claim_thawAll, if_neg (not_lt_firstVcpu u)]

theorem claim_inside (run : Bool) (v : Vcpu) : claim (.inside run v) v = .frozen := if_pos rfl

theorem claim_nextFreeze (v u : Vcpu) :
    claim (nextVcpu v .freezeAll .insideAll) u = if u ≤ v then .frozen else .idle := by
  unfold nextVcpu
  split
  · rename_i hmore
    have hiff : u < (⟨v.val + 1, hmore⟩ : Vcpu) ↔ u ≤ v := Nat.lt_succ_iff
    simp only [claim, hiff]
  · rename_i hlast
    have hle : u ≤ v := by
      have := u.isLt
      rw [Fin.le_def]
      omega
    rw [if_pos hle]
    rfl

theorem claim_nextThaw (v u : Vcpu) :
    claim (nextVcpu v .thawAll .out) u = if u ≤ v then .idle else .frozen := by
  unfold nextVcpu
  split
  · rename_i hmore
    have hiff : u < (⟨v.val + 1, hmore⟩ : Vcpu) ↔ u ≤ v := Nat.lt_succ_iff
    simp only [claim, hiff]
  · rename_i hlast
    have hle : u ≤ v := by
      have := u.isLt
      rw [Fin.le_def]
      omega
    rw [if_pos hle]
    rfl

section Steps
variable {s s' : State θ} {t : θ} {v : Vcpu} {pc : Pc}

/-- A thread that goes on with the same virtual CPUs. -/
theorem Inv.jump (h : Inv s) (hsame : ∀ u, claim pc u = claim (s.pc t) u) : Inv (jump s t pc) := by
  refine ⟨h.alive, h.exclusive.keep fun t' u => ?_⟩
  by_cases ht : t' = t
  · subst ht
    exact (congrArg (claim · u) (Function.update_self ..)).trans (hsame u)
  · exact congrArg (claim · u) (Function.update_of_ne ht ..)

/-- A thread that changes the state of one virtual CPU, its own or an idle one. -/
theorem Inv.moved (h : Inv s) (hmine : claim (s.pc t) v ≠ .idle ∨ s.vcpus v = .idle)
    (hother : ∀ u, u ≠ v → claim pc u = claim (s.pc t) u) :
    Inv { s with
      vcpus := Function.update s.vcpus v (claim pc v)
      pc := Function.update s.pc t pc } := by
  have hmove : Exclusive .idle (fun t' => claim (Function.update s.pc t pc t'))
      (Function.update s.vcpus v (claim (Function.update s.pc t pc t) v)) := by
    refine h.exclusive.move hmine fun t' u hne => ?_
    by_cases ht : t' = t
    · subst ht
      rw [Function.update_self]
      exact hother u (hne.resolve_left fun h => h rfl)
    · rw [Function.update_of_ne ht]
  rw [Function.update_self] at hmove
  exact ⟨h.alive, hmove⟩

theorem setState_freeze (s : State θ) (t : θ) (v : Vcpu) (pc : Pc) :
    setState s t v .frozen true pc = if s.vcpus v = .idle then
      some { s with vcpus := Function.update s.vcpus v .frozen, pc := Function.update s.pc t pc }
    else none := by
  unfold setState
  cases s.vcpus v
  all_goals rfl

theorem Inv.freeze (h : Inv s) (hclaim : claim pc v = .frozen)
    (hother : ∀ u, u ≠ v → claim pc u = claim (s.pc t) u)
    (hs : setState s t v .frozen true pc = some s') : Inv s' := by
  rw [setState_freeze] at hs
  split at hs
  · rename_i hidle
    obtain rfl := Option.some.inj hs
    rw [← hclaim]
    exact h.moved (Or.inr hidle) hother
  · cases hs

/-- A transition that is foreseen, of a virtual CPU that the thread has. -/
theorem Inv.change (h : Inv s) {pc' : Pc} {newstate : VcpuState} (hpc : s.pc t = pc')
    (hne : claim pc' v ≠ .idle)
    (hallowed : vcpuSetStateLocked (claim pc' v) newstate false = .set newstate)
    (hclaim : claim pc v = newstate) (hother : ∀ u, u ≠ v → claim pc u = claim pc' u) :
    ∃ s', setState s t v newstate false pc = some s' ∧ Inv s' := by
  subst hpc
  refine ⟨_, ?_, h.moved (Or.inl hne) hother⟩
  rw [setState, h.exclusive.held hne, hallowed, hclaim]

theorem claim_at {st : VcpuState} : (if v = v then st else .idle) = st := if_pos rfl

theorem claim_other {u : Vcpu} (hu : u ≠ v) (st : VcpuState) :
    (if u = v then st else VcpuState.idle) = .idle := if_neg hu

/-- Between two places where a thread has the same virtual CPU it has no other. -/
theorem only_one {u : Vcpu} (hu : u ≠ v) (st st' : VcpuState) :
    (if u = v then st else VcpuState.idle) = if u = v then st' else .idle := by
  rw [claim_other hu, claim_other hu]

theorem Inv.change_one (h : Inv s) {pc' : Pc} {st newstate : VcpuState} (hpc : s.pc t = pc')
    (hold : ∀ u, claim pc' u = if u = v then st else .idle)
    (hnew : ∀ u, claim pc u = if u = v then newstate else .idle) (hne : st ≠ .idle)
    (hallowed : vcpuSetStateLocked st newstate false = .set newstate) :
    ∃ s', setState s t v newstate false pc = some s' ∧ Inv s' := by
  have hat : claim pc' v = st := (hold v).trans claim_at
  refine h.change hpc ?_ ?_ ((hnew v).trans claim_at) fun u hu => ?_
  · rw [hat]
    exact hne
  · rw [hat]
    exact hallowed
  · rw [hold u, hnew u]
    exact only_one hu newstate st

/-- Where a thread is that has nothing to wait for, it can go on. -/
theorem Inv.goOn (h : Inv s) (hout : s.pc t ≠ .out)
    (hfree : ∀ v, wants (s.pc t) = some v → s.vcpus v = .idle) :
    ∃ s', goOn s t (s.pc t) = some s' ∧ Inv s' := by
  cases hpc : s.pc t with
  | out => exact absurd hpc hout
  | freeze run v =>
    have hidle := hfree v (by rw [hpc]; rfl)
    have hset := setState_freeze s t v (.inside run v)
    rw [if_pos hidle] at hset
    refine ⟨_, hset, h.freeze (claim_inside run v) (fun u hu => ?_) hset⟩
    rw [hpc]
    exact claim_other hu _
  | inside run v =>
    exact h.change_one hpc (fun _ => rfl) (fun _ => (ite_self _).symm) (by decide : VcpuState.frozen ≠ .idle) rfl
  | running v =>
    exact h.change_one hpc (fun _ => rfl) (fun _ => rfl) (by decide : VcpuState.running ≠ .idle) rfl
  | sleeping v =>
    exact h.change_one hpc (fun _ => rfl) (fun _ => rfl) (by decide : VcpuState.sleeping ≠ .idle) rfl
  | freezeAll v =>
    have hidle := hfree v (by rw [hpc]; rfl)
    have hset := setState_freeze s t v (nextVcpu v .freezeAll .insideAll)
    rw [if_pos hidle] at hset
    refine ⟨_, hset, h.freeze ((claim_nextFreeze v v).trans (if_pos (le_refl v))) (fun u hu => ?_) hset⟩
    rw [claim_nextFreeze, hpc]
    simp only [claim, lt_iff_le_and_ne, ne_eq, hu, not_false_eq_true, and_true]
  | insideAll =>
    refine ⟨_, rfl, h.jump fun u => ?_⟩
    rw [hpc]
    exact claim_firstThaw u
  | thawAll v =>
    have hheld : claim (.thawAll v) v = .frozen := if_neg (lt_irrefl v)
    refine h.change hpc (by rw [hheld]; decide) (by rw [hheld]; rfl)
      ((claim_nextThaw v v).trans (if_pos (le_refl v))) fun u hu => ?_
    rw [claim_nextThaw]
    simp only [claim, lt_iff_le_and_ne, ne_eq, hu, not_false_eq_true, and_true]

theorem next_go (halive : s.aborted = false) : next s (t, .go) = VcpuLock.goOn s t (s.pc t) := by
  simp only [next, halive, Bool.false_eq_true, if_false]

/-- The virtual CPUs that a thread waits for. -/
theorem goOn_wants (h : VcpuLock.goOn s t (s.pc t) = some s') :
    ∀ v, wants (s.pc t) = some v → s.vcpus v = .idle := by
  intro v hv
  cases hpc : s.pc t with
  | freeze run v' =>
    rw [hpc] at h hv
    obtain rfl := Option.some.inj hv
    by_contra hne
    rw [VcpuLock.goOn, setState_freeze, if_neg hne] at h
    cases h
  | freezeAll v' =>
    rw [hpc] at h hv
    obtain rfl := Option.some.inj hv
    by_contra hne
    rw [VcpuLock.goOn, setState_freeze, if_neg hne] at h
    cases h
  | _ =>
    rw [hpc] at hv
    cases hv

theorem Inv.next {a : θ × Act} (h : Inv s) (hs : next s a = some s') : Inv s' := by
  obtain ⟨t, a⟩ := a
  have halive := h.alive
  simp only [VcpuLock.next, halive, Bool.false_eq_true, if_false] at hs
  split at hs
  · rename_i hpc
    obtain rfl := Option.some.inj hs
    exact h.jump fun u => by rw [hpc]; rfl
  · rename_i hpc
    obtain rfl := Option.some.inj hs
    exact h.jump fun u => by rw [hpc]; exact claim_firstFreeze u
  · rename_i v hpc
    obtain ⟨s'', hset, hinv⟩ := @Inv.change_one _ _ _ t v (.running v) h _ _ _ hpc (fun _ => rfl) (fun _ => rfl)
      (by decide : VcpuState.frozen ≠ .idle) rfl
    rwa [Option.some.inj (hs.symm.trans hset)]
  · rename_i v hpc
    obtain ⟨s'', hset, hinv⟩ := @Inv.change_one _ _ _ t v (.sleeping v) h _ _ _ hpc (fun _ => rfl) (fun _ => rfl)
      (by decide : VcpuState.frozen ≠ .idle) rfl
    rwa [Option.some.inj (hs.symm.trans hset)]
  · rename_i pc hpc
    have hout : s.pc t ≠ .out := by
      intro hout
      rw [hout] at hs
      cases hs
    obtain ⟨s'', hgo, hinv⟩ := h.goOn hout (goOn_wants hs)
    rwa [Option.some.inj (hs.symm.trans hgo)]
  · cases hs

end Steps

/-! ## Every run -/

omit [DecidableEq θ] in
theorem start_inv {s : State θ} (h : Start s) : Inv s where
  alive := h.2.2
  exclusive := .start (fun t v => by rw [h.2.1 t]; rfl) h.1

theorem reachable_inv {s : State θ} (h : (system θ).Reachable s) : Inv s :=
  System.Inductive.reachable ⟨fun _ => start_inv, fun _ _ _ h => h.next⟩ h

/-- A thread waits only for what comes behind all it has. -/
theorem wants_ascend {pc : Pc} {v u : Vcpu} (hwant : wants pc = some v) (hheld : claim pc u ≠ .idle) :
    u < v := by
  cases pc with
  | freeze run v' => exact absurd rfl hheld
  | freezeAll v' =>
    obtain rfl := Option.some.inj hwant
    by_contra hlt
    exact hheld (if_neg hlt)
  | _ => cases hwant

structure Safe (s : State θ) : Prop where
  /-- No transition has failed. -/
  alive : s.aborted = false
  /-- A virtual CPU that is not idle has one thread, and is in the state that thread has put it. -/
  exclusive : Exclusive .idle (fun t => claim (s.pc t)) s.vcpus
  /-- A call for all virtual CPUs has them for itself. -/
  alone : ∀ {t t' v}, s.pc t = .insideAll → t' ≠ t → claim (s.pc t') v = .idle
  /-- Not all threads that are in a call wait. -/
  live : (∃ t, s.pc t ≠ .out) → ∃ t s', s.pc t ≠ .out ∧ next s (t, .go) = some s'

theorem vcpuState_safe {s : State θ} (h : (system θ).Reachable s) : Safe s := by
  have hinv := reachable_inv h
  have hgo : ∀ t, s.pc t ≠ .out → (∀ v, wants (s.pc t) = some v → s.vcpus v = .idle) →
      ∃ t s', s.pc t ≠ .out ∧ next s (t, .go) = some s' := by
    intro t hout hfree
    obtain ⟨s', hs', -⟩ := hinv.goOn hout hfree
    exact ⟨t, s', hout, (next_go hinv.alive).trans hs'⟩
  refine ⟨hinv.alive, hinv.exclusive, fun {t t' v} hall hne => ?_, fun ⟨t, hout⟩ => ?_⟩
  · by_contra hheld
    refine hne (hinv.exclusive.unique hheld ?_)
    rw [hall]
    exact nofun
  · by_cases hwait : ∃ v, wants (s.pc t) = some v ∧ s.vcpus v ≠ .idle
    · obtain ⟨v, -, hbusy⟩ := hwait
      obtain ⟨t', v', hheld, hfree⟩ := @exists_not_waiting _ _ _ _ (fun t => wants (s.pc t))
        (fun t v => claim (s.pc t) v ≠ .idle) (fun hwant hheld => wants_ascend hwant hheld) v
        (hinv.exclusive.owner hbusy)
      refine hgo t' (fun hout' => hheld (by rw [hout']; rfl)) fun u hu => ?_
      by_contra hne
      exact hfree u hu (hinv.exclusive.owner hne)
    · refine hgo t hout fun v hv => ?_
      by_contra hne
      exact hwait ⟨v, hv, hne⟩

/-- One thread runs a virtual CPU, and the other waits for it on the way to all of them. -/
theorem vcpuState_safe_waiting : ∃ s, (system Bool).Reachable s ∧ s.vcpus ⟨1, by decide⟩ = .running ∧
    s.pc true = .freezeAll ⟨1, by decide⟩ ∧ Safe s := by
  have hrun : (System.exec next (⟨fun _ => .idle, fun _ => .out, false⟩ : State Bool)
      [(false, .call true ⟨1, by decide⟩), (false, .go), (false, .enter), (true, .callAll), (true, .go)]).map
      (fun s => (s.vcpus ⟨1, by decide⟩, s.pc true)) = some (.running, .freezeAll ⟨1, by decide⟩) := by
    decide
  obtain ⟨s, hs, hobs⟩ := Option.map_eq_some_iff.1 hrun
  have hr : (system Bool).Reachable s :=
    System.exec_reachable (.init ⟨fun _ => rfl, fun _ => rfl, rfl⟩) hs
  exact ⟨s, hr, congrArg Prod.fst hobs, congrArg Prod.snd hobs, vcpuState_safe hr⟩

end Xhyve.Vmm.VcpuLock
