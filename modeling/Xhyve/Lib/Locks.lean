import Mathlib.Logic.Function.Basic
import Xhyve.Lib.Transition

/-!
# Threads and mutexes

Threads of given programs, with shared variables and mutexes that are not recursive: a lock waits until nobody has the
mutex, the thread itself included. Where every program point says which mutexes are held there, and the programs keep to it,
a mutex has the owner the program points say.
-/

namespace Xhyve.Lib.Locks

/-- An instruction over mutexes `μ`, program points `ρ` and shared variables `φ`, with where it goes on. -/
inductive Instr (μ ρ φ : Type)
  | lock (m : μ) (next : ρ)
  | unlock (m : μ) (next : ρ)
  | jump (v : φ) (next : ρ)

/-- Where an instruction goes on, -/
def Instr.next {μ ρ φ : Type} : Instr μ ρ φ → ρ
  | .lock _ q => q
  | .unlock _ q => q
  | .jump _ q => q

/-- and the shared variables behind it. -/
def Instr.result {μ ρ φ : Type} (v : φ) : Instr μ ρ φ → φ
  | .lock _ _ => v
  | .unlock _ _ => v
  | .jump w _ => w

/-- A step of a thread, with what data it finds, or a change from outside. -/
inductive Act (θ χ ε : Type)
  | run (t : θ) (c : χ)
  | env (e : ε)
deriving DecidableEq, Repr

/-- The code of each thread at each point, and what happens from outside. -/
structure Program (θ μ ρ φ χ ε : Type) where
  code : θ → ρ → χ → φ → Option (Instr μ ρ φ)
  env : ε → φ → φ

structure Machine (θ μ ρ φ : Type) where
  pc : θ → ρ
  owner : μ → Option θ
  shared : φ

variable {θ μ ρ φ χ ε : Type} [DecidableEq θ] [DecidableEq μ]

def exec (s : Machine θ μ ρ φ) (t : θ) : Instr μ ρ φ → Option (Machine θ μ ρ φ)
  | .lock m next =>
    if s.owner m = none then
      some { s with pc := Function.update s.pc t next, owner := Function.update s.owner m (some t) }
    else none
  | .unlock m next =>
    some { s with pc := Function.update s.pc t next, owner := Function.update s.owner m none }
  | .jump v next => some { s with pc := Function.update s.pc t next, shared := v }

def next (P : Program θ μ ρ φ χ ε) (s : Machine θ μ ρ φ) : Act θ χ ε → Option (Machine θ μ ρ φ)
  | .run t c => (P.code t (s.pc t) c s.shared).bind (exec s t)
  | .env e => some { s with shared := P.env e s.shared }

/-- What a step can do. -/
inductive Step (P : Program θ μ ρ φ χ ε) (s t : Machine θ μ ρ φ) : Act θ χ ε → Prop
  | lock {i : θ} {c : χ} {m : μ} {q : ρ} (hcode : P.code i (s.pc i) c s.shared = some (.lock m q)) (hfree : s.owner m = none)
      (heq : t = { s with pc := Function.update s.pc i q, owner := Function.update s.owner m (some i) }) : Step P s t (.run i c)
  | unlock {i : θ} {c : χ} {m : μ} {q : ρ} (hcode : P.code i (s.pc i) c s.shared = some (.unlock m q))
      (heq : t = { s with pc := Function.update s.pc i q, owner := Function.update s.owner m none }) : Step P s t (.run i c)
  | jump {i : θ} {c : χ} {v : φ} {q : ρ} (hcode : P.code i (s.pc i) c s.shared = some (.jump v q))
      (heq : t = { s with pc := Function.update s.pc i q, shared := v }) : Step P s t (.run i c)
  | env {e : ε} (heq : t = { s with shared := P.env e s.shared }) : Step P s t (.env e)

theorem next_step {P : Program θ μ ρ φ χ ε} {s t : Machine θ μ ρ φ} {a : Act θ χ ε} (h : next P s a = some t) :
    Step P s t a := by
  cases a with
  | env e =>
    obtain rfl := Option.some.inj h
    exact .env rfl
  | run i c =>
    obtain ⟨x, hcode, hexec⟩ := Option.bind_eq_some_iff.mp h
    cases x with
    | lock m q =>
      unfold exec at hexec
      dsimp only at hexec
      split at hexec
      · rename_i hfree
        obtain rfl := Option.some.inj hexec
        exact .lock hcode hfree rfl
      · cases hexec
    | unlock m q =>
      obtain rfl := Option.some.inj hexec
      exact .unlock hcode rfl
    | jump v q =>
      obtain rfl := Option.some.inj hexec
      exact .jump hcode rfl

/-- What becomes of the thread and of the shared variables. -/
theorem next_run {P : Program θ μ ρ φ χ ε} {s t : Machine θ μ ρ φ} {i : θ} {c : χ} (h : next P s (.run i c) = some t) :
    ∃ x, P.code i (s.pc i) c s.shared = some x ∧ t.pc = Function.update s.pc i x.next ∧ t.shared = x.result s.shared := by
  cases next_step h with
  | lock hcode hfree heq => exact ⟨_, hcode, by rw [heq]; rfl, by rw [heq]; rfl⟩
  | unlock hcode heq => exact ⟨_, hcode, by rw [heq]; rfl, by rw [heq]; rfl⟩
  | jump hcode heq => exact ⟨_, hcode, by rw [heq]; rfl, by rw [heq]; rfl⟩

/-! ## Which mutexes are held where -/

/-- The programs keep to what is said of the points that are `live`; a lock of a mutex that is held leads nowhere. -/
structure Annotated (P : Program θ μ ρ φ χ ε) (live : θ → ρ → Prop) (holds : θ → ρ → μ → Bool) : Prop where
  lock : ∀ {i p c v m q}, live i p → P.code i p c v = some (.lock m q) → holds i p m = false →
    live i q ∧ ∀ m', holds i q m' = (decide (m' = m) || holds i p m')
  unlock : ∀ {i p c v m q}, live i p → P.code i p c v = some (.unlock m q) →
    live i q ∧ holds i p m = true ∧ ∀ m', holds i q m' = (decide (m' ≠ m) && holds i p m')
  jump : ∀ {i p c v w q}, live i p → P.code i p c v = some (.jump w q) → live i q ∧ ∀ m', holds i q m' = holds i p m'

/-- All threads are at live points, and the owner of a mutex is the thread at a point where it is held. -/
structure Owned (live : θ → ρ → Prop) (holds : θ → ρ → μ → Bool) (s : Machine θ μ ρ φ) : Prop where
  live : ∀ i, live i (s.pc i)
  owner : ∀ m i, s.owner m = some i ↔ holds i (s.pc i) m = true

section Owned
variable {P : Program θ μ ρ φ χ ε} {live : θ → ρ → Prop} {holds : θ → ρ → μ → Bool} {s t : Machine θ μ ρ φ} {a : Act θ χ ε}

/-- Two threads do not hold the same mutex. -/
theorem Owned.unique (ho : Owned live holds s) {m : μ} {i j : θ} (hi : holds i (s.pc i) m = true)
    (hj : holds j (s.pc j) m = true) : i = j := by
  have hown := (ho.owner m i).mpr hi
  rw [(ho.owner m j).mpr hj] at hown
  exact (Option.some.inj hown).symm

theorem Owned.moved (ho : Owned live holds s) {i : θ} {q : ρ} (hq : live i q) (j : θ) : live j (Function.update s.pc i q j) := by
  by_cases hj : j = i
  · subst hj
    rwa [Function.update_self]
  · rw [Function.update_of_ne hj]
    exact ho.live j

theorem Owned.step (hp : Annotated P live holds) (ho : Owned live holds s) (h : Step P s t a) : Owned live holds t := by
  cases h with
  | @lock i c m₀ q hcode hfree heq =>
    subst heq
    have hnot : holds i (s.pc i) m₀ = false := by
      rw [Bool.eq_false_iff, ne_eq, ← ho.owner, hfree]
      exact nofun
    obtain ⟨hlive, hq⟩ := hp.lock (ho.live i) hcode hnot
    refine ⟨ho.moved hlive, fun m j => ?_⟩
    dsimp only
    by_cases hm : m = m₀
    · subst hm
      rw [Function.update_self, Option.some.injEq]
      by_cases hj : j = i
      · subst hj
        rw [Function.update_self, hq]
        simp
      · rw [Function.update_of_ne hj, ← ho.owner m j, hfree]
        simp [Ne.symm hj]
    · rw [Function.update_of_ne hm, ho.owner m j]
      by_cases hj : j = i
      · subst hj
        rw [Function.update_self, hq]
        simp [hm]
      · rw [Function.update_of_ne hj]
  | @unlock i c m₀ q hcode heq =>
    subst heq
    obtain ⟨hlive, hheld, hq⟩ := hp.unlock (ho.live i) hcode
    refine ⟨ho.moved hlive, fun m j => ?_⟩
    dsimp only
    by_cases hm : m = m₀
    · subst hm
      rw [Function.update_self]
      by_cases hj : j = i
      · subst hj
        rw [Function.update_self, hq]
        simp
      · have hnot : ¬ holds j (s.pc j) m = true := fun hheld' => hj (ho.unique hheld' hheld)
        rw [Function.update_of_ne hj]
        simpa using hnot
    · rw [Function.update_of_ne hm, ho.owner m j]
      by_cases hj : j = i
      · subst hj
        rw [Function.update_self, hq]
        simp [hm]
      · rw [Function.update_of_ne hj]
  | @jump i c v q hcode heq =>
    subst heq
    obtain ⟨hlive, hq⟩ := hp.jump (ho.live i) hcode
    refine ⟨ho.moved hlive, fun m j => ?_⟩
    dsimp only
    rw [ho.owner m j]
    by_cases hj : j = i
    · subst hj
      rw [Function.update_self, hq]
    · rw [Function.update_of_ne hj]
  | env heq =>
    subst heq
    exact ⟨ho.live, ho.owner⟩

end Owned

end Xhyve.Lib.Locks
