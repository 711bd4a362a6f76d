import Mathlib.Tactic.Common

/-!
# Labelled transition systems and their invariants

A system is an initial predicate and a labelled step relation. Invariants are
proved once per label and then hold of every reachable state; restricting a
system to the steps that meet a side condition keeps the same states and labels.
Nothing here fixes what a state or a label is.
-/

namespace Xhyve.Lib

universe u v

structure System (σ : Type u) (α : Type v) where
  init : σ → Prop
  step : σ → α → σ → Prop

namespace System

variable {σ : Type u} {α : Type v}

/-- The states some finite sequence of steps leads to. -/
inductive Reachable (S : System σ α) : σ → Prop
  | init {s : σ} : S.init s → Reachable S s
  | step {s t : σ} {a : α} : Reachable S s → S.step s a t → Reachable S t

/-- The same system, taking only those steps whose source and label meet `ok`. -/
def restrict (S : System σ α) (ok : σ → α → Prop) : System σ α where
  init := S.init
  step s a t := ok s a ∧ S.step s a t

/-- Holds at the start and across every step. -/
structure Inductive (S : System σ α) (inv : σ → Prop) : Prop where
  init : ∀ s, S.init s → inv s
  step : ∀ s a t, inv s → S.step s a t → inv t

theorem Inductive.reachable {S : System σ α} {inv : σ → Prop} (h : S.Inductive inv)
    {s : σ} (hr : S.Reachable s) : inv s := by
  induction hr with
  | init hi => exact h.init _ hi
  | step _ hs ih => exact h.step _ _ _ ih hs

/-- Two side conditions, one after the other. -/
theorem Reachable.restrict_restrict {S : System σ α} {ok ok' : σ → α → Prop} {s : σ}
    (h : (S.restrict fun s a => ok s a ∧ ok' s a).Reachable s) :
    ((S.restrict ok).restrict ok').Reachable s := by
  induction h with
  | init hi => exact .init hi
  | step _ hs ih => exact ih.step ⟨hs.1.2, hs.1.1, hs.2⟩

/-- A system whose step is a partial function of the state and the label. -/
def ofFn (init : σ → Prop) (next : σ → α → Option σ) : System σ α where
  init := init
  step s a t := next s a = some t

/-- Executes a list of labels, stopping at the first one that is not enabled. -/
def exec (next : σ → α → Option σ) : σ → List α → Option σ
  | s, [] => some s
  | s, a :: as => (next s a).bind (exec next · as)

theorem exec_append (next : σ → α → Option σ) (s : σ) (as bs : List α) :
    exec next s (as ++ bs) = (exec next s as).bind (exec next · bs) := by
  induction as generalizing s with
  | nil => rfl
  | cons a as ih =>
    simp only [List.cons_append, exec, ih, Option.bind_assoc]

theorem exec_reachable {init : σ → Prop} {next : σ → α → Option σ} :
    ∀ {as : List α} {s t : σ}, (ofFn init next).Reachable s → exec next s as = some t →
      (ofFn init next).Reachable t := by
  intro as
  induction as with
  | nil =>
    intro s t hr h
    obtain rfl := Option.some.inj h
    exact hr
  | cons a as ih =>
    intro s t hr h
    obtain ⟨m, hm, hrest⟩ := Option.bind_eq_some_iff.mp h
    exact ih (hr.step hm) hrest

/-- A system whose steps are all enabled runs through any list of labels. -/
theorem reachable_foldl {init : σ → Prop} {f : σ → α → σ} :
    ∀ (as : List α) {s : σ}, (ofFn init fun s a => some (f s a)).Reachable s →
      (ofFn init fun s a => some (f s a)).Reachable (as.foldl f s) := by
  intro as
  induction as with
  | nil => exact fun h => h
  | cons a as ih =>
    intro s h
    exact ih (h.step rfl)

/-- A run none of whose labels the side condition can refuse. -/
theorem exec_reachable_restrict {init : σ → Prop} {next : σ → α → Option σ} {ok : σ → α → Prop} :
    ∀ {as : List α} {s t : σ}, (∀ a ∈ as, ∀ s, ok s a) →
      ((ofFn init next).restrict ok).Reachable s → exec next s as = some t →
      ((ofFn init next).restrict ok).Reachable t := by
  intro as
  induction as with
  | nil =>
    intro s t _ hr h
    obtain rfl := Option.some.inj h
    exact hr
  | cons a as ih =>
    intro s t hok hr h
    obtain ⟨m, hm, hrest⟩ := Option.bind_eq_some_iff.mp h
    exact ih (fun b hb => hok b (by simp [hb])) (hr.step ⟨hok a (by simp) s, hm⟩) hrest

/-- The step function that checks the side condition. -/
def guarded (ok : σ → α → Prop) [∀ s a, Decidable (ok s a)] (next : σ → α → Option σ) (s : σ)
    (a : α) : Option σ :=
  if ok s a then next s a else none

theorem exec_reachable_guarded {init : σ → Prop} {next : σ → α → Option σ} {ok : σ → α → Prop}
    [∀ s a, Decidable (ok s a)] :
    ∀ {as : List α} {s t : σ}, ((ofFn init next).restrict ok).Reachable s →
      exec (guarded ok next) s as = some t →
      ((ofFn init next).restrict ok).Reachable t := by
  intro as
  induction as with
  | nil =>
    intro s t hr h
    obtain rfl := Option.some.inj h
    exact hr
  | cons a as ih =>
    intro s t hr h
    obtain ⟨m, hm, hrest⟩ := Option.bind_eq_some_iff.mp h
    unfold guarded at hm
    split at hm
    · rename_i hok
      exact ih (hr.step ⟨hok, hm⟩) hrest
    · cases hm

/-- Labels that bring a measure down lead to the goal. -/
theorem exists_exec_of_progress {next : σ → α → Option σ} (inv goal : σ → Prop) (ok : α → Prop)
    (μ : σ → Nat)
    (hprog : ∀ s, inv s → ¬ goal s → ∃ a, ok a ∧ ∃ t, next s a = some t ∧ inv t ∧ μ t < μ s)
    {s : σ} (hs : inv s) :
    ∃ as, (∀ a ∈ as, ok a) ∧ ∃ t, exec next s as = some t ∧ inv t ∧ goal t := by
  induction hn : μ s using Nat.strongRecOn generalizing s with
  | _ n ih =>
    by_cases hg : goal s
    · exact ⟨[], by simp, s, rfl, hs, hg⟩
    · obtain ⟨a, ha, t, hat, ht, hlt⟩ := hprog s hs hg
      obtain ⟨as, has, u, hu, hend⟩ := ih (μ t) (hn ▸ hlt) ht rfl
      refine ⟨a :: as, ?_, u, ?_, hend⟩
      · intro b hb
        rcases List.mem_cons.mp hb with rfl | hb
        · exact ha
        · exact has b hb
      · rw [exec, hat, Option.bind_some, hu]

/-- What holds of each step of a run, of the state it starts from and its label. -/
def Along (f : σ → α → σ) (R : σ → α → Prop) : σ → List α → Prop
  | _, [] => True
  | s, a :: as => R s a ∧ Along f R (f s a) as

/-- Where a step keeps `P` exactly when it meets `K`, a run has `P` after each step exactly when
each of its steps meets `K`. -/
theorem along_iff {f : σ → α → σ} {P : σ → Prop} {L K : σ → α → Prop}
    (h : ∀ s a, P s → L s a → (P (f s a) ↔ K s a)) :
    ∀ {as : List α} {s : σ}, P s → Along f L s as →
      (Along f (fun s a => P (f s a)) s as ↔ Along f K s as) := by
  intro as
  induction as with
  | nil => exact fun _ _ => Iff.rfl
  | cons a as ih =>
    intro s hs hl
    obtain ⟨hla, hrest⟩ := hl
    constructor
    · intro ⟨hp, hps⟩
      exact ⟨(h s a hs hla).mp hp, (ih hp hrest).mp hps⟩
    · intro ⟨hk, hks⟩
      have hp := (h s a hs hla).mpr hk
      exact ⟨hp, (ih hp hrest).mpr hks⟩

end System

/-- A computation that succeeds does so step by step. -/
theorem bind_ok {ε α β : Type} {x : Except ε α} {f : α → Except ε β} {r : β}
    (h : x >>= f = .ok r) : ∃ a, x = .ok a ∧ f a = .ok r := by
  cases x with
  | error e => cases h
  | ok a => exact ⟨a, rfl, h⟩

/-- A bounded loop that can stop with an error: the invariant is carried from one turn to the
next, and no turn fails. -/
theorem foldlM_range_ok {ε σ : Type} {f : σ → Nat → Except ε σ} (inv : Nat → σ → Prop) {n : Nat}
    (hstep : ∀ i < n, ∀ s, inv i s → ∃ t, f s i = .ok t ∧ inv (i + 1) t) {s : σ} (h0 : inv 0 s) :
    ∃ t, (List.range n).foldlM f s = .ok t ∧ inv n t := by
  induction n with
  | zero => exact ⟨s, rfl, h0⟩
  | succ n ih =>
    obtain ⟨m, hm, hinv⟩ := ih fun i hi => hstep i (Nat.lt_succ_of_lt hi)
    obtain ⟨t, ht, hinv'⟩ := hstep n (Nat.lt_succ_self n) m hinv
    refine ⟨t, ?_, hinv'⟩
    rw [List.range_succ, List.foldlM_append, hm]
    change (List.foldlM f m [n]) = _
    rw [List.foldlM_cons, ht]
    rfl

/-- The same loop, of which only is known that it came to its end. -/
theorem foldlM_range_inv {ε σ : Type} {f : σ → Nat → Except ε σ} (inv : Nat → σ → Prop) {n : Nat}
    (hstep : ∀ i < n, ∀ s t, inv i s → f s i = .ok t → inv (i + 1) t) {s t : σ} (h0 : inv 0 s)
    (h : (List.range n).foldlM f s = .ok t) : inv n t := by
  induction n generalizing t with
  | zero =>
    cases h
    exact h0
  | succ n ih =>
    rw [List.range_succ, List.foldlM_append] at h
    obtain ⟨m, hm, hlast⟩ := bind_ok h
    have hfm : f m n = .ok t := by
      rw [List.foldlM_cons] at hlast
      obtain ⟨r, hr, hnil⟩ := bind_ok hlast
      cases hnil
      exact hr
    exact hstep n (Nat.lt_succ_self n) m t
      (ih (fun i hi => hstep i (Nat.lt_succ_of_lt hi)) hm) hfm

/-- A loop over a list that can stop with an error, with the number of turns. -/
theorem foldlM_list_inv {ε σ α : Type} {f : σ → α → Except ε σ} (inv : Nat → σ → Prop)
    (hstep : ∀ k a s t, inv k s → f s a = .ok t → inv (k + 1) t) :
    ∀ {l : List α} {k : Nat} {s t : σ}, inv k s → l.foldlM f s = .ok t → inv (k + l.length) t := by
  intro l
  induction l with
  | nil =>
    intro k s t h hok
    obtain rfl := Except.ok.inj hok
    exact h
  | cons a l ih =>
    intro k s t h hok
    rw [List.foldlM_cons] at hok
    obtain ⟨m, hm, hrest⟩ := bind_ok hok
    have hlen : k + (a :: l).length = k + 1 + l.length := by
      rw [List.length_cons]
      omega
    rw [hlen]
    exact ih (hstep k a s m h hm) hrest

end Xhyve.Lib
