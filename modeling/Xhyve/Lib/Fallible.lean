import Mathlib.Tactic.Common

/-!
# Programs that stop early and keep their state

Programs of `EStateM` that do not catch what they throw: a stop keeps the state it happened in. `Spec`
says where a program ends and where it stops; `Never` says that from one state it does not stop for
certain reasons, and splits along the program exactly.
-/

namespace Xhyve.Lib.Fallible

universe u

variable {ε σ α β : Type u} {x : EStateM ε σ α} {f : α → EStateM ε σ β} {s t u : σ} {a : α} {b : β}
  {e : ε}

theorem bind_ok_iff : (x >>= f) s = .ok b u ↔ ∃ a t, x s = .ok a t ∧ f a t = .ok b u := by
  show EStateM.bind x f s = _ ↔ _
  unfold EStateM.bind
  cases hx : x s with
  | ok a t => simp
  | error e t => simp

theorem bind_error_iff :
    (x >>= f) s = .error e u ↔ x s = .error e u ∨ ∃ a t, x s = .ok a t ∧ f a t = .error e u := by
  show EStateM.bind x f s = _ ↔ _
  unfold EStateM.bind
  cases hx : x s with
  | ok a t => simp
  | error e t => simp

theorem bind_of_ok (h : x s = .ok a t) : (x >>= f) s = f a t := by
  show EStateM.bind x f s = _
  unfold EStateM.bind
  rw [h]

theorem bind_of_error (h : x s = .error e t) : (x >>= f) s = .error e t := by
  show EStateM.bind x f s = _
  unfold EStateM.bind
  rw [h]

/-- What comes next matters only where the first part ends. -/
theorem bind_congr_of_ok {f' : α → EStateM ε σ β} (h : ∀ a t, x s = .ok a t → f a t = f' a t) :
    (x >>= f) s = (x >>= f') s := by
  cases hx : x s with
  | ok a t => rw [bind_of_ok hx, bind_of_ok hx, h a t hx]
  | error e t => rw [bind_of_error hx, bind_of_error hx]

theorem bind_congr_run {x' : EStateM ε σ α} (h : x s = x' s) : (x >>= f) s = (x' >>= f) s := by
  cases hx : x s with
  | ok a t => rw [bind_of_ok hx, bind_of_ok (h.symm.trans hx)]
  | error e t => rw [bind_of_error hx, bind_of_error (h.symm.trans hx)]

/-- Runs the program if the condition holds. -/
def check (c : Prop) [Decidable c] (x : EStateM ε σ PUnit) : EStateM ε σ PUnit :=
  if c then x else pure ⟨⟩

theorem check_pos {c : Prop} [Decidable c] {x : EStateM ε σ PUnit} (h : c) : check c x = x := if_pos h

theorem check_neg {c : Prop} [Decidable c] {x : EStateM ε σ PUnit} (h : ¬ c) : check c x = pure ⟨⟩ :=
  if_neg h

/-- From the states of `P` the program ends in `Q` or stops in `E`. -/
def Spec (P : σ → Prop) (x : EStateM ε σ α) (Q : α → σ → Prop) (E : ε → σ → Prop) : Prop :=
  ∀ s, P s → (∀ a t, x s = .ok a t → Q a t) ∧ ∀ e t, x s = .error e t → E e t

section Rules
variable {P P' : σ → Prop} {Q Q' : α → σ → Prop} {R : β → σ → Prop} {E : ε → σ → Prop}

theorem Spec.bind (hx : Spec P x Q E) (hf : ∀ a, Spec (Q a) (f a) R E) : Spec P (x >>= f) R E := by
  intro s hs
  obtain ⟨hok, herr⟩ := hx s hs
  refine ⟨fun b u h => ?_, fun e u h => ?_⟩
  · obtain ⟨a, t, hxa, hfa⟩ := bind_ok_iff.mp h
    exact (hf a t (hok a t hxa)).1 b u hfa
  · rcases bind_error_iff.mp h with hxe | ⟨a, t, hxa, hfa⟩
    · exact herr e u hxe
    · exact (hf a t (hok a t hxa)).2 e u hfa

theorem Spec.pure (h : ∀ s, P s → Q a s) : Spec P (pure a) Q E := by
  intro s hs
  refine ⟨fun b u hb => ?_, fun e u he => by cases he⟩
  cases hb
  exact h s hs

theorem Spec.throw (h : ∀ s, P s → E e s) : Spec P (throw e : EStateM ε σ α) Q E := by
  intro s hs
  refine ⟨fun b u hb => (by cases hb), fun e u he => ?_⟩
  cases he
  exact h s hs

/-- Behind `get` the state is the one that was read. -/
theorem Spec.bind_get {f : σ → EStateM ε σ β} (h : ∀ s, P s → Spec (fun t => t = s) (f s) R E) :
    Spec P (MonadState.get >>= f) R E :=
  fun s hs => h s hs s rfl

theorem Spec.modify {Q : PUnit → σ → Prop} {g : σ → σ} (h : ∀ s, P s → Q ⟨⟩ (g s)) :
    Spec P (modify g : EStateM ε σ PUnit) Q E := by
  intro s hs
  refine ⟨fun b u hb => ?_, fun e u he => by cases he⟩
  cases hb
  exact h s hs

theorem Spec.ite {c : Prop} [Decidable c] {y : EStateM ε σ α} (hx : c → Spec P x Q E)
    (hy : ¬ c → Spec P y Q E) : Spec P (if c then x else y) Q E := by
  split
  · exact hx ‹_›
  · exact hy ‹_›

theorem Spec.check {c : Prop} [Decidable c] {x : EStateM ε σ PUnit} {Q : PUnit → σ → Prop}
    (hx : c → Spec P x Q E) (hq : ¬ c → ∀ s, P s → Q ⟨⟩ s) : Spec P (check c x) Q E :=
  Spec.ite hx fun hc => Spec.pure (hq hc)

theorem Spec.weaken {E' : ε → σ → Prop} (h : Spec P x Q E) (hp : ∀ s, P' s → P s)
    (hq : ∀ a s, Q a s → Q' a s) (he : ∀ e s, E e s → E' e s) : Spec P' x Q' E' := by
  intro s hs
  obtain ⟨hok, herr⟩ := h s (hp s hs)
  exact ⟨fun a t hx => hq a t (hok a t hx), fun e t hx => he e t (herr e t hx)⟩

/-- What every turn of a loop keeps. -/
theorem Spec.forM {l : List α} {f : α → EStateM ε σ PUnit}
    (h : ∀ a, Spec P (f a) (fun _ => P) E) : Spec P (l.forM f) (fun _ => P) E := by
  induction l with
  | nil => exact Spec.pure fun _ hs => hs
  | cons a l ih => exact Spec.bind (h a) fun _ => ih

/-- A fact that does not depend on the state. -/
theorem Spec.assume {c : Prop} (h : c → Spec P x Q E) : Spec (fun s => c ∧ P s) x Q E :=
  fun s hs => h hs.1 s hs.2

end Rules

/-- If the program gets to its end from `s`, then `P` holds there. -/
def After (x : EStateM ε σ α) (P : α → σ → Prop) (s : σ) : Prop := ∀ a t, x s = .ok a t → P a t

section After
variable {P : β → σ → Prop} {Q Q' : α → σ → Prop}

theorem After.bind (hx : After x Q s) (hf : ∀ a t, Q a t → After (f a) P t) :
    After (x >>= f) P s := by
  intro b u h
  obtain ⟨a, t, hxa, hfa⟩ := bind_ok_iff.mp h
  exact hf a t (hx a t hxa) b u hfa

theorem After.mono (h : After x Q s) (hq : ∀ a t, Q a t → Q' a t) : After x Q' s :=
  fun a t hx => hq a t (h a t hx)

theorem After.pure (h : Q a s) : After (Pure.pure a : EStateM ε σ α) Q s := by
  intro b t hb
  cases hb
  exact h

theorem After.bind_get {f : σ → EStateM ε σ β} (h : After (f s) P s) :
    After (MonadState.get >>= f) P s := h

theorem After.modify {Q : PUnit → σ → Prop} {g : σ → σ} (h : Q ⟨⟩ (g s)) :
    After (modify g : EStateM ε σ PUnit) Q s := by
  intro b t hb
  cases hb
  exact h

/-- A program that stops at once. -/
theorem After.throw : After (throw e : EStateM ε σ α) Q s := fun _ _ h => by cases h

/-- A check that stops has not been met. -/
theorem After.check_bind {c : Prop} [Decidable c] {y : EStateM ε σ PUnit} {f : PUnit → EStateM ε σ β}
    (hy : c → After y (fun _ _ => False) s) (hf : ¬ c → After (f ⟨⟩) P s) :
    After (check c y >>= f) P s := by
  by_cases hc : c
  · rw [check_pos hc]
    exact After.bind (hy hc) fun _ _ h => absurd h id
  · rw [check_neg hc]
    exact hf hc

end After

/-- From `s` the program does not stop for a reason in `bad`. -/
def Never (bad : ε → Prop) (x : EStateM ε σ α) (s : σ) : Prop := ∀ e t, x s = .error e t → ¬ bad e

section Never
variable {bad : ε → Prop} {P : β → σ → Prop}

theorem after_bind : After (x >>= f) P = After x fun a => After (f a) P := by
  funext s
  refine propext ⟨fun h a t hx b u hf => h b u (bind_ok_iff.mpr ⟨a, t, hx, hf⟩), fun h b u hxf => ?_⟩
  obtain ⟨a, t, hx, hf⟩ := bind_ok_iff.mp hxf
  exact h a t hx b u hf

theorem after_pure {P : α → σ → Prop} : After (pure a : EStateM ε σ α) P = P a := by
  funext s
  refine propext ⟨fun h => h a s rfl, fun h b t hb => ?_⟩
  cases hb
  exact h

theorem after_and {P P' : α → σ → Prop} :
    After x (fun a t => P a t ∧ P' a t) s ↔ After x P s ∧ After x P' s := by
  constructor
  · exact fun h => ⟨fun a t hx => (h a t hx).1, fun a t hx => (h a t hx).2⟩
  · exact fun h a t hx => ⟨h.1 a t hx, h.2 a t hx⟩

theorem after_forall {ι : Sort*} {P : ι → α → σ → Prop} :
    After x (fun a t => ∀ i, P i a t) s ↔ ∀ i, After x (P i) s :=
  ⟨fun h i a t hx => h a t hx i, fun h a t hx i => h i a t hx⟩

theorem never_bind : Never bad (x >>= f) s ↔
    Never bad x s ∧ After x (fun a => Never bad (f a)) s := by
  constructor
  · intro h
    refine ⟨fun e t hx => h e t (bind_error_iff.mpr (Or.inl hx)), fun a t hx e u hf => ?_⟩
    exact h e u (bind_error_iff.mpr (Or.inr ⟨a, t, hx, hf⟩))
  · intro h e u hxf
    rcases bind_error_iff.mp hxf with hx | ⟨a, t, hx, hf⟩
    · exact h.1 e u hx
    · exact h.2 a t hx e u hf

/-- Neither part stops so, wherever it starts. -/
theorem never_bind_of (hx : ∀ s, Never bad x s) (hf : ∀ a s, Never bad (f a) s) (s : σ) :
    Never bad (x >>= f) s :=
  never_bind.mpr ⟨hx s, fun a t _ => hf a t⟩

theorem never_pure : Never bad (pure a : EStateM ε σ α) s := fun e t h => by cases h

theorem never_get : Never bad (MonadState.get : EStateM ε σ σ) s := fun e t h => by cases h

theorem never_modify {g : σ → σ} : Never bad (modify g : EStateM ε σ PUnit) s := fun e t h => by cases h

theorem never_throw : Never bad (throw e : EStateM ε σ α) s ↔ ¬ bad e := by
  constructor
  · exact fun h => h e s rfl
  · intro h e' t he
    cases he
    exact h

theorem never_ite {c : Prop} [Decidable c] {y : EStateM ε σ α} (hx : c → Never bad x s)
    (hy : ¬ c → Never bad y s) : Never bad (if c then x else y) s := by
  split
  · exact hx ‹_›
  · exact hy ‹_›

theorem never_check {c : Prop} [Decidable c] {x : EStateM ε σ PUnit} (hx : c → Never bad x s) :
    Never bad (check c x) s :=
  never_ite hx fun _ => never_pure

theorem never_forM {l : List α} {f : α → EStateM ε σ PUnit} (h : ∀ a s, Never bad (f a) s) (s : σ) :
    Never bad (l.forM f) s := by
  induction l generalizing s with
  | nil => exact never_pure
  | cons a l ih => exact never_bind_of (h a) (fun _ => ih) s

end Never

/-- From the states of `P` the program avoids the reasons in `bad` exactly if `C` holds. -/
def Exact (bad : ε → Prop) (P : σ → Prop) (x : EStateM ε σ α) (C : σ → Prop) : Prop :=
  ∀ s, P s → (Never bad x s ↔ C s)

section Exact
variable {bad : ε → Prop} {P : σ → Prop} {Q : α → σ → Prop} {E : ε → σ → Prop} {C : σ → Prop}
  {D : α → σ → Prop}

theorem Exact.bind (hspec : Spec P x Q E) (hx : Exact bad P x C)
    (hf : ∀ a, Exact bad (Q a) (f a) (D a)) :
    Exact bad P (x >>= f) fun s => C s ∧ After x D s := by
  intro s hs
  rw [never_bind, hx s hs]
  refine and_congr_right fun _ => forall_congr' fun a => forall_congr' fun t => ?_
  exact imp_congr_right fun hx => hf a t ((hspec s hs).1 a t hx)

theorem Exact.congr {C' : σ → Prop} (h : Exact bad P x C) (hc : ∀ s, P s → (C s ↔ C' s)) :
    Exact bad P x C' :=
  fun s hs => (h s hs).trans (hc s hs)

theorem Exact.of_never (h : ∀ s, Never bad x s) : Exact bad P x fun _ => True :=
  fun s _ => iff_of_true (h s) trivial

theorem Exact.bind_get {f : σ → EStateM ε σ β} (h : ∀ s, P s → Exact bad (fun t => t = s) (f s) C) :
    Exact bad P (MonadState.get >>= f) C :=
  fun s hs => h s hs s rfl

/-- A check that stops so. -/
theorem Exact.refuse {c : Prop} [Decidable c] {y : EStateM ε σ PUnit} {f : PUnit → EStateM ε σ β}
    (hy : ∀ s, P s → ¬ Never bad y s) (hf : ¬ c → Exact bad P (f ⟨⟩) C) :
    Exact bad P (check c y >>= f) fun s => ¬ c ∧ C s := by
  intro s hs
  by_cases hc : c
  · rw [check_pos hc]
    exact iff_of_false (fun h => hy s hs (never_bind.mp h).1) fun h => h.1 hc
  · rw [check_neg hc]
    exact (hf hc s hs).trans (and_iff_right hc).symm

/-- And nothing behind it does. -/
theorem Exact.refuse_only {c : Prop} [Decidable c] {y : EStateM ε σ PUnit} {f : PUnit → EStateM ε σ β}
    (hy : ∀ s, P s → ¬ Never bad y s) (hf : ∀ s, Never bad (f ⟨⟩) s) :
    Exact bad P (check c y >>= f) fun _ => ¬ c :=
  (Exact.refuse hy fun _ => .of_never hf).congr fun _ _ => and_iff_left trivial

/-- Only the second part can stop so. -/
theorem Exact.behind (hspec : Spec P x Q E) (hx : ∀ s, Never bad x s)
    (hf : ∀ a, Exact bad (Q a) (f a) (D a)) : Exact bad P (x >>= f) (After x D) := by
  intro s hs
  rw [Exact.bind hspec (.of_never hx) hf s hs]
  exact and_iff_right trivial

/-- Only the first part can stop so. -/
theorem Exact.before (hx : Exact bad P x C) (hf : ∀ a s, Never bad (f a) s) :
    Exact bad P (x >>= f) C := by
  intro s hs
  rw [never_bind, hx s hs]
  exact and_iff_left fun a t _ => hf a t

end Exact

end Xhyve.Lib.Fallible
