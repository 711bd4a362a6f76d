import Mathlib.Data.List.Nodup
import Mathlib.Data.List.Sort
import Mathlib.Tactic.Common

/-!
# Intrusive doubly linked lists

Nodes of any type carry `next` and `prev` pointers. A head pointer and the two
pointer maps represent a list of distinct nodes when every node's pointers name its
neighbours. Linking a node in between two parts and unlinking it are described by
what the new pointer maps say of each node, so a program may make the writes in any
order.
-/

namespace Xhyve.Lib

universe u

variable {ι : Type u}

structure Linked (next prev : ι → Option ι) (head : Option ι) (xs : List ι) : Prop where
  head : head = xs.head?
  nodup : xs.Nodup
  next : ∀ l x r, xs = l ++ x :: r → next x = r.head?
  prev : ∀ l x r, xs = l ++ x :: r → prev x = l.getLast?

namespace Linked

variable {next prev next' prev' : ι → Option ι} {head head' : Option ι} {xs : List ι}

theorem empty (next prev : ι → Option ι) : Linked next prev none [] where
  head := rfl
  nodup := List.nodup_nil
  next l x r h := by simp at h
  prev l x r h := by simp at h

theorem congr (h : Linked next prev head xs) (hn : ∀ x ∈ xs, next' x = next x)
    (hp : ∀ x ∈ xs, prev' x = prev x) : Linked next' prev' head xs where
  head := h.head
  nodup := h.nodup
  next l x r he := by rw [hn x (by simp [he]), h.next l x r he]
  prev l x r he := by rw [hp x (by simp [he]), h.prev l x r he]

/-- The two ways a node can stand in a list that was cut before `m`. -/
theorem split_cases {l r a b : List ι} {c x : ι} (h : l ++ c :: r = a ++ x :: b) :
    (x = c ∧ a = l ∧ b = r) ∨ (∃ m, l = a ++ x :: m ∧ b = m ++ c :: r) ∨
      ∃ m, r = m ++ x :: b ∧ a = l ++ c :: m := by
  rcases List.append_eq_append_iff.mp h with ⟨m, hm, hr⟩ | ⟨m, hm, hr⟩
  · cases m with
    | nil =>
      simp only [List.nil_append, List.cons.injEq, List.append_nil] at hr hm
      exact .inl ⟨hr.1.symm, hm, hr.2.symm⟩
    | cons y m =>
      simp only [List.cons_append, List.cons.injEq] at hr
      obtain ⟨rfl, hr⟩ := hr
      exact .inr (.inr ⟨m, hr, hm⟩)
  · cases m with
    | nil =>
      simp only [List.nil_append, List.cons.injEq, List.append_nil] at hr hm
      exact .inl ⟨hr.1, hm.symm, hr.2⟩
    | cons y m =>
      simp only [List.cons_append, List.cons.injEq] at hr
      obtain ⟨rfl, hr⟩ := hr
      exact .inr (.inl ⟨m, hm, hr⟩)

theorem getLast?_ne_of_nodup {a m r : List ι} {x : ι} (h : (a ++ x :: m ++ r).Nodup)
    (hm : m ≠ []) : (a ++ x :: m).getLast? ≠ some x := by
  intro he
  rw [List.getLast?_append_of_ne_nil _ (by simp), List.getLast?_cons_of_ne_nil hm] at he
  have hx : x ∈ m := List.mem_of_getLast? he
  have hnd := (List.nodup_append.mp (List.nodup_append.mp h).1).2.1
  exact (List.nodup_cons.mp hnd).1 hx

theorem head?_ne_of_nodup {l m b : List ι} {x : ι} (h : (l ++ (m ++ x :: b)).Nodup)
    (hm : m ≠ []) : (m ++ x :: b).head? ≠ some x := by
  intro he
  obtain ⟨y, m, rfl⟩ := List.exists_cons_of_ne_nil hm
  simp only [List.cons_append, List.head?_cons, Option.some.injEq] at he
  have hnd := (List.nodup_append.mp h).2.1
  rw [List.cons_append, List.nodup_cons] at hnd
  exact hnd.1 (by simp [he])

theorem last_ne_of_mem_right {l r : List ι} {x : ι} (h : (l ++ r).Nodup) (hx : x ∈ r) :
    l.getLast? ≠ some x := fun he =>
  (List.nodup_append.mp h).2.2 x (List.mem_of_getLast? he) x hx rfl

theorem head_ne_of_mem_left {l r : List ι} {x : ι} (h : (l ++ r).Nodup) (hx : x ∈ l) :
    r.head? ≠ some x := fun he =>
  (List.nodup_append.mp h).2.2 x hx x (List.mem_of_head? he) rfl

/-- Linking `c` in between `l` and `r`. -/
theorem insert {l r : List ι} {c : ι} (h : Linked next prev head (l ++ r)) (hc : c ∉ l ++ r)
    (hhead : head' = (l ++ [c]).head?) (hcn : next' c = r.head?) (hcp : prev' c = l.getLast?)
    (hlast : ∀ x, l.getLast? = some x → next' x = some c)
    (hnext : ∀ x ∈ l ++ r, l.getLast? ≠ some x → next' x = next x)
    (hfirst : ∀ x, r.head? = some x → prev' x = some c)
    (hprev : ∀ x ∈ l ++ r, r.head? ≠ some x → prev' x = prev x) :
    Linked next' prev' head' (l ++ c :: r) where
  head := by
    rw [hhead]
    cases l <;> rfl
  nodup := by
    rw [List.nodup_middle, List.nodup_cons]
    exact ⟨hc, h.nodup⟩
  next a x b he := by
    rcases split_cases he with ⟨rfl, rfl, rfl⟩ | ⟨m, rfl, rfl⟩ | ⟨m, rfl, rfl⟩
    · exact hcn
    · by_cases hm : m = []
      · subst hm
        exact hlast x (by simp)
      · rw [hnext x (by simp) (getLast?_ne_of_nodup h.nodup hm),
          h.next a x (m ++ r) (by simp)]
        obtain ⟨y, m, rfl⟩ := List.exists_cons_of_ne_nil hm
        rfl
    · rw [hnext x (by simp) (last_ne_of_mem_right h.nodup (by simp)),
        h.next (l ++ m) x b (by simp)]
  prev a x b he := by
    rcases split_cases he with ⟨rfl, rfl, rfl⟩ | ⟨m, rfl, rfl⟩ | ⟨m, rfl, rfl⟩
    · exact hcp
    · rw [hprev x (by simp) (head_ne_of_mem_left h.nodup (by simp)),
        h.prev a x (m ++ r) (by simp)]
    · by_cases hm : m = []
      · subst hm
        rw [hfirst x (by simp)]
        simp
      · rw [hprev x (by simp) (head?_ne_of_nodup h.nodup hm),
          h.prev (l ++ m) x b (by simp), List.getLast?_append_of_ne_nil _ hm,
          List.getLast?_append_of_ne_nil _ (by simp), List.getLast?_cons_of_ne_nil hm]

/-- Unlinking `c` from between `l` and `r`. -/
theorem remove {l r : List ι} {c : ι} (h : Linked next prev head (l ++ c :: r))
    (hhead : head' = (l ++ r).head?)
    (hlast : ∀ x, l.getLast? = some x → next' x = r.head?)
    (hnext : ∀ x ∈ l ++ r, l.getLast? ≠ some x → next' x = next x)
    (hfirst : ∀ x, r.head? = some x → prev' x = l.getLast?)
    (hprev : ∀ x ∈ l ++ r, r.head? ≠ some x → prev' x = prev x) :
    Linked next' prev' head' (l ++ r) := by
  have hnd : (l ++ r).Nodup := (List.nodup_cons.mp (List.nodup_middle.mp h.nodup)).2
  refine ⟨hhead, hnd, fun a x b he => ?_, fun a x b he => ?_⟩
  · rcases List.append_eq_append_iff.mp he with ⟨m, rfl, rfl⟩ | ⟨m, rfl, hr⟩
    · rw [hnext x (by simp) (last_ne_of_mem_right hnd (by simp)),
        h.next (l ++ c :: m) x b (by simp)]
    · cases m with
      | nil =>
        simp only [List.nil_append] at hr
        subst hr
        simp only [List.append_nil] at hnext hnd
        rw [hnext x (by simp) (last_ne_of_mem_right hnd (by simp)),
          h.next (a ++ [c]) x b (by simp)]
      | cons y m =>
        simp only [List.cons_append, List.cons.injEq] at hr
        obtain ⟨rfl, rfl⟩ := hr
        by_cases hm : m = []
        · subst hm
          exact hlast x (by simp)
        · rw [hnext x (by simp) (getLast?_ne_of_nodup hnd hm),
            h.next a x (m ++ c :: r) (by simp)]
          obtain ⟨y, m, rfl⟩ := List.exists_cons_of_ne_nil hm
          rfl
  · rcases List.append_eq_append_iff.mp he with ⟨m, rfl, rfl⟩ | ⟨m, rfl, hr⟩
    · by_cases hm : m = []
      · subst hm
        rw [hfirst x (by simp)]
        simp
      · rw [hprev x (by simp) (head?_ne_of_nodup hnd hm),
          h.prev (l ++ c :: m) x b (by simp), List.getLast?_append_of_ne_nil _ (by simp),
          List.getLast?_cons_of_ne_nil hm, List.getLast?_append_of_ne_nil _ hm]
    · cases m with
      | nil =>
        simp only [List.nil_append] at hr
        subst hr
        rw [hfirst x (by simp)]
        simp
      | cons y m =>
        simp only [List.cons_append, List.cons.injEq] at hr
        obtain ⟨rfl, rfl⟩ := hr
        rw [hprev x (by simp) (head_ne_of_mem_left hnd (by simp)),
          h.prev a x (m ++ c :: r) (by simp)]

/-- The nodes met by following `next` for at most `fuel` steps. -/
def follow (next : ι → Option ι) : Nat → Option ι → List ι
  | _, none => []
  | 0, some _ => []
  | fuel + 1, some x => x :: follow next fuel (next x)

theorem follow_suffix (h : Linked next prev head xs) {l r : List ι} (he : xs = l ++ r)
    {fuel : Nat} (hf : r.length ≤ fuel) : follow next fuel r.head? = r := by
  induction r generalizing l fuel with
  | nil => cases fuel <;> rfl
  | cons x r ih =>
    cases fuel with
    | zero => simp at hf
    | succ fuel =>
      rw [List.head?_cons, follow, h.next l x r he]
      exact congrArg (x :: ·) (ih (l := l ++ [x]) (by simp [he]) (by simpa using hf))

theorem follow_eq (h : Linked next prev head xs) {fuel : Nat} (hf : xs.length ≤ fuel) :
    follow next fuel head = xs := by
  rw [h.head]
  exact h.follow_suffix (l := []) rfl hf

end Linked
end Xhyve.Lib
