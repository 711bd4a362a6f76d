import Mathlib.Data.List.Basic
import Mathlib.Tactic

/-!
# Binary search trees under a comparator

Search, insertion and removal in a binary tree whose nodes are compared with a key by a
function the caller supplies, as the `RB_*` macros do. Whatever rotations and recolourings
follow an update, they keep the in-order sequence; a `Rebalance` is any such pair of
functions. Every result is about the in-order sequence.
-/

namespace Xhyve.Lib

inductive SearchTree (α : Type)
  | nil
  | node (left : SearchTree α) (a : α) (right : SearchTree α)
deriving DecidableEq, Repr

namespace SearchTree

variable {α : Type}

/-- The nodes from left to right. -/
def toList : SearchTree α → List α
  | nil => []
  | node left a right => left.toList ++ a :: right.toList

/-- The node the key compares equal with, descending by the comparison. -/
def find (c : α → Ordering) : SearchTree α → Option α
  | nil => none
  | node left a right =>
    match c a with
    | .lt => find c left
    | .gt => find c right
    | .eq => some a

/-- A new leaf for `x`, or the node on the way that its key compares equal with. -/
def insert (c : α → Ordering) (x : α) : SearchTree α → Except α (SearchTree α)
  | nil => .ok (node nil x nil)
  | node left a right =>
    match c a with
    | .lt => (insert c x left).map fun left => node left a right
    | .gt => (insert c x right).map fun right => node left a right
    | .eq => .error a

/-- The leftmost node, with the rest of the tree. -/
def popMin (left : SearchTree α) (a : α) (right : SearchTree α) : α × SearchTree α :=
  match left with
  | nil => (a, right)
  | node left' a' right' =>
    let m := popMin left' a' right'
    (m.1, node m.2 a right)

/-- What takes the place of a node with these children: its successor is spliced in. -/
def join : SearchTree α → SearchTree α → SearchTree α
  | nil, right => right
  | left, nil => left
  | left, node l a r =>
    let m := popMin l a r
    node left m.1 m.2

def remove [DecidableEq α] (x : α) : SearchTree α → SearchTree α
  | nil => nil
  | node left a right =>
    if a = x then join (remove x left) (remove x right)
    else node (remove x left) a (remove x right)

/-- The rotations and recolourings after an update, of which only this much is used. -/
structure Rebalance (α : Type) where
  onInsert : SearchTree α → SearchTree α
  onRemove : SearchTree α → SearchTree α
  toList_onInsert : ∀ t, (onInsert t).toList = t.toList
  toList_onRemove : ∀ t, (onRemove t).toList = t.toList

/-- The key's comparison changes from `gt` over `eq` to `lt` along the sequence. -/
def Separates (c : α → Ordering) (l : List α) : Prop :=
  l.Pairwise fun a b => (c a = .lt → c b = .lt) ∧ (c b = .gt → c a = .gt)

section Find
variable {c : α → Ordering} {t : SearchTree α} {x a : α}

theorem find_some (h : t.find c = some a) : a ∈ t.toList ∧ c a = .eq := by
  induction t with
  | nil => simp [find] at h
  | node left b right ihl ihr =>
    rw [find] at h
    rw [toList, List.mem_append, List.mem_cons]
    split at h
    · exact ⟨.inl (ihl h).1, (ihl h).2⟩
    · exact ⟨.inr (.inr (ihr h).1), (ihr h).2⟩
    · rename_i heq
      cases h
      exact ⟨.inr (.inl rfl), heq⟩

theorem Separates.node {left right : SearchTree α} (h : Separates c (node left a right).toList) :
    Separates c left.toList ∧ Separates c right.toList ∧
    (∀ b ∈ left.toList, c a = .gt → c b = .gt) ∧ ∀ b ∈ right.toList, c a = .lt → c b = .lt := by
  obtain ⟨hl, hr, hlr⟩ := List.pairwise_append.mp h
  obtain ⟨har, hr⟩ := List.pairwise_cons.mp hr
  exact ⟨hl, hr, fun b hb => (hlr b hb a (List.mem_cons_self ..)).2, fun b hb => (har b hb).1⟩

theorem find_none (hs : Separates c t.toList) (h : t.find c = none) :
    ∀ a ∈ t.toList, c a ≠ .eq := by
  induction t with
  | nil => simp [toList]
  | node left b right ihl ihr =>
    obtain ⟨hsl, hsr, hleft, hright⟩ := hs.node
    rw [find] at h
    intro a ha
    rw [toList, List.mem_append, List.mem_cons] at ha
    split at h
    · rename_i hlt
      rcases ha with ha | rfl | ha
      · exact ihl hsl h a ha
      · simp [hlt]
      · simp [hright a ha hlt]
    · rename_i hgt
      rcases ha with ha | rfl | ha
      · simp [hleft a ha hgt]
      · simp [hgt]
      · exact ihr hsr h a ha
    · cases h

/-- An insertion stops at a node that compares equal, or puts the new element between the
smaller and the greater ones. -/
theorem insert_cases (hs : Separates c t.toList) :
    (∃ a, t.insert c x = .error a ∧ a ∈ t.toList ∧ c a = .eq) ∨
    ∃ t' l r, t.insert c x = .ok t' ∧ t.toList = l ++ r ∧ t'.toList = l ++ x :: r ∧
      (∀ a ∈ l, c a = .gt) ∧ ∀ a ∈ r, c a = .lt := by
  induction t with
  | nil => exact .inr ⟨_, [], [], rfl, by simp [toList]⟩
  | node left b right ihl ihr =>
    obtain ⟨hsl, hsr, hleft, hright⟩ := hs.node
    cases hb : c b with
    | lt =>
      rcases ihl hsl with ⟨a, he, ha, heq⟩ | ⟨t', l, r, hok, hlr, hlxr, hgt, hlt⟩
      · exact .inl ⟨a, by simp [insert, hb, he, Except.map], by simp [toList, ha], heq⟩
      · refine .inr ⟨.node t' b right, l, r ++ b :: right.toList, ?_, ?_, ?_, hgt, ?_⟩
        · simp [insert, hb, hok, Except.map]
        · simp [toList, hlr]
        · simp [toList, hlxr]
        · intro a ha
          rcases List.mem_append.mp ha with ha | ha
          · exact hlt a ha
          · rcases List.mem_cons.mp ha with rfl | ha
            · exact hb
            · exact hright a ha hb
    | gt =>
      rcases ihr hsr with ⟨a, he, ha, heq⟩ | ⟨t', l, r, hok, hlr, hlxr, hgt, hlt⟩
      · exact .inl ⟨a, by simp [insert, hb, he, Except.map], by simp [toList, ha], heq⟩
      · refine .inr ⟨.node left b t', left.toList ++ b :: l, r, ?_, ?_, ?_, ?_, hlt⟩
        · simp [insert, hb, hok, Except.map]
        · simp [toList, hlr]
        · simp [toList, hlxr]
        · intro a ha
          rcases List.mem_append.mp ha with ha | ha
          · exact hleft a ha hb
          · rcases List.mem_cons.mp ha with rfl | ha
            · exact hb
            · exact hgt a ha
    | eq => exact .inl ⟨b, by simp [insert, hb], by simp [toList], hb⟩

end Find

section Remove

theorem toList_popMin (left : SearchTree α) (a : α) (right : SearchTree α) :
    (popMin left a right).1 :: (popMin left a right).2.toList = (node left a right).toList := by
  induction left generalizing a right with
  | nil => rfl
  | node l b r ihl _ =>
    have h := ihl b r
    simp only [popMin, toList] at h ⊢
    rw [← h]
    rfl

theorem toList_join (left right : SearchTree α) :
    (join left right).toList = left.toList ++ right.toList := by
  match left, right with
  | nil, _ => rfl
  | node .., nil => simp [join, toList]
  | node l a r, node l' a' r' =>
    rw [join, ← toList_popMin l' a' r']
    · rfl
    · simp

theorem toList_remove [DecidableEq α] (x : α) (t : SearchTree α) :
    (t.remove x).toList = t.toList.filter (· ≠ x) := by
  induction t with
  | nil => rfl
  | node left a right ihl ihr =>
    rw [remove]
    split
    · rename_i h
      rw [toList_join, ihl, ihr]
      simp [toList, h]
    · rename_i h
      simp only [toList, ihl, ihr]
      simp [h]

end Remove

end SearchTree
end Xhyve.Lib
