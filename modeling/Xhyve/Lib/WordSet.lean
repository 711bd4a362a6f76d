import Mathlib.Tactic.Common

/-!
# Sets of small numbers in one machine word

A number is a member when its bit is set. The shift that makes a number's bit takes its count
modulo the width, as the machine's does. `visit` is the loop that takes the lowest member out, again
and again, until the set is empty.
-/

namespace Xhyve.Lib.WordSet

section WordSet
variable {w : Nat}

def bit (w n : Nat) : BitVec w := BitVec.twoPow w (n % w)

def set (n : Nat) (p : BitVec w) : BitVec w := p ||| bit w n
def clr (n : Nat) (p : BitVec w) : BitVec w := p &&& ~~~bit w n

/-- Number of the lowest member plus one, or zero. -/
def ffs (p : BitVec w) : Nat :=
  match (List.range w).find? p.getLsbD with
  | some i => i + 1
  | none => 0

/-- The members in ascending order. -/
def elems (p : BitVec w) : List Nat := (List.range w).filter p.getLsbD

def visit : Nat → BitVec w → List Nat
  | 0, _ => []
  | fuel + 1, p =>
    match ffs p with
    | 0 => []
    | i + 1 => i :: visit fuel (clr i p)

@[simp] theorem mem_elems {p : BitVec w} {i : Nat} : i ∈ elems p ↔ p.getLsbD i = true := by
  rw [elems, List.mem_filter, List.mem_range]
  exact ⟨And.right, fun h => ⟨BitVec.lt_of_getLsbD h, h⟩⟩

theorem getLsbD_bit {n i : Nat} (hn : n < w) : (bit w n).getLsbD i = decide (i = n) := by
  rw [bit, Nat.mod_eq_of_lt hn, BitVec.getLsbD_twoPow, decide_eq_true hn, Bool.true_and,
    decide_eq_decide]
  exact eq_comm

theorem getLsbD_set {n i : Nat} {p : BitVec w} (hn : n < w) :
    (set n p).getLsbD i = (p.getLsbD i || decide (i = n)) := by
  rw [set, BitVec.getLsbD_or, getLsbD_bit hn]

theorem getLsbD_clr {n i : Nat} {p : BitVec w} (hn : n < w) :
    (clr n p).getLsbD i = (p.getLsbD i && decide (i ≠ n)) := by
  rw [clr, BitVec.getLsbD_and, BitVec.getLsbD_not, getLsbD_bit hn]
  by_cases hi : i < w
  · simp [hi]
  · rw [BitVec.getLsbD_of_ge p i (by omega), Bool.false_and, Bool.false_and]

/-- Taking out the lowest member leaves the others. -/
theorem elems_clr {p : BitVec w} {i : Nat} {rest : List Nat} (h : elems p = i :: rest) :
    elems (clr i p) = rest := by
  have hi : i < w := BitVec.lt_of_getLsbD (mem_elems.mp (by rw [h]; exact List.mem_cons_self))
  have hfilter : elems (clr i p) = (elems p).filter fun j => decide (j ≠ i) := by
    unfold elems
    rw [List.filter_filter]
    apply List.filter_congr
    intro j _
    rw [getLsbD_clr hi, Bool.and_comm]
  have hnodup : (i :: rest).Nodup := by
    rw [← h]
    exact List.nodup_range.filter _
  rw [hfilter, h, List.filter_cons_of_neg (by simp)]
  apply List.filter_eq_self.mpr
  intro j hj
  apply decide_eq_true
  intro heq
  exact (List.nodup_cons.mp hnodup).1 (heq ▸ hj)

theorem visit_eq_take (fuel : Nat) (p : BitVec w) : visit fuel p = (elems p).take fuel := by
  induction fuel generalizing p with
  | zero => rfl
  | succ fuel ih =>
    have hhead : (elems p).head? = (List.range w).find? p.getLsbD := List.head?_filter
    unfold visit ffs
    cases he : elems p with
    | nil =>
      rw [he, List.head?_nil] at hhead
      rw [← hhead]
      rfl
    | cons i rest =>
      rw [he, List.head?_cons] at hhead
      rw [← hhead]
      show i :: visit fuel (clr i p) = i :: rest.take fuel
      rw [ih, elems_clr he]

/-- The loop comes to every member once. -/
theorem visit_width (p : BitVec w) : visit w p = elems p := by
  rw [visit_eq_take, List.take_of_length_le]
  exact Nat.le_trans (List.length_filter_le _ _) (Nat.le_of_eq List.length_range)

end WordSet

end Xhyve.Lib.WordSet
