import Mathlib.Data.List.Basic
import Mathlib.Data.Nat.ModEq
import Mathlib.Tactic.Common

/-!
# Streams that are taken in blocks

A stream is handed on in blocks of `n`, and what does not fill a block is kept for later. It does not matter in which
pieces the stream comes.
-/

namespace Xhyve.Lib.BlockStream

variable {σ α : Type*}

/-- Hands all whole blocks to `f`, and leaves the rest. -/
def feed (n : Nat) (f : σ → List α → σ) (s : σ) (l : List α) : σ × List α :=
  if 0 < n ∧ n ≤ l.length then feed n f (f s (l.take n)) (l.drop n) else (s, l)
termination_by l.length
decreasing_by
  rw [List.length_drop]
  omega

variable {n : Nat} {f : σ → List α → σ}

theorem feed_of_lt {s : σ} {l : List α} (h : l.length < n) : feed n f s l = (s, l) := by
  rw [feed, if_neg (by omega)]

theorem feed_step (hn : 0 < n) {s : σ} {l : List α} (h : n ≤ l.length) :
    feed n f s l = feed n f (f s (l.take n)) (l.drop n) := by
  rw [feed, if_pos ⟨hn, h⟩]

theorem feed_block (hn : 0 < n) {s : σ} {b : List α} (hb : b.length = n) (l : List α) :
    feed n f s (b ++ l) = feed n f (f s b) l := by
  rw [feed_step hn (by rw [List.length_append]; omega), List.take_left' hb, List.drop_left' hb]

/-- Whole blocks do not wait for what comes behind them. -/
theorem feed_append (hn : 0 < n) (s : σ) (a b : List α) :
    feed n f s (a ++ b) = feed n f (feed n f s a).1 ((feed n f s a).2 ++ b) := by
  induction hlen : a.length using Nat.strongRecOn generalizing s a with
  | ind len ih =>
    rcases Nat.lt_or_ge a.length n with hlt | hge
    · rw [feed_of_lt hlt]
    · have hdrop : (a.drop n).length < len := by
        rw [List.length_drop]
        omega
      have htake : (a.take n).length = n := List.length_take_of_le hge
      rw [feed_step hn hge, ← ih _ hdrop _ _ rfl]
      conv_lhs => rw [← List.take_append_drop n a, List.append_assoc]
      exact feed_block hn htake _

theorem length_rest (hn : 0 < n) (s : σ) (l : List α) : (feed n f s l).2.length = l.length % n := by
  induction hlen : l.length using Nat.strongRecOn generalizing s l with
  | ind len ih =>
    rcases Nat.lt_or_ge l.length n with hlt | hge
    · rw [feed_of_lt hlt, ← hlen, Nat.mod_eq_of_lt hlt]
    · have hdrop : (l.drop n).length = len - n := by
        rw [List.length_drop, hlen]
      rw [feed_step hn hge, ih (len - n) (by omega) _ _ hdrop]
      exact (Nat.mod_eq_sub_mod (by omega)).symm

end Xhyve.Lib.BlockStream
