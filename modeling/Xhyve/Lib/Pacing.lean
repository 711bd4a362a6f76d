import Mathlib.Tactic.Linarith
import Mathlib.Tactic.Ring
import Mathlib.Data.List.Count

/-!
# Events that follow a schedule

A schedule is a deadline that moves on by whole periods. An event answers the deadline it is late
for and sets the next one, which is ahead of it by at most a period. Positions are integers and no
period, and nothing of what the events are, is fixed here.
-/

namespace Xhyve.Lib

/-- The events between two deadlines. With `skips` an event may come so late that deadlines are
passed over; without, each deadline has its own. -/
inductive Paced (p : Int) (skips : Prop) : Int → List Int → Int → Prop
  | nil (a : Int) : Paced p skips a [] a
  | cons {a e next b : Int} {es : List Int} : a ≤ e → e < next → next ≤ e + p → p ∣ next - a →
      skips ∨ next = a + p → Paced p skips next es b → Paced p skips a (e :: es) b

namespace Paced

variable {p : Int} {skips : Prop} {a b : Int} {es : List Int}

theorem eq_of_nil (h : Paced p skips a [] b) : a = b := by
  cases h
  rfl

/-- No event comes before the deadline. -/
theorem from_deadline (h : Paced p skips a es b) : ∀ e ∈ es, a ≤ e := by
  induction h with
  | nil a => simp
  | cons hle hlt _ _ _ _ ih =>
    intro e he
    rcases List.mem_cons.mp he with rfl | he
    · exact hle
    · have := ih e he
      omega

/-- Where the events of the period that begins at `m` are. -/
def during (p m : Int) (e : Int) : Bool := m ≤ e && e < m + p

/-- Two deadlines of one schedule are equal or a period apart. -/
theorem apart {m next : Int} (hd : p ∣ next - m) (hlt : m < next) : m + p ≤ next := by
  have := Int.le_of_dvd (by omega) hd
  omega

/-- What comes after a deadline is no event of an earlier period. -/
theorem during_earlier {m next : Int} (h : Paced p skips next es b)
    (hd : p ∣ next - m) (hlt : m < next) : es.countP (during p m) = 0 := by
  have hap := apart hd hlt
  rw [List.countP_eq_zero]
  intro e he
  have := h.from_deadline e he
  simp only [during, Bool.and_eq_true, decide_eq_true_iff, not_and, not_lt]
  intro _
  omega

/-- An event is one of its own period only, the one that ends with the next deadline. -/
theorem during_head {m e next : Int} (hlt : e < next) (hle : next ≤ e + p)
    (hd : p ∣ next - m) : during p m e = decide (next = m + p) := by
  rw [during, Bool.eq_iff_iff, Bool.and_eq_true, decide_eq_true_iff, decide_eq_true_iff,
    decide_eq_true_iff]
  constructor
  · intro ⟨hm, hmp⟩
    have h₁ := apart hd (by omega)
    have hd' : p ∣ m + p + p - next := by
      have hsum : m + p + p - next = p + p - (next - m) := by ring
      rw [hsum]
      exact Int.dvd_sub (Int.dvd_add (Int.dvd_refl p) (Int.dvd_refl p)) hd
    have h₂ := apart hd' (by omega)
    omega
  · intro hn
    omega

/-- At most one event in each period of the schedule. -/
theorem at_most_one (hp : 0 < p) (h : Paced p skips a es b) :
    ∀ m, p ∣ m - a → es.countP (during p m) ≤ 1 := by
  induction h with
  | nil a => simp
  | @cons a e next b es _ hlt hle hd _ hrest ih =>
    intro m hm
    have hnext : p ∣ next - m := by
      have hsum : next - m = (next - a) - (m - a) := by ring
      rw [hsum]
      exact Int.dvd_sub hd hm
    rw [List.countP_cons, during_head hlt hle hnext]
    by_cases hn : next = m + p
    · rw [during_earlier hrest hnext (by omega)]
      simp [hn]
    · have hback : p ∣ m - next := by
        have := (Int.dvd_neg).mpr hnext
        rwa [Int.neg_sub] at this
      simpa [hn] using ih m hback

/-- Where no deadline is passed over, each of them up to the one set last has exactly one event. -/
theorem exactly_one (hp : 0 < p) (hskips : ¬ skips) (h : Paced p skips a es b) :
    ∀ m, p ∣ m - a → a ≤ m → m < b → es.countP (during p m) = 1 := by
  induction h with
  | nil a =>
    intro m _ hle hlt
    omega
  | @cons a e next b es _ hlt hle hd hstep hrest ih =>
    intro m hm hfrom hto
    have hone : next = a + p := hstep.resolve_left hskips
    have hnext : p ∣ next - m := by
      have hsum : next - m = (next - a) - (m - a) := by ring
      rw [hsum]
      exact Int.dvd_sub hd hm
    rw [List.countP_cons, during_head hlt hle hnext]
    rcases eq_or_lt_of_le hfrom with rfl | hbeyond
    · rw [during_earlier hrest hnext (by omega)]
      simp [hone]
    · have hap := apart hm hbeyond
      have hback : p ∣ m - next := by
        have := (Int.dvd_neg).mpr hnext
        rwa [Int.neg_sub] at this
      have hne : ¬ next = m + p := by omega
      simpa [hne] using ih m hback (by omega) hto

end Paced

end Xhyve.Lib
