import Mathlib.Data.List.Basic
import Mathlib.Logic.Function.Basic

/-!
# Pools with a moving base

Ranges are handed out from several pools. Each pool has a base that only moves up, past the end of
what it hands out, so the ranges of one pool never meet.
-/

namespace Xhyve.Lib

universe u v

variable {ι : Type u} {α : Type v} {pool : α → ι} {lo hi : α → Nat} {start next : ι → Nat}
  {l : List α} {a : α}

/-- What the pools have handed out, oldest first, and where their bases stand. -/
structure Pooled (pool : α → ι) (lo hi : α → Nat) (start next : ι → Nat) (l : List α) : Prop where
  order : ∀ i, start i ≤ next i
  within : ∀ a ∈ l, start (pool a) ≤ lo a ∧ hi a ≤ next (pool a)
  apart : l.Pairwise fun a b => pool a = pool b → hi a ≤ lo b

theorem Pooled.nil : Pooled pool lo hi start start [] where
  order _ := Nat.le_refl _
  within a ha := by cases ha
  apart := .nil

/-- The pool of the new range moves to its end. -/
theorem Pooled.push [DecidableEq ι] (h : Pooled pool lo hi start next l)
    (hlo : next (pool a) ≤ lo a) (hhi : lo a ≤ hi a) :
    Pooled pool lo hi start (Function.update next (pool a) (hi a)) (l ++ [a]) := by
  have hgrow : ∀ i, next i ≤ Function.update next (pool a) (hi a) i := by
    intro i
    by_cases hi' : i = pool a
    · subst hi'
      rw [Function.update_self]
      exact Nat.le_trans hlo hhi
    · exact Nat.le_of_eq (Function.update_of_ne hi' ..).symm
  refine ⟨fun i => Nat.le_trans (h.order i) (hgrow i), fun b hb => ?_, ?_⟩
  · rcases List.mem_append.mp hb with hb | hb
    · obtain ⟨hstart, hend⟩ := h.within b hb
      exact ⟨hstart, Nat.le_trans hend (hgrow _)⟩
    · obtain rfl := List.mem_singleton.mp hb
      rw [Function.update_self]
      exact ⟨Nat.le_trans (h.order _) hlo, Nat.le_refl _⟩
  · refine List.pairwise_append.mpr ⟨h.apart, List.pairwise_singleton _ _, fun b hb c hc hpool => ?_⟩
    obtain rfl := List.mem_singleton.mp hc
    have hend := (h.within b hb).2
    rw [hpool] at hend
    exact Nat.le_trans hend hlo

/-- No range passes the limit of its pool. -/
theorem Pooled.below {limit : ι → Nat} (h : Pooled pool lo hi start next l)
    (hlimit : ∀ i, next i ≤ limit i) : ∀ a ∈ l, hi a ≤ limit (pool a) :=
  fun a ha => Nat.le_trans (h.within a ha).2 (hlimit _)

end Xhyve.Lib
