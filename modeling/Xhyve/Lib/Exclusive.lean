import Mathlib.Logic.Function.Basic
import Mathlib.Order.WellFounded

/-!
# Resources with one holder each

A resource shows what its holder makes of it, and is free without one. A thread that takes a free
resource, changes one it holds or gives it back keeps that up. Threads that take resources in
ascending order never wait for each other in a circle.
-/

namespace Xhyve.Lib

variable {θ κ σ : Type*}

/-- `claim` is what a thread makes of a resource, `free` for one it does not hold. -/
structure Exclusive (free : σ) (claim : θ → κ → σ) (res : κ → σ) : Prop where
  held : ∀ {t k}, claim t k ≠ free → res k = claim t k
  owner : ∀ {k}, res k ≠ free → ∃ t, claim t k ≠ free
  unique : ∀ {t t' k}, claim t k ≠ free → claim t' k ≠ free → t = t'

namespace Exclusive

variable {free : σ} {claim claim' : θ → κ → σ} {res : κ → σ}

theorem start (hclaim : ∀ t k, claim t k = free) (hres : ∀ k, res k = free) :
    Exclusive free claim res where
  held h := absurd (hclaim _ _) h
  owner h := absurd (hres _) h
  unique h := absurd (hclaim _ _) h

/-- What nobody shows, nobody holds. -/
theorem claim_free (h : Exclusive free claim res) {k : κ} (hfree : res k = free) (t : θ) :
    claim t k = free := by
  by_contra hne
  exact hne ((h.held hne).symm.trans hfree)

/-- Nothing has changed hands. -/
theorem keep (h : Exclusive free claim res) (hsame : ∀ t k, claim' t k = claim t k) :
    Exclusive free claim' res := by
  have heq : claim' = claim := funext fun t => funext (hsame t)
  rwa [heq]

variable [DecidableEq κ]

/-- A thread does something to a resource that is its own or free. -/
theorem move (h : Exclusive free claim res) {t : θ} {k : κ}
    (hmine : claim t k ≠ free ∨ res k = free)
    (hother : ∀ t' k', t' ≠ t ∨ k' ≠ k → claim' t' k' = claim t' k') :
    Exclusive free claim' (Function.update res k (claim' t k)) := by
  have hnobody : ∀ t', t' ≠ t → claim t' k = free := by
    intro t' ht'
    rcases hmine with hown | hfree
    · by_contra hne
      exact ht' (h.unique hne hown)
    · exact h.claim_free hfree t'
  have hmover : ∀ {t'}, claim' t' k ≠ free → t' = t := by
    intro t' hne
    by_contra ht'
    exact hne ((hother t' k (Or.inl ht')).trans (hnobody t' ht'))
  constructor
  · intro t' k' hne
    by_cases hk : k' = k
    · subst hk
      rw [Function.update_self, hmover hne]
    · rw [hother t' k' (Or.inr hk)] at hne ⊢
      rw [Function.update_of_ne hk, h.held hne]
  · intro k' hne
    by_cases hk : k' = k
    · subst hk
      rw [Function.update_self] at hne
      exact ⟨t, hne⟩
    · rw [Function.update_of_ne hk] at hne
      obtain ⟨t', ht'⟩ := h.owner hne
      exact ⟨t', by rwa [hother t' k' (Or.inr hk)]⟩
  · intro t₁ t₂ k' h₁ h₂
    by_cases hk : k' = k
    · subst hk
      rw [hmover h₁, hmover h₂]
    · rw [hother _ _ (Or.inr hk)] at h₁ h₂
      exact h.unique h₁ h₂

end Exclusive

/-- Every thread wants only what comes behind all it holds. Then whoever waits for a thread waits in the
end for one that does not wait. -/
theorem exists_not_waiting [Preorder κ] [WellFoundedGT κ] {wants : θ → Option κ} {holds : θ → κ → Prop}
    (hascend : ∀ {t k k'}, wants t = some k → holds t k' → k' < k) {k : κ} (htaken : ∃ t, holds t k) :
    ∃ t k', holds t k' ∧ ∀ k'', wants t = some k'' → ¬ ∃ u, holds u k'' := by
  induction k using WellFoundedGT.induction with
  | ind k ih =>
    obtain ⟨t, ht⟩ := htaken
    by_cases hwait : ∃ k'', wants t = some k'' ∧ ∃ u, holds u k''
    · obtain ⟨k'', hwant, hu⟩ := hwait
      exact ih k'' (hascend hwant ht) hu
    · exact ⟨t, k, ht, fun k'' hwant hu => hwait ⟨k'', hwant, hu⟩⟩

end Xhyve.Lib
