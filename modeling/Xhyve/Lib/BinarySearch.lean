import Mathlib

/-!
# Binary search with unsigned bounds

A search between two bounds that both belong to the window, kept as unsigned words of `w` bits. Below the first entry the upper bound
wraps around and the table is left; from the first entry on the search is exact.
-/

namespace Xhyve.Lib.BinarySearch

variable {ε κ : Type*} [LinearOrder κ]

/-- `outside` is an index behind the end, `runsOn` more steps than were to be taken. -/
inductive Result (ε : Type*)
  | found (entry : ε)
  | absent
  | outside
  | runsOn

def search (w : Nat) (table : List ε) (key : ε → κ) (target : κ) : Nat → Nat → Nat → Result ε
  | 0, _, _ => .runsOn
  | fuel + 1, lo, hi =>
    if hi < lo then .absent
    else
      let mid := (hi + lo) % 2 ^ w / 2
      match table[mid]? with
      | none => .outside
      | some e =>
        if key e = target then .found e
        else if key e < target then search w table key target fuel ((mid + 1) % 2 ^ w) hi
        else search w table key target fuel lo ((mid + 2 ^ w - 1) % 2 ^ w)

/-- Ascending, so that a word holds the sum of two indices. -/
structure Searchable (w : Nat) (table : List ε) (key : ε → κ) : Prop where
  sorted : table.Pairwise fun a b => key a < key b
  small : 2 * table.length < 2 ^ w

/-- An entry is found where there is one. -/
def Exact (table : List ε) (key : ε → κ) (target : κ) : Result ε → Prop
  | .found e => e ∈ table ∧ key e = target
  | .absent => ∀ e ∈ table, key e ≠ target
  | .outside | .runsOn => False

/-- What is left of the window is below the target, and what is right of it above. -/
structure Window (table : List ε) (key : ε → κ) (target : κ) (lo hi : Nat) : Prop where
  le : lo ≤ hi + 1
  inside : hi < table.length
  below : ∀ (i : Nat) (h : i < table.length), i < lo → key table[i] < target
  above : ∀ (i : Nat) (h : i < table.length), hi < i → target < key table[i]

section Search
variable {w : Nat} {table : List ε} {key : ε → κ} {target : κ} {lo hi : Nat}

theorem Searchable.lt (h : Searchable w table key) {i j : Nat} (hij : i < j) (hj : j < table.length) :
    key table[i] < key table[j] := List.pairwise_iff_getElem.mp h.sorted i j _ hj hij

/-- The window is used up. -/
theorem Window.absent (h : Window table key target lo hi) (hempty : hi < lo) : Exact table key target .absent := by
  intro e he
  obtain ⟨i, hi', rfl⟩ := List.mem_iff_getElem.mp he
  rcases Nat.lt_or_ge i lo with hlt | hge
  · exact (h.below i hi' hlt).ne
  · exact (h.above i hi' (by omega)).ne'

theorem Window.right (h : Window table key target lo hi) (hs : Searchable w table key) {mid : Nat}
    (hmid : mid < table.length) (hle : mid ≤ hi) (hkey : key table[mid] < target) :
    Window table key target (mid + 1) hi where
  le := by omega
  inside := h.inside
  below i hi' hlt := by
    rcases Nat.lt_or_eq_of_le (Nat.lt_succ_iff.mp hlt) with hlt | rfl
    · exact (hs.lt hlt hmid).trans hkey
    · exact hkey
  above := h.above

theorem Window.left (h : Window table key target lo hi) (hs : Searchable w table key) {mid : Nat}
    (hmid : mid < table.length) (hle : lo ≤ mid) (hpos : 0 < mid) (hkey : target < key table[mid]) :
    Window table key target lo (mid - 1) where
  le := by omega
  inside := by omega
  below := h.below
  above i hi' hlt := by
    rcases Nat.lt_or_eq_of_le (show mid ≤ i by omega) with hlt | rfl
    · exact hkey.trans (hs.lt hlt hi')
    · exact hkey

/-- The search is exact where the first entry is not above the target, and takes no more steps than the window is wide. -/
theorem search_exact (hs : Searchable w table key) (hfirst : ∀ h : 0 < table.length, key table[0] ≤ target) :
    ∀ {fuel lo hi : Nat}, Window table key target lo hi → hi + 1 < fuel + lo →
      Exact table key target (search w table key target fuel lo hi) := by
  intro fuel
  induction fuel with
  | zero =>
    intro lo hi hw hfuel
    have := hw.le
    omega
  | succ fuel ih =>
    intro lo hi hw hfuel
    have hsmall := hs.small
    have hin := hw.inside
    rw [search]
    split
    · rename_i hempty
      exact hw.absent hempty
    · rename_i hle
      have hsum : (hi + lo) % 2 ^ w = hi + lo := Nat.mod_eq_of_lt (by omega)
      have hmid : (hi + lo) / 2 < table.length := by omega
      simp only [hsum, List.getElem?_eq_getElem hmid]
      split
      · rename_i heq
        exact ⟨List.getElem_mem hmid, heq⟩
      · rename_i hne
        split
        · rename_i hlt
          rw [Nat.mod_eq_of_lt (show (hi + lo) / 2 + 1 < 2 ^ w by omega)]
          exact ih (hw.right hs hmid (by omega) hlt) (by omega)
        · rename_i hge
          have hgt : target < key table[(hi + lo) / 2] := lt_of_le_of_ne (not_lt.mp hge) (Ne.symm hne)
          have hpos : 0 < (hi + lo) / 2 := by
            by_contra hzero
            have hfirst' := hfirst (by omega)
            simp only [Nat.eq_zero_of_not_pos hzero] at hgt
            exact absurd hgt (not_lt.mpr hfirst')
          have hwrap : ((hi + lo) / 2 + 2 ^ w - 1) % 2 ^ w = (hi + lo) / 2 - 1 := by
            rw [show (hi + lo) / 2 + 2 ^ w - 1 = ((hi + lo) / 2 - 1) + 2 ^ w by omega, Nat.add_mod_right]
            exact Nat.mod_eq_of_lt (by omega)
          rw [hwrap]
          exact ih (hw.left hs hmid (by omega) hpos hgt) (by omega)

end Search

end Xhyve.Lib.BinarySearch
