import Mathlib

/-!
# The virtual geometry of a disk

`blockif_chs` picks cylinders, heads and sectors per track for a disk that has none: 17 sectors per
track for the smallest disks, then 31, 63 and 255 as the cylinders run out.
-/

namespace Xhyve.Emul.BlockIf

/-- The size of the disk and of its sectors. -/
structure Disk where
  bcSize : Nat
  bcSectsz : Nat
  bcSize_lt : bcSize < 2 ^ 63
  bcSectsz_pos : 0 < bcSectsz
  bcSectsz_lt : bcSectsz < 2 ^ 31

/-- The largest possible with CHS. -/
def maxChs : Nat := 65535 * 16 * 255

/-- Total sectors. -/
def sectors (bc : Disk) : Nat :=
  let sectors := bc.bcSize / bc.bcSectsz
  if sectors > maxChs then maxChs else sectors

/-- Cylinders times heads, heads, and sectors per track. -/
structure Geometry where
  hcyl : Nat
  heads : Nat
  secpt : Nat
deriving DecidableEq, Repr

/-- The heads that keep the cylinders below 1024, in a byte. -/
def estimateHeads (hcyl : Nat) : Nat :=
  let heads := (hcyl + 1023) / 1024 % 2 ^ 8
  if heads < 4 then 4 else heads

def pickGeometry (sectors : Nat) : Geometry :=
  if sectors ≥ 65536 * 16 * 63 then ⟨sectors / 255, 16, 255⟩
  else
    let hcyl := sectors / 17
    let heads := estimateHeads hcyl
    let g : Geometry :=
      if hcyl ≥ heads * 1024 ∨ heads > 16 then ⟨sectors / 31, 16, 31⟩ else ⟨hcyl, heads, 17⟩
    if g.hcyl ≥ g.heads * 1024 then ⟨sectors / 63, 16, 63⟩ else g

def blockifChs (bc : Disk) : UInt16 × UInt8 × UInt8 :=
  let g := pickGeometry (sectors bc)
  (UInt16.ofNat (g.hcyl / g.heads), UInt8.ofNat g.heads, UInt8.ofNat g.secpt)

/-! ## What each choice keeps -/

/-- The choice fits the disk and the widths of the results. -/
structure Geometry.Suits (g : Geometry) (sectors : Nat) : Prop where
  hcyl : g.hcyl = sectors / g.secpt
  heads : 4 ≤ g.heads ∧ g.heads ≤ 16
  secpt : g.secpt ∈ [17, 31, 63, 255]
  cylinders : g.hcyl / g.heads < 2 ^ 16

theorem estimateHeads_ge (hcyl : Nat) : 4 ≤ estimateHeads hcyl := by
  unfold estimateHeads
  simp only
  split
  · exact Nat.le_refl _
  · omega

theorem pickGeometry_small {sectors heads : Nat} (hlo : 4 ≤ heads)
    (h : ¬ (sectors / 17 ≥ heads * 1024 ∨ heads > 16)) :
    Geometry.Suits ⟨sectors / 17, heads, 17⟩ sectors where
  hcyl := rfl
  heads := ⟨hlo, by simp only; omega⟩
  secpt := List.mem_cons_self
  cylinders := by
    have hcyl : sectors / 17 / heads < 1024 := Nat.div_lt_of_lt_mul (by omega)
    simp only
    omega

/-- Sixteen heads, as long as the cylinders fit. -/
theorem pickGeometry_sixteen {sectors secpt : Nat} (hsecpt : secpt ∈ [17, 31, 63, 255])
    (h : sectors / secpt < 16 * 2 ^ 16) : Geometry.Suits ⟨sectors / secpt, 16, secpt⟩ sectors where
  hcyl := rfl
  heads := ⟨by simp, Nat.le_refl _⟩
  secpt := hsecpt
  cylinders := Nat.div_lt_of_lt_mul h

theorem pickGeometry_suits {sectors : Nat} (h : sectors ≤ maxChs) :
    (pickGeometry sectors).Suits sectors := by
  unfold maxChs at h
  unfold pickGeometry
  simp only
  split
  · exact pickGeometry_sixteen (by decide) (by omega)
  · have h63 : Geometry.Suits ⟨sectors / 63, 16, 63⟩ sectors :=
      pickGeometry_sixteen (by decide) (by omega)
    -- the byte only loses bits of an estimate that is too large for 17 sectors anyway
    by_cases hbig : sectors / 17 ≥ estimateHeads (sectors / 17) * 1024 ∨
        estimateHeads (sectors / 17) > 16
    · rw [if_pos hbig]
      split
      · exact h63
      · exact pickGeometry_sixteen (by decide) (by simp only at *; omega)
    · rw [if_neg hbig]
      split
      · exact h63
      · exact pickGeometry_small (estimateHeads_ge _) hbig

/-- Whole cylinders, and all but a part of one. -/
theorem Geometry.Suits.covers {g : Geometry} {sectors : Nat} (h : g.Suits sectors) :
    g.hcyl / g.heads * g.heads * g.secpt ≤ sectors ∧
      sectors < (g.hcyl / g.heads + 1) * g.heads * g.secpt := by
  obtain ⟨hlo, hhi⟩ := h.heads
  have hsecpt : 0 < g.secpt := by
    have := h.secpt
    simp only [List.mem_cons, List.not_mem_nil, or_false] at this
    omega
  have hcyl : g.hcyl / g.heads = sectors / (g.secpt * g.heads) := by
    rw [h.hcyl, Nat.div_div_eq_div_mul]
  have hpos : 0 < g.secpt * g.heads := Nat.mul_pos hsecpt (by omega)
  have hcomm : g.heads * g.secpt = g.secpt * g.heads := Nat.mul_comm _ _
  rw [Nat.mul_assoc, Nat.mul_assoc, hcomm, hcyl]
  constructor
  · exact Nat.div_mul_le_self _ _
  · rw [Nat.mul_comm]
    exact Nat.lt_mul_div_succ _ hpos

theorem sectors_eq (bc : Disk) : sectors bc = min (bc.bcSize / bc.bcSectsz) maxChs := by
  unfold sectors
  simp only
  split
  · omega
  · omega

/-- What a disk shows of itself. -/
structure Shown (bc : Disk) (c : UInt16) (h s : UInt8) : Prop where
  /-- No result loses bits. -/
  whole : (pickGeometry (sectors bc)).hcyl / (pickGeometry (sectors bc)).heads = c.toNat ∧
    (pickGeometry (sectors bc)).heads = h.toNat ∧ (pickGeometry (sectors bc)).secpt = s.toNat
  le : c.toNat * h.toNat * s.toNat ≤ min (bc.bcSize / bc.bcSectsz) maxChs
  lt : min (bc.bcSize / bc.bcSectsz) maxChs < (c.toNat + 1) * h.toNat * s.toNat
  heads : 4 ≤ h.toNat ∧ h.toNat ≤ 16
  secpt : s.toNat ∈ [17, 31, 63, 255]

/-- No capacity is invented, and less than one cylinder lost. -/
theorem blockifChs_shown (bc : Disk) :
    Shown bc (blockifChs bc).1 (blockifChs bc).2.1 (blockifChs bc).2.2 := by
  have hle : sectors bc ≤ maxChs := by
    rw [sectors_eq]
    exact Nat.min_le_right _ _
  have hsuits := pickGeometry_suits hle
  obtain ⟨hcover, hlost⟩ := hsuits.covers
  have hheads := hsuits.heads
  have hsecpt := hsuits.secpt
  have hsmall : (pickGeometry (sectors bc)).secpt < 2 ^ 8 := by
    simp only [List.mem_cons, List.not_mem_nil, or_false] at hsecpt
    omega
  have hc : (blockifChs bc).1.toNat =
      (pickGeometry (sectors bc)).hcyl / (pickGeometry (sectors bc)).heads :=
    UInt16.toNat_ofNat_of_lt hsuits.cylinders
  have hh : (blockifChs bc).2.1.toNat = (pickGeometry (sectors bc)).heads :=
    UInt8.toNat_ofNat_of_lt (Nat.lt_of_le_of_lt hheads.2 (by decide))
  have hs : (blockifChs bc).2.2.toNat = (pickGeometry (sectors bc)).secpt :=
    UInt8.toNat_ofNat_of_lt hsmall
  rw [sectors_eq] at hcover hlost
  refine ⟨⟨hc.symm, hh.symm, hs.symm⟩, ?_, ?_, ?_, ?_⟩
  · rw [hc, hh, hs, sectors_eq]
    exact hcover
  · rw [hc, hh, hs, sectors_eq]
    exact hlost
  · rw [hh]
    exact hheads
  · rw [hs]
    exact hsecpt

end Xhyve.Emul.BlockIf
