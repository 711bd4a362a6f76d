import Xhyve.Virtio.Vqueue
import Mathlib.Tactic

/-!
# Guest memory and the rings in it

Guest memory is one segment from zero and, where it does not fit below the limit, a second one from
4 GiB. `xh_vm_map_gpa` gives the host address of a guest range that lies in one of them, and NULL
otherwise; the rings of a queue are laid out from the address it gives.
-/

namespace Xhyve.Virtio

def vringAlign : Nat := 4096
def highmemBase : Nat := 4 * 2 ^ 30

/-- The two segments. Their host memory comes page-aligned from `valloc`, which does not return NULL;
the limit of the first is a 32-bit value. -/
structure GuestRam where
  lowmem : Nat
  highmem : Nat
  lowmemAddr : Nat
  highmemAddr : Nat
  lowmem_lt : lowmem < 2 ^ 32
  highmem_lt : highmem < 2 ^ 47
  lowmemAddr_aligned : vringAlign ∣ lowmemAddr
  highmemAddr_aligned : vringAlign ∣ highmemAddr
  lowmemAddr_pos : 0 < lowmem → 0 < lowmemAddr
  highmemAddr_pos : 0 < highmem → 0 < highmemAddr

variable (ram : GuestRam)

/-- `xh_vm_map_gpa`; the sums are of 64 bits. -/
def xhVmMapGpa (gpa len : Nat) : Option Nat :=
  if gpa < ram.lowmem ∧ (gpa + len) % 2 ^ 64 ≤ ram.lowmem then some (ram.lowmemAddr + gpa)
  else if gpa ≥ highmemBase then
    let gpa := gpa - highmemBase
    if gpa < ram.highmem ∧ (gpa + len) % 2 ^ 64 ≤ ram.highmem then some (ram.highmemAddr + gpa)
    else none
  else none

/-- The guest's range lies in one of the segments. -/
def InGuestRam (gpa len : Nat) : Prop :=
  gpa < ram.lowmem ∧ gpa + len ≤ ram.lowmem ∨
    highmemBase ≤ gpa ∧ gpa - highmemBase < ram.highmem ∧ gpa - highmemBase + len ≤ ram.highmem

/-- The host's range lies in the memory of one of the segments. -/
def InRam (p len : Nat) : Prop :=
  ram.lowmemAddr ≤ p ∧ p + len ≤ ram.lowmemAddr + ram.lowmem ∨
    ram.highmemAddr ≤ p ∧ p + len ≤ ram.highmemAddr + ram.highmem

variable {ram}

theorem mapGpa_spec {gpa len p : Nat} (hlen : len ≤ 2 ^ 32)
    (h : xhVmMapGpa ram gpa len = some p) :
    InGuestRam ram gpa len ∧ InRam ram p len ∧ (vringAlign ∣ gpa → vringAlign ∣ p) := by
  have hlow := ram.lowmem_lt
  have hhigh := ram.highmem_lt
  unfold xhVmMapGpa at h
  split at h
  · rename_i hin
    obtain rfl := Option.some.inj h
    refine ⟨Or.inl ⟨hin.1, by omega⟩, Or.inl ⟨Nat.le_add_right _ _, by omega⟩, fun hdvd => ?_⟩
    exact Nat.dvd_add ram.lowmemAddr_aligned hdvd
  · split at h
    · rename_i hbase
      simp only at h
      split at h
      · rename_i hin
        obtain rfl := Option.some.inj h
        refine ⟨Or.inr ⟨hbase, hin.1, by omega⟩, Or.inr ⟨Nat.le_add_right _ _, by omega⟩,
          fun hdvd => ?_⟩
        exact Nat.dvd_add ram.highmemAddr_aligned (Nat.dvd_sub hdvd (by decide))
      · cases h
    · cases h

theorem mapGpa_isSome {gpa len : Nat} (hlen : len ≤ 2 ^ 32) (h : InGuestRam ram gpa len) :
    ∃ p, xhVmMapGpa ram gpa len = some p := by
  have hlow := ram.lowmem_lt
  have hhigh := ram.highmem_lt
  unfold xhVmMapGpa
  rcases h with hin | ⟨hbase, hin⟩
  · rw [if_pos ⟨hin.1, by omega⟩]
    exact ⟨_, rfl⟩
  · have hno : ¬ (gpa < ram.lowmem ∧ (gpa + len) % 2 ^ 64 ≤ ram.lowmem) := by
      unfold highmemBase at hbase
      omega
    simp only
    rw [if_neg hno, if_pos hbase, if_pos ⟨hin.1, by omega⟩]
    exact ⟨_, rfl⟩

theorem InRam.mono {p len q n : Nat} (h : InRam ram p len) (hp : p ≤ q) (hq : q + n ≤ p + len) :
    InRam ram q n := by
  unfold InRam at h ⊢
  omega

/-- No segment is at NULL. -/
theorem not_inRam_null {len : Nat} (hlen : 0 < len) : ¬ InRam ram 0 len := by
  intro h
  rcases h with h | h
  · have hpos := ram.lowmemAddr_pos
    omega
  · have hpos := ram.highmemAddr_pos
    omega

/-! ## The rings of a queue -/

def roundup2 (x y : Nat) : Nat := (x + (y - 1)) / y * y

def vringSize (qsz : Nat) : Nat :=
  let size := roundup2 (16 * qsz + 2 * (3 + qsz)) vringAlign
  roundup2 (size + (2 * 3 + 8 * qsz)) vringAlign

structure Rings where
  vqDesc : Nat
  vqAvail : Nat
  vqUsed : Nat
deriving DecidableEq, Repr

/-- The pointers `vi_vq_init` computes; NULL is zero and is not checked for. -/
def viVqInit (ram : GuestRam) (vqQsize : UInt16) (pfn : UInt32) : Rings :=
  let phys := pfn.toNat <<< 12
  let base := (xhVmMapGpa ram phys (vringSize vqQsize.toNat)).getD 0
  let avail := base + vqQsize.toNat * 16
  { vqDesc := base
    vqAvail := avail
    vqUsed := roundup2 (avail + (2 + vqQsize.toNat + 1) * 2) vringAlign }

/-- The descriptor table and both rings lie in guest memory. -/
structure RingsContained (ram : GuestRam) (qsz : Nat) (r : Rings) : Prop where
  desc : InRam ram r.vqDesc (16 * qsz)
  avail : InRam ram r.vqAvail (2 * (3 + qsz))
  used : InRam ram r.vqUsed (6 + 8 * qsz)

theorem roundup2_spec (x : Nat) : x ≤ roundup2 x vringAlign ∧ roundup2 x vringAlign < x + 4096 ∧
    vringAlign ∣ roundup2 x vringAlign := by
  refine ⟨?_, ?_, Nat.dvd_mul_left _ _⟩
  · unfold roundup2 vringAlign
    omega
  · unfold roundup2 vringAlign
    omega

theorem vringSize_le (q : UInt16) : vringSize q.toNat ≤ 2 ^ 32 := by
  have hq := q.toNat_lt
  have h1 := roundup2_spec (16 * q.toNat + 2 * (3 + q.toNat))
  have h2 := roundup2_spec
    (roundup2 (16 * q.toNat + 2 * (3 + q.toNat)) vringAlign + (2 * 3 + 8 * q.toNat))
  unfold vringSize
  simp only
  omega

/-- The rings lie in guest memory exactly when the guest's range for them does. -/
theorem ringsContained_iff (q : UInt16) (pfn : UInt32) :
    RingsContained ram q.toNat (viVqInit ram q pfn) ↔
      InGuestRam ram (pfn.toNat <<< 12) (vringSize q.toNat) := by
  unfold viVqInit
  simp only
  constructor
  · intro h
    cases hmap : xhVmMapGpa ram (pfn.toNat <<< 12) (vringSize q.toNat) with
    | none =>
      rw [hmap, Option.getD_none] at h
      by_cases hq : q.toNat = 0
      · have havail := h.avail
        rw [hq] at havail
        exact absurd havail (not_inRam_null (by decide))
      · exact absurd h.desc (not_inRam_null (by omega))
    | some p => exact (mapGpa_spec (vringSize_le q) hmap).1
  · intro h
    obtain ⟨p, hmap⟩ := mapGpa_isSome (vringSize_le q) h
    obtain ⟨-, hin, halign⟩ := mapGpa_spec (vringSize_le q) hmap
    have hp : vringAlign ∣ p := halign ⟨pfn.toNat, by rw [Nat.shiftLeft_eq]; exact Nat.mul_comm _ _⟩
    rw [hmap, Option.getD_some]
    obtain ⟨k, rfl⟩ := hp
    have h1 := roundup2_spec (16 * q.toNat + 2 * (3 + q.toNat))
    have h2 := roundup2_spec
      (roundup2 (16 * q.toNat + 2 * (3 + q.toNat)) vringAlign + (2 * 3 + 8 * q.toNat))
    have hsize : vringSize q.toNat = roundup2
      (roundup2 (16 * q.toNat + 2 * (3 + q.toNat)) vringAlign + (2 * 3 + 8 * q.toNat)) vringAlign :=
      rfl
    -- the host address is as aligned as the guest's, so both are rounded by the same amount
    have hused : roundup2 (vringAlign * k + q.toNat * 16 + (2 + q.toNat + 1) * 2) vringAlign =
        vringAlign * k + roundup2 (16 * q.toNat + 2 * (3 + q.toNat)) vringAlign := by
      unfold roundup2 vringAlign
      omega
    constructor
    · exact hin.mono le_rfl (by simp only; omega)
    · exact hin.mono (Nat.le_add_right _ _) (by simp only; omega)
    · simp only
      rw [hused]
      exact hin.mono (Nat.le_add_right _ _) (by omega)

end Xhyve.Virtio
