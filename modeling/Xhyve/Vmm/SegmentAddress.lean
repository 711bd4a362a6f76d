import Mathlib.Tactic.Common
import Xhyve.Vmm.PageWalkSdm

/-!
# From an offset in a segment to a linear address

`vie_calculate_gla` checks an access against the descriptor of its segment, byte by byte, and adds the base.
In 64-bit mode there is nothing to check; whether the sum is canonical is left to `vie_canonical_check`.
-/

namespace Xhyve.Vmm.Segment

open Xhyve.Vmm.Decode (CpuMode)
open Xhyve.Vmm.PageWalk (vieCanonicalCheck vieCanonicalCheck_eq)
open Xhyve.Vmm.PageWalk.Sdm (canonical)

inductive SegReg
  | es | cs | ss | ds | fs | gs
deriving DecidableEq, Repr

/-- `struct seg_desc`. -/
structure SegDesc where
  base : BitVec 64
  limit : BitVec 32
  access : BitVec 32
deriving DecidableEq, Repr

/-- `XHYVE_PROT_READ` and `XHYVE_PROT_WRITE`. -/
structure Prot where
  read : Bool
  write : Bool
deriving DecidableEq, Repr

def segDescType (access : BitVec 32) : BitVec 32 := access &&& 0x1f
def segDescPresent (access : BitVec 32) : Bool := access &&& 0x80 ≠ 0
def segDescDef32 (access : BitVec 32) : Bool := access &&& 0x4000 ≠ 0
def segDescUnusable (access : BitVec 32) : Bool := access &&& 0x10000 ≠ 0

def size2mask : Nat → BitVec 64
  | 1 => 0xff
  | 2 => 0xffff
  | 4 => 0xffffffff
  | 8 => 0xffffffffffffffff
  | _ => 0

/-- Why there is no address: -1 is returned, or an assertion fails. -/
inductive Stop
  | fault
  | kassert
deriving DecidableEq, Repr

def check (c : Prop) [Decidable c] (e : Stop) : Except Stop Unit := if c then .ok () else .error e

/-- The loop over the bytes of an access. -/
def limitLoop (mask lowLimit highLimit : BitVec 64) : Nat → BitVec 64 → Except Stop Unit
  | 0, _ => .ok ()
  | length + 1, offset => do
    let offset := offset &&& mask
    check (¬ (offset < lowLimit ∨ offset > highLimit)) .fault
    limitLoop mask lowLimit highLimit length (offset + 1)

def lowLimit (desc : SegDesc) : BitVec 64 :=
  if segDescType desc.access &&& 0xC = 0x4 then (desc.limit + 1).setWidth 64 else 0

def highLimit (desc : SegDesc) : BitVec 64 :=
  if segDescType desc.access &&& 0xC = 0x4 then (if segDescDef32 desc.access then 0xffffffff else 0xffff)
  else desc.limit.setWidth 64

/-- The part of `vie_calculate_gla` for the modes with segments. -/
def segmentCheck (desc : SegDesc) (offset : BitVec 64) (length addrsize : Nat) (prot : Prot) : Except Stop Unit := do
  check (addrsize = 2 ∨ addrsize = 4) .kassert
  check (segDescUnusable desc.access = false) .fault
  check (segDescPresent desc.access = true) .kassert
  check (16 ≤ (segDescType desc.access).toNat ∧ (segDescType desc.access).toNat ≤ 31) .kassert
  check (¬ (prot.read = true ∧ segDescType desc.access &&& 0xA = 0x8)) .fault
  check (¬ (prot.write = true ∧ segDescType desc.access &&& 0x8 ≠ 0)) .fault
  check (¬ (prot.write = true ∧ segDescType desc.access &&& 0xA = 0)) .fault
  limitLoop (size2mask addrsize) (lowLimit desc) (highLimit desc) length offset

def segbase (cpuMode : CpuMode) (seg : SegReg) (desc : SegDesc) : BitVec 64 :=
  if cpuMode = .mode64 ∧ seg ≠ .fs ∧ seg ≠ .gs then 0 else desc.base

def vieCalculateGla (cpuMode : CpuMode) (seg : SegReg) (desc : SegDesc) (offset : BitVec 64) (length addrsize : Nat)
    (prot : Prot) : Except Stop (BitVec 64) := do
  check (length = 1 ∨ length = 2 ∨ length = 4 ∨ length = 8) .kassert
  if cpuMode = .mode64 then check (addrsize = 4 ∨ addrsize = 8) .kassert
  else segmentCheck desc offset length addrsize prot
  let glasize := if cpuMode = .mode64 then 8 else 4
  return (segbase cpuMode seg desc + (offset &&& size2mask addrsize)) &&& size2mask glasize

/-! ## What a segment permits -/

/-- The type of a descriptor. -/
def SegDesc.type (desc : SegDesc) : BitVec 5 := desc.access.setWidth 5

/-- Bit 4 sets code and data segments apart from those of the system, bit 3 code from data. -/
def SegDesc.system (desc : SegDesc) : Bool := !desc.type.getLsbD 4
def SegDesc.code (desc : SegDesc) : Bool := desc.type.getLsbD 3

/-- Bit 1 makes code readable and data writable; bit 2 makes data expand down. -/
def SegDesc.wider (desc : SegDesc) : Bool := desc.type.getLsbD 1
def SegDesc.expandDown (desc : SegDesc) : Bool := !desc.code && desc.type.getLsbD 2

structure SegDesc.Usable (desc : SegDesc) : Prop where
  usable : segDescUnusable desc.access = false
  present : segDescPresent desc.access = true
  segment : desc.system = false

structure SegDesc.Permits (desc : SegDesc) (prot : Prot) : Prop where
  read : prot.read = true → desc.code = true → desc.wider = true
  write : prot.write = true → desc.code = false ∧ desc.wider = true

/-- A byte of the segment. -/
def SegDesc.Within (desc : SegDesc) (off : Nat) : Prop :=
  if desc.expandDown then desc.limit.toNat < off ∧ off ≤ if segDescDef32 desc.access then 0xffffffff else 0xffff
  else off ≤ desc.limit.toNat

/-- The offset an access begins with. -/
def firstoff (offset : BitVec 64) (addrsize : Nat) : Nat := offset.toNat % 2 ^ (8 * addrsize)

/-- The linear address: base and offset, cut to the width of the mode. -/
def linear (cpuMode : CpuMode) (seg : SegReg) (desc : SegDesc) (offset : BitVec 64) (addrsize : Nat) : Nat :=
  ((segbase cpuMode seg desc).toNat + firstoff offset addrsize) % if cpuMode = .mode64 then 2 ^ 64 else 2 ^ 32

/-- What the architecture says of an access. -/
def Allowed (cpuMode : CpuMode) (seg : SegReg) (desc : SegDesc) (offset : BitVec 64) (length addrsize : Nat)
    (prot : Prot) : Prop :=
  if cpuMode = .mode64 then canonical (linear cpuMode seg desc offset addrsize) = true
  else desc.Usable ∧ desc.Permits prot ∧ ∀ i < length, desc.Within (firstoff offset addrsize + i)

section Checks
variable {c : Prop} [Decidable c] {e : Stop} {α : Type} {x : Except Stop α} {y : α}

theorem check_bind_ok : (check c e >>= fun _ => x) = .ok y ↔ c ∧ x = .ok y := by
  unfold check
  by_cases hc : c
  · rw [if_pos hc]
    simp only [hc, true_and]
    rfl
  · rw [if_neg hc]
    simp only [hc, false_and, iff_false]
    exact nofun

end Checks

section Mask

/-- The mask of an address size takes an offset modulo that size. -/
theorem size2mask_and {n : Nat} (hn : n = 1 ∨ n = 2 ∨ n = 4 ∨ n = 8) (x : BitVec 64) :
    (x &&& size2mask n).toNat = x.toNat % 2 ^ (8 * n) := by
  have hmask : (size2mask n).toNat = 2 ^ (8 * n) - 1 := by
    rcases hn with rfl | rfl | rfl | rfl <;> rfl
  rw [BitVec.toNat_and, hmask, Nat.and_two_pow_sub_one_eq_mod]

/-- The next byte of an access. -/
theorem next_offset {n : Nat} (hn : n = 2 ∨ n = 4) (x : BitVec 64) :
    ((x &&& size2mask n) + 1).toNat = x.toNat % 2 ^ (8 * n) + 1 := by
  rw [BitVec.toNat_add, size2mask_and (by omega)]
  refine Nat.mod_eq_of_lt ?_
  have hlt : x.toNat % 2 ^ (8 * n) < 2 ^ 32 := by
    rcases hn with rfl | rfl
    · exact Nat.lt_trans (Nat.mod_lt _ (by decide)) (by decide)
    · exact Nat.mod_lt _ (by decide)
  show x.toNat % 2 ^ (8 * n) + 1 < 2 ^ 64
  omega

theorem limitLoop_ok {n : Nat} (hn : n = 2 ∨ n = 4) (low high : BitVec 64) (length : Nat) (offset : BitVec 64) :
    limitLoop (size2mask n) low high length offset = .ok () ↔
      ∀ i < length, low.toNat ≤ (offset.toNat + i) % 2 ^ (8 * n) ∧ (offset.toNat + i) % 2 ^ (8 * n) ≤ high.toNat := by
  induction length generalizing offset with
  | zero => exact ⟨fun _ i hi => absurd hi (Nat.not_lt_zero i), fun _ => rfl⟩
  | succ length ih =>
    have hfirst : ¬ (offset &&& size2mask n < low ∨ offset &&& size2mask n > high) ↔
        low.toNat ≤ (offset.toNat + 0) % 2 ^ (8 * n) ∧ (offset.toNat + 0) % 2 ^ (8 * n) ≤ high.toNat := by
      rw [BitVec.lt_def, gt_iff_lt, BitVec.lt_def, size2mask_and (by omega), Nat.add_zero]
      omega
    have hrest : ∀ i, (((offset &&& size2mask n) + 1).toNat + i) % 2 ^ (8 * n) =
        (offset.toNat + (i + 1)) % 2 ^ (8 * n) := by
      intro i
      rw [next_offset hn, Nat.add_assoc, Nat.mod_add_mod, Nat.add_comm 1]
    have hloop : limitLoop (size2mask n) low high (length + 1) offset =
      (check (¬ (offset &&& size2mask n < low ∨ offset &&& size2mask n > high)) .fault >>= fun _ =>
        limitLoop (size2mask n) low high length ((offset &&& size2mask n) + 1)) := rfl
    rw [hloop, check_bind_ok, ih, hfirst, Nat.forall_lt_succ_left]
    simp only [hrest]

end Mask

section Types
variable (desc : SegDesc)

theorem type_eq : segDescType desc.access = desc.type.setWidth 32 := by
  unfold segDescType SegDesc.type
  apply BitVec.eq_of_toNat_eq
  rw [BitVec.toNat_and, BitVec.toNat_setWidth, BitVec.toNat_setWidth]
  show desc.access.toNat &&& 2 ^ 5 - 1 = _
  rw [Nat.and_two_pow_sub_one_eq_mod]
  omega

/-- The bits of the type, as the source tests them. -/
theorem type_bits (t : BitVec 5) :
    (16 ≤ (t.setWidth 32).toNat ∧ (t.setWidth 32).toNat ≤ 31 ↔ (!t.getLsbD 4) = false) ∧
      ((t.setWidth 32) &&& 0xA = 0x8 ↔ t.getLsbD 3 = true ∧ t.getLsbD 1 = false) ∧
      ((t.setWidth 32) &&& 0x8 ≠ 0 ↔ t.getLsbD 3 = true) ∧
      ((t.setWidth 32) &&& 0xA = 0 ↔ t.getLsbD 3 = false ∧ t.getLsbD 1 = false) ∧
      ((t.setWidth 32) &&& 0xC = 0x4 ↔ (!t.getLsbD 3 && t.getLsbD 2) = true) := by
  revert t
  decide

theorem permits_iff (prot : Prot) : desc.Permits prot ↔
    ¬ (prot.read = true ∧ segDescType desc.access &&& 0xA = 0x8) ∧
      ¬ (prot.write = true ∧ segDescType desc.access &&& 0x8 ≠ 0) ∧
      ¬ (prot.write = true ∧ segDescType desc.access &&& 0xA = 0) := by
  obtain ⟨-, hexec, hcode, hro, -⟩ := type_bits desc.type
  rw [type_eq, hexec, hcode, hro]
  have hpermits : desc.Permits prot ↔ (prot.read = true → desc.code = true → desc.wider = true) ∧
    (prot.write = true → desc.code = false ∧ desc.wider = true) := ⟨fun h => ⟨h.read, h.write⟩, fun h => ⟨h.1, h.2⟩⟩
  rw [hpermits]
  unfold SegDesc.code SegDesc.wider
  cases prot.read <;> cases prot.write <;> cases desc.type.getLsbD 3 <;> cases desc.type.getLsbD 1 <;> simp

theorem usable_iff : desc.Usable ↔ segDescUnusable desc.access = false ∧ segDescPresent desc.access = true ∧
    16 ≤ (segDescType desc.access).toNat ∧ (segDescType desc.access).toNat ≤ 31 := by
  obtain ⟨hseg, -⟩ := type_bits desc.type
  rw [type_eq, hseg]
  exact ⟨fun h => ⟨h.usable, h.present, h.segment⟩, fun h => ⟨h.1, h.2.1, h.2.2⟩⟩

/-- The limits of the source are those of the segment, unless a segment that expands down is empty. -/
theorem within_iff (hlimit : desc.expandDown = true → desc.limit ≠ 0xffffffff) (off : Nat) :
    desc.Within off ↔ (lowLimit desc).toNat ≤ off ∧ off ≤ (highLimit desc).toNat := by
  obtain ⟨-, -, -, -, hdown⟩ := type_bits desc.type
  have hlt := desc.limit.isLt
  unfold SegDesc.Within lowLimit highLimit
  rw [type_eq]
  by_cases hexp : desc.expandDown = true
  · have hlow : ((desc.limit + 1).setWidth 64).toNat = desc.limit.toNat + 1 := by
      have hne : desc.limit.toNat ≠ 0xffffffff := fun heq => hlimit hexp (BitVec.eq_of_toNat_eq heq)
      rw [BitVec.toNat_setWidth, BitVec.toNat_add]
      show (desc.limit.toNat + 1) % 2 ^ 32 % 2 ^ 64 = _
      omega
    rw [if_pos hexp, if_pos (hdown.mpr hexp), if_pos (hdown.mpr hexp), hlow]
    cases segDescDef32 desc.access with
    | true => exact Iff.rfl
    | false => exact Iff.rfl
  · rw [if_neg hexp, if_neg fun h => hexp (hdown.mp h), if_neg fun h => hexp (hdown.mp h), BitVec.toNat_setWidth]
    show off ≤ desc.limit.toNat ↔ 0 ≤ off ∧ off ≤ desc.limit.toNat % 2 ^ 64
    omega

end Types

section Calculate
variable {cpuMode : CpuMode} {seg : SegReg} {desc : SegDesc} {offset : BitVec 64} {length addrsize : Nat} {prot : Prot}

theorem segmentCheck_ok (haddr : addrsize = 2 ∨ addrsize = 4)
    (hlimit : desc.expandDown = true → desc.limit ≠ 0xffffffff)
    (htop : firstoff offset addrsize + length ≤ 2 ^ (8 * addrsize)) :
    segmentCheck desc offset length addrsize prot = .ok () ↔
      desc.Usable ∧ desc.Permits prot ∧ ∀ i < length, desc.Within (firstoff offset addrsize + i) := by
  have hoff : ∀ i < length, (offset.toNat + i) % 2 ^ (8 * addrsize) = firstoff offset addrsize + i := by
    intro i hi
    unfold firstoff at htop ⊢
    rw [← Nat.mod_add_mod, Nat.mod_eq_of_lt (by omega)]
  have hloop : (∀ i < length, desc.Within (firstoff offset addrsize + i)) ↔
      limitLoop (size2mask addrsize) (lowLimit desc) (highLimit desc) length offset = .ok () := by
    rw [limitLoop_ok haddr]
    refine forall₂_congr fun i hi => ?_
    rw [within_iff desc hlimit, hoff i hi]
  unfold segmentCheck
  simp only [check_bind_ok]
  rw [hloop, permits_iff, usable_iff]
  simp only [haddr, true_and, and_assoc]

theorem linear_toNat (haddr : addrsize = 2 ∨ addrsize = 4 ∨ addrsize = 8) :
    ((segbase cpuMode seg desc + (offset &&& size2mask addrsize)) &&& size2mask (if cpuMode = .mode64 then 8 else 4)).toNat =
      linear cpuMode seg desc offset addrsize := by
  unfold linear
  rw [size2mask_and (by split <;> omega), BitVec.toNat_add, size2mask_and (by omega)]
  split
  · exact Nat.mod_mod _ _
  · exact Nat.mod_mod_of_dvd _ (by decide)

theorem calculate_mode64 (hlen : length = 1 ∨ length = 2 ∨ length = 4 ∨ length = 8) (haddr : addrsize = 4 ∨ addrsize = 8) :
    ∃ gla, vieCalculateGla .mode64 seg desc offset length addrsize prot = .ok gla ∧
      gla.toNat = linear .mode64 seg desc offset addrsize := by
  refine ⟨_, ?_, linear_toNat (by omega)⟩
  unfold vieCalculateGla check
  rw [if_pos hlen, if_pos haddr]
  rfl

theorem calculate_segmented (hmode : cpuMode ≠ .mode64) (hlen : length = 1 ∨ length = 2 ∨ length = 4 ∨ length = 8)
    (gla : BitVec 64) :
    vieCalculateGla cpuMode seg desc offset length addrsize prot = .ok gla ↔
      segmentCheck desc offset length addrsize prot = .ok () ∧
        gla = (segbase cpuMode seg desc + (offset &&& size2mask addrsize)) &&& size2mask 4 := by
  unfold vieCalculateGla
  rw [check_bind_ok, if_neg hmode, if_neg hmode]
  cases segmentCheck desc offset length addrsize prot with
  | ok u =>
    simp only [hlen, true_and]
    exact ⟨fun h => (Except.ok.inj h).symm, fun h => congrArg Except.ok h.symm⟩
  | error e =>
    simp only [hlen, true_and, reduceCtorEq, false_and, iff_false]
    exact nofun

end Calculate

/-- The address sizes there are in a mode. -/
def AddrsizeOk (cpuMode : CpuMode) (addrsize : Nat) : Prop :=
  if cpuMode = .mode64 then addrsize = 4 ∨ addrsize = 8 else addrsize = 2 ∨ addrsize = 4

/-- In the modes with segments, an access that ends below the top of the offsets of its address size, to a segment
that is not an empty one expanding down from the top. -/
structure Regular (desc : SegDesc) (offset : BitVec 64) (length addrsize : Nat) : Prop where
  top : firstoff offset addrsize + length ≤ 2 ^ (8 * addrsize)
  limit : desc.expandDown = true → desc.limit ≠ 0xffffffff

/-- In the modes with segments an access gets an address exactly if the segment permits it and every byte of it lies
within. In 64-bit mode every access gets one, and `vie_canonical_check` is what tells the canonical ones apart. -/
theorem calculate_gla_exact (cpuMode : CpuMode) (seg : SegReg) (desc : SegDesc) (offset : BitVec 64) {length addrsize : Nat}
    (prot : Prot) (hlen : length = 1 ∨ length = 2 ∨ length = 4 ∨ length = 8) (haddr : AddrsizeOk cpuMode addrsize) :
    (∀ gla, vieCalculateGla cpuMode seg desc offset length addrsize prot = .ok gla →
      gla.toNat = linear cpuMode seg desc offset addrsize) ∧
    (cpuMode = .mode64 → ∃ gla, vieCalculateGla cpuMode seg desc offset length addrsize prot = .ok gla ∧
      (vieCanonicalCheck cpuMode gla.toNat = false ↔ Allowed cpuMode seg desc offset length addrsize prot)) ∧
    (cpuMode ≠ .mode64 → Regular desc offset length addrsize →
      ((∃ gla, vieCalculateGla cpuMode seg desc offset length addrsize prot = .ok gla ∧
        vieCanonicalCheck cpuMode gla.toNat = false) ↔ Allowed cpuMode seg desc offset length addrsize prot)) := by
  unfold AddrsizeOk at haddr
  by_cases hmode : cpuMode = .mode64
  · subst hmode
    rw [if_pos rfl] at haddr
    obtain ⟨gla, hok, hgla⟩ := @calculate_mode64 seg desc offset length addrsize prot hlen haddr
    refine ⟨fun gla' hok' => ?_, fun _ => ⟨gla, hok, ?_⟩, fun hne => absurd rfl hne⟩
    · obtain rfl := Except.ok.inj (hok.symm.trans hok')
      exact hgla
    · have hcheck := vieCanonicalCheck_eq .mode64 gla.isLt
      unfold Allowed
      rw [if_pos rfl, ← hgla]
      simpa using not_congr hcheck
  · rw [if_neg hmode] at haddr
    have hok := @calculate_segmented cpuMode seg desc offset length addrsize prot hmode hlen
    have hcanon : ∀ gla, vieCanonicalCheck cpuMode gla = false := fun gla => if_pos hmode
    refine ⟨fun gla hgla => ?_, fun h64 => absurd h64 hmode, fun _ hreg => ?_⟩
    · obtain ⟨-, rfl⟩ := (hok gla).mp hgla
      have hlinear := @linear_toNat cpuMode seg desc offset addrsize (by omega)
      rwa [if_neg hmode] at hlinear
    · unfold Allowed
      rw [if_neg hmode, ← segmentCheck_ok haddr hreg.limit hreg.top]
      constructor
      · rintro ⟨gla, hgla, -⟩
        exact ((hok gla).mp hgla).1
      · exact fun hcheck => ⟨_, (hok _).mpr ⟨hcheck, rfl⟩, hcanon _⟩

/-- A stack that expands down to offset `0x1000`. -/
def stackSegment : SegDesc := ⟨0x10000, 0xfff, 0x4096⟩

/-- A word at its lower end is refused, the one above it is not. -/
theorem calculate_gla_exact_stack :
    ¬ Allowed .protectedMode .ss stackSegment 0xfff 2 4 ⟨false, true⟩ ∧
      Allowed .protectedMode .ss stackSegment 0x1000 2 4 ⟨false, true⟩ := by
  have hlow := (@calculate_gla_exact .protectedMode .ss stackSegment 0xfff 2 4 ⟨false, true⟩ (by decide) (.inr rfl)).2.2 nofun
    ⟨by decide, fun _ => by decide⟩
  have hhigh := (@calculate_gla_exact .protectedMode .ss stackSegment 0x1000 2 4 ⟨false, true⟩ (by decide) (.inr rfl)).2.2 nofun
    ⟨by decide, fun _ => by decide⟩
  refine ⟨fun hall => ?_, hhigh.mp ⟨_, rfl, rfl⟩⟩
  obtain ⟨gla, hgla, -⟩ := hlow.mpr hall
  cases hgla

/-- An address that is not canonical is handed back all the same. -/
theorem calculate_gla_not_canonical :
    ∃ gla, vieCalculateGla .mode64 .ds stackSegment 0x800000000000 8 8 ⟨true, false⟩ = .ok gla ∧
      ¬ Allowed .mode64 .ds stackSegment 0x800000000000 8 8 ⟨true, false⟩ := by
  refine ⟨_, rfl, ?_⟩
  rw [Allowed, if_pos rfl]
  decide

end Xhyve.Vmm.Segment
