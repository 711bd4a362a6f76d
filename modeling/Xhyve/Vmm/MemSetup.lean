import Xhyve.Virtio.GuestRam
import Xhyve.Lib.Transition
import Xhyve.Vmm.PageWalk

/-!
# The two maps of guest memory

`xh_vm_setup_memory` allocates the guest's memory and leaves two records of it: the segments of the
`vm`, which `vm_get_memobj` searches, and the four statics of `vmm_api.c`, which `xh_vm_map_gpa`
compares with. Device models go through the second, the instruction emulator through the first.

Host memory comes from `valloc` and is mapped into the guest; where either fails the process is gone.
-/

namespace Xhyve.Vmm.MemSetup

open Xhyve.Virtio (GuestRam highmemBase)

def xhyvePageSize : Nat := 0x1000
def vmMaxMemorySegments : Nat := 2

structure MemSeg where
  gpa : Nat
  len : Nat
  object : Nat
deriving DecidableEq, Repr

/-- What `vmm_mem_alloc` returns. A block of `valloc` is page-aligned, not NULL and in the lower half
of the host's addresses. -/
structure Host where
  vmmMemAlloc : Nat → Nat → Option Nat
  pos : ∀ {gpa len object}, vmmMemAlloc gpa len = some object → 0 < object
  fits : ∀ {gpa len object}, vmmMemAlloc gpa len = some object → object + len < 2 ^ 47
  aligned : ∀ {gpa len object}, vmmMemAlloc gpa len = some object → xhyvePageSize ∣ object

inductive Failure
  | einval | e2big
  /-- `xhyve_abort`. -/
  | abort
deriving DecidableEq, Repr

/-! ## `vmm.c` -/

def vmMemAllocated (segs : List MemSeg) (gpa : Nat) : Bool :=
  segs.any fun seg => seg.gpa ≤ gpa && gpa < (seg.gpa + seg.len) % 2 ^ 64

/-- The pages the loop of `vm_malloc` looks at. -/
def pagesOf (gpa len : Nat) : List Nat :=
  (List.range (((gpa + len) % 2 ^ 64 - gpa) / xhyvePageSize)).map fun i => gpa + i * xhyvePageSize

def vmMalloc (host : Host) (segs : List MemSeg) (gpa len : Nat) : Except Failure (List MemSeg) :=
  if gpa % xhyvePageSize ≠ 0 ∨ len % xhyvePageSize ≠ 0 ∨ len = 0 then .error .einval
  else
    let allocated := (pagesOf gpa len).countP fun g => vmMemAllocated segs g
    let available := (pagesOf gpa len).countP fun g => !vmMemAllocated segs g
    if allocated ≠ 0 ∧ available ≠ 0 then .error .einval
    else if allocated ≠ 0 ∧ available = 0 then .ok segs
    else if segs.length ≥ vmMaxMemorySegments then .error .e2big
    else
      match host.vmmMemAlloc gpa len with
      | none => .error .abort
      | some object => .ok (segs ++ [⟨gpa, len, object⟩])

/-- The range passes the check for this segment, whose sums are of 64 bits. -/
def MemSeg.covers (seg : MemSeg) (gpa len : Nat) : Bool :=
  seg.object ≠ 0 ∧ gpa ≥ seg.gpa ∧ (gpa + len) % 2 ^ 64 ≤ (seg.gpa + seg.len) % 2 ^ 64

/-- The offset and the object. -/
def vmGetMemobj (segs : List MemSeg) (gpa len : Nat) : Option (Nat × Nat) :=
  (segs.find? fun seg => seg.covers gpa len).map fun seg => (gpa - seg.gpa, seg.object)

def vmGpa2hva (segs : List MemSeg) (gpa len : Nat) : Option Nat :=
  (vmGetMemobj segs gpa len).map fun r => (r.2 + r.1) % 2 ^ 64

/-! ## `vmm_api.c` -/

/-- The segments of the `vm`, and the statics. -/
structure GuestMem where
  memSegs : List MemSeg
  lowmem : Nat
  highmem : Nat
  lowmemAddr : Nat
  highmemAddr : Nat

/-- After `xh_vm_create`. -/
def fresh : GuestMem := ⟨[], 0, 0, 0, 0⟩

/-- The segments, and the host address of the new one. -/
def setupMemorySegment (host : Host) (segs : List MemSeg) (gpa len : Nat) :
    Except Failure (List MemSeg × Nat) := do
  let segs ← vmMalloc host segs gpa len
  match vmGetMemobj segs gpa len with
  | none => .error .einval
  | some (offset, object) => .ok (segs, (object + offset) % 2 ^ 64)

def setupLow (host : Host) (s : GuestMem) : Except Failure GuestMem :=
  if s.lowmem > 0 then do
    let (segs, addr) ← setupMemorySegment host s.memSegs 0 s.lowmem
    .ok { s with memSegs := segs, lowmemAddr := addr }
  else .ok s

def setupHigh (host : Host) (s : GuestMem) : Except Failure GuestMem :=
  if s.highmem > 0 then do
    let (segs, addr) ← setupMemorySegment host s.memSegs highmemBase s.highmem
    .ok { s with memSegs := segs, highmemAddr := addr }
  else .ok s

/-- `xh_vm_setup_memory` with `VM_MMAP_ALL`. -/
def xhVmSetupMemory (host : Host) (lowmemLimit : BitVec 32) (s : GuestMem) (len : BitVec 64) :
    Except Failure GuestMem := do
  let lowmem := if len.toNat > lowmemLimit.toNat then lowmemLimit.toNat else len.toNat
  let highmem := if len.toNat > lowmemLimit.toNat then len.toNat - lowmem else 0
  let s ← setupLow host { s with lowmem := lowmem, highmem := highmem }
  setupHigh host s

def GuestMem.xhVmMapGpa (s : GuestMem) (gpa len : Nat) : Option Nat :=
  if gpa < s.lowmem ∧ (gpa + len) % 2 ^ 64 ≤ s.lowmem then some (s.lowmemAddr + gpa)
  else if gpa ≥ highmemBase then
    let gpa := gpa - highmemBase
    if gpa < s.highmem ∧ (gpa + len) % 2 ^ 64 ≤ s.highmem then some (s.highmemAddr + gpa)
    else none
  else none

/-! ## What the maps should agree on -/

/-- The range lies in a segment. -/
def MemSeg.Holds (seg : MemSeg) (gpa len : Nat) : Prop :=
  seg.gpa ≤ gpa ∧ gpa + len ≤ seg.gpa + seg.len

/-- The guest's memory: from 0 up to the limit, and the rest from 4 GiB. -/
def InGuest (lowmemLimit size gpa len : Nat) : Prop :=
  gpa + len ≤ min size lowmemLimit ∨
    highmemBase ≤ gpa ∧ gpa + len ≤ highmemBase + (size - lowmemLimit)

instance (lowmemLimit size gpa len : Nat) : Decidable (InGuest lowmemLimit size gpa len) :=
  inferInstanceAs (Decidable (_ ∨ _))

structure Agree (s : GuestMem) (lowmemLimit size gpa len : Nat) : Prop where
  map : (s.xhVmMapGpa gpa len).isSome ↔ InGuest lowmemLimit size gpa len
  memobj : (vmGetMemobj s.memSegs gpa len).isSome ↔ InGuest lowmemLimit size gpa len
  host : InGuest lowmemLimit size gpa len → ∃ seg ∈ s.memSegs,
    (seg.gpa = 0 ∨ seg.gpa = highmemBase) ∧ seg.Holds gpa len ∧
      s.xhVmMapGpa gpa len = some (seg.object + (gpa - seg.gpa)) ∧
      vmGetMemobj s.memSegs gpa len = some (gpa - seg.gpa, seg.object) ∧
      vmGpa2hva s.memSegs gpa len = some (seg.object + (gpa - seg.gpa))

/-! ## What a successful setup leaves -/

/-- A block of host memory. -/
structure Block (object len : Nat) : Prop where
  pos : 0 < object
  fits : object + len < 2 ^ 47
  aligned : xhyvePageSize ∣ object

section Setup
variable {host : Host} {segs segs' : List MemSeg} {gpa len addr : Nat}

/-- Nothing behind the segments is allocated. -/
theorem not_allocated {g : Nat} (hfree : ∀ seg ∈ segs, (seg.gpa + seg.len) % 2 ^ 64 ≤ gpa)
    (hg : gpa ≤ g) : vmMemAllocated segs g = false := by
  refine List.any_eq_false.mpr fun seg hseg h => ?_
  obtain ⟨-, hlt⟩ := (Bool.and_eq_true _ _).mp h
  have := hfree seg hseg
  have := of_decide_eq_true hlt
  omega

theorem vmMalloc_ok (hfree : ∀ seg ∈ segs, (seg.gpa + seg.len) % 2 ^ 64 ≤ gpa)
    (h : vmMalloc host segs gpa len = .ok segs') :
    ∃ object, segs' = segs ++ [⟨gpa, len, object⟩] ∧ 0 < len ∧ Block object len := by
  have hnone : (pagesOf gpa len).countP (fun g => vmMemAllocated segs g) = 0 := by
    refine List.countP_eq_zero.mpr fun g hg h => ?_
    obtain ⟨i, -, rfl⟩ := List.mem_map.mp hg
    rw [not_allocated hfree (Nat.le_add_right _ _)] at h
    cases h
  unfold vmMalloc at h
  simp only [hnone, ne_eq, not_true_eq_false, false_and, if_false] at h
  split at h
  · cases h
  · rename_i hlen
    split at h
    · cases h
    · split at h
      · cases h
      · rename_i object halloc
        refine ⟨object, (Except.ok.inj h).symm, by omega, ?_⟩
        exact ⟨host.pos halloc, host.fits halloc, host.aligned halloc⟩

theorem setupMemorySegment_ok (hgpa : gpa ≤ highmemBase)
    (hfree : ∀ seg ∈ segs, (seg.gpa + seg.len) % 2 ^ 64 ≤ gpa)
    (h : setupMemorySegment host segs gpa len = .ok (segs', addr)) :
    segs' = segs ++ [⟨gpa, len, addr⟩] ∧ 0 < len ∧ Block addr len := by
  obtain ⟨segs₁, hmalloc, hrest⟩ := Lib.bind_ok h
  obtain ⟨object, rfl, hlen, hblock⟩ := vmMalloc_ok hfree hmalloc
  have hpos := hblock.pos
  have hfits := hblock.fits
  unfold highmemBase at hgpa
  have hold : segs.find? (fun seg => seg.covers gpa len) = none := by
    refine List.find?_eq_none.mpr fun seg hseg hcov => ?_
    have := hfree seg hseg
    obtain ⟨-, -, hend⟩ := of_decide_eq_true hcov
    omega
  have hnew : MemSeg.covers ⟨gpa, len, object⟩ gpa len = true :=
    decide_eq_true ⟨by simp only; omega, Nat.le_refl _, Nat.le_refl _⟩
  have hget : vmGetMemobj (segs ++ [⟨gpa, len, object⟩]) gpa len = some (0, object) := by
    rw [vmGetMemobj, List.find?_append, hold, Option.none_or, List.find?_singleton, hnew]
    simp
  rw [hget] at hrest
  obtain ⟨rfl, rfl⟩ := Prod.mk.inj (Except.ok.inj hrest)
  have haddr : (object + 0) % 2 ^ 64 = object := by omega
  rw [haddr]
  exact ⟨rfl, hlen, hblock⟩

end Setup

/-- The segment of a part of the memory, where there is one. -/
def segOf (gpa len addr : Nat) : List MemSeg := if len > 0 then [⟨gpa, len, addr⟩] else []

/-- Both records describe the same two segments. -/
structure Laid (lowmemLimit size : Nat) (s : GuestMem) : Prop where
  lowmem : s.lowmem = min size lowmemLimit
  highmem : s.highmem = size - lowmemLimit
  segs : s.memSegs = segOf 0 s.lowmem s.lowmemAddr ++ segOf highmemBase s.highmem s.highmemAddr
  low : 0 < s.lowmem → Block s.lowmemAddr s.lowmem
  high : 0 < s.highmem → Block s.highmemAddr s.highmem

section Laid
variable {host : Host} {s s' : GuestMem} {lowmemLimit : BitVec 32} {size : BitVec 64}

theorem setupLow_ok (hsegs : s.memSegs = []) (h : setupLow host s = .ok s') :
    s'.memSegs = segOf 0 s.lowmem s'.lowmemAddr ∧ s'.lowmem = s.lowmem ∧ s'.highmem = s.highmem ∧
      (0 < s.lowmem → Block s'.lowmemAddr s.lowmem) := by
  unfold setupLow at h
  split at h
  · rename_i hpos
    obtain ⟨⟨segs, addr⟩, hseg, hrest⟩ := Lib.bind_ok h
    obtain rfl := Except.ok.inj hrest
    obtain ⟨hsegs', -, hblock⟩ :=
      setupMemorySegment_ok (Nat.zero_le _) (by simp [hsegs]) hseg
    refine ⟨?_, rfl, rfl, fun _ => hblock⟩
    rw [segOf, if_pos hpos]
    simpa [hsegs] using hsegs'
  · rename_i hzero
    obtain rfl := Except.ok.inj h
    exact ⟨by rw [hsegs, segOf, if_neg hzero], rfl, rfl, fun hpos => absurd hpos hzero⟩

theorem setupHigh_ok (hlow : s.lowmem < 2 ^ 32) (hsegs : s.memSegs = segOf 0 s.lowmem s.lowmemAddr)
    (h : setupHigh host s = .ok s') :
    s'.memSegs = s.memSegs ++ segOf highmemBase s.highmem s'.highmemAddr ∧
      s'.lowmem = s.lowmem ∧ s'.highmem = s.highmem ∧ s'.lowmemAddr = s.lowmemAddr ∧
      (0 < s.highmem → Block s'.highmemAddr s.highmem) := by
  have hfree : ∀ seg ∈ s.memSegs, (seg.gpa + seg.len) % 2 ^ 64 ≤ highmemBase := by
    intro seg hseg
    rw [hsegs, segOf] at hseg
    split at hseg
    · obtain rfl := List.mem_singleton.mp hseg
      simp only [highmemBase]
      omega
    · cases hseg
  unfold setupHigh at h
  split at h
  · rename_i hpos
    obtain ⟨⟨segs, addr⟩, hseg, hrest⟩ := Lib.bind_ok h
    obtain rfl := Except.ok.inj hrest
    obtain ⟨hsegs', -, hblock⟩ := setupMemorySegment_ok (Nat.le_refl _) hfree hseg
    refine ⟨?_, rfl, rfl, rfl, fun _ => hblock⟩
    rw [segOf, if_pos hpos]
    exact hsegs'
  · rename_i hzero
    obtain rfl := Except.ok.inj h
    refine ⟨?_, rfl, rfl, rfl, fun hpos => absurd hpos hzero⟩
    rw [segOf, if_neg hzero, List.append_nil]

theorem setupMemory_laid (h : xhVmSetupMemory host lowmemLimit fresh size = .ok s) :
    Laid lowmemLimit.toNat size.toNat s := by
  have hlimit := lowmemLimit.isLt
  obtain ⟨s₁, hlow, hhigh⟩ := Lib.bind_ok h
  obtain ⟨hsegs₁, hlow₁, hhigh₁, hblock₁⟩ := setupLow_ok rfl hlow
  simp only at hsegs₁ hlow₁ hhigh₁ hblock₁
  have hlowmem : s₁.lowmem = min size.toNat lowmemLimit.toNat := by
    rw [hlow₁]
    split
    · omega
    · omega
  have hhighmem : s₁.highmem = size.toNat - lowmemLimit.toNat := by
    rw [hhigh₁]
    split
    · omega
    · omega
  rw [← hlow₁] at hsegs₁ hblock₁
  obtain ⟨hsegs, hlow', hhigh', haddr, hblock⟩ := setupHigh_ok (by omega) hsegs₁ hhigh
  refine ⟨by rw [hlow', hlowmem], by rw [hhigh', hhighmem], ?_, ?_, ?_⟩
  · rw [hsegs, hsegs₁, hlow', hhigh', haddr]
  · rw [hlow', haddr]
    exact hblock₁
  · rw [hhigh']
    exact hblock

end Laid

/-! ## The two maps -/

section Maps
variable {s : GuestMem} {lowmemLimit size gpa len : Nat}

theorem find_segOf {base l addr : Nat} (hblock : 0 < l → Block addr l) :
    (segOf base l addr).find? (fun seg => seg.covers gpa len) =
      if 0 < l ∧ base ≤ gpa ∧ (gpa + len) % 2 ^ 64 ≤ (base + l) % 2 ^ 64 then some ⟨base, l, addr⟩
      else none := by
  unfold segOf
  split
  · rename_i hpos
    have haddr := (hblock hpos).pos
    rw [List.find?_singleton]
    refine if_congr ?_ rfl rfl
    simp only [MemSeg.covers, decide_eq_true_eq]
    exact and_congr (iff_of_true (by omega) hpos) Iff.rfl
  · rename_i hzero
    rw [if_neg fun h => hzero h.1]
    rfl

theorem Laid.bounds (h : Laid lowmemLimit size s) (hlimit : lowmemLimit < 2 ^ 32) :
    s.lowmem < 2 ^ 32 ∧ s.highmem < 2 ^ 47 := by
  have hlow := h.lowmem
  refine ⟨by omega, ?_⟩
  by_cases hpos : 0 < s.highmem
  · have := (h.high hpos).fits
    omega
  · omega

/-- The memory the rings of the virtio devices are in. -/
def Laid.ram (h : Laid lowmemLimit size s) (hlimit : lowmemLimit < 2 ^ 32) : GuestRam where
  lowmem := s.lowmem
  highmem := s.highmem
  lowmemAddr := if 0 < s.lowmem then s.lowmemAddr else 0
  highmemAddr := if 0 < s.highmem then s.highmemAddr else 0
  lowmem_lt := (h.bounds hlimit).1
  highmem_lt := (h.bounds hlimit).2
  lowmemAddr_aligned := by
    split
    · rename_i hpos
      exact (h.low hpos).aligned
    · exact Nat.dvd_zero _
  highmemAddr_aligned := by
    split
    · rename_i hpos
      exact (h.high hpos).aligned
    · exact Nat.dvd_zero _
  lowmemAddr_pos hpos := by
    rw [if_pos hpos]
    exact (h.low hpos).pos
  highmemAddr_pos hpos := by
    rw [if_pos hpos]
    exact (h.high hpos).pos

theorem Laid.mapGpa_ram (h : Laid lowmemLimit size s) (hlimit : lowmemLimit < 2 ^ 32) :
    s.xhVmMapGpa gpa len = Virtio.xhVmMapGpa (h.ram hlimit) gpa len := by
  unfold GuestMem.xhVmMapGpa Virtio.xhVmMapGpa
  simp only [Laid.ram]
  refine ite_congr rfl (fun hin => ?_) fun _ => ite_congr rfl (fun _ => ?_) fun _ => rfl
  · rw [if_pos (Nat.zero_lt_of_lt hin.1)]
  · refine ite_congr rfl (fun hin => ?_) fun _ => rfl
    rw [if_pos (Nat.zero_lt_of_lt hin.1)]

/-- The page walk's name for the segments, without their objects. -/
def walkSegs (segs : List MemSeg) : List PageWalk.MemSeg := segs.map fun seg => ⟨seg.gpa, seg.len⟩

theorem Laid.object_pos (h : Laid lowmemLimit size s) : ∀ seg ∈ s.memSegs, 0 < seg.object := by
  intro seg hseg
  rw [h.segs, segOf, segOf] at hseg
  rcases List.mem_append.mp hseg with hseg | hseg
  · split at hseg
    · rename_i hpos
      obtain rfl := List.mem_singleton.mp hseg
      exact (h.low hpos).pos
    · cases hseg
  · split at hseg
    · rename_i hpos
      obtain rfl := List.mem_singleton.mp hseg
      exact (h.high hpos).pos
    · cases hseg

/-- The page walk gives up exactly where the segments do. -/
theorem Laid.walk_isSome (h : Laid lowmemLimit size s) :
    (PageWalk.vmGpa2hva (walkSegs s.memSegs) gpa len).isSome ↔
      (vmGpa2hva s.memSegs gpa len).isSome := by
  have hobj := h.object_pos
  have hwalk : (PageWalk.vmGpa2hva (walkSegs s.memSegs) gpa len).isSome ↔
      ∃ seg ∈ s.memSegs, seg.gpa ≤ gpa ∧ (gpa + len) % 2 ^ 64 ≤ (seg.gpa + seg.len) % 2 ^ 64 := by
    rw [PageWalk.vmGpa2hva, Option.isSome_ite, walkSegs, List.any_map]
    simp
  rw [hwalk, vmGpa2hva, vmGetMemobj, Option.isSome_map, Option.isSome_map, List.find?_isSome]
  constructor
  · intro ⟨seg, hseg, hin⟩
    exact ⟨seg, hseg, decide_eq_true ⟨Nat.ne_of_gt (hobj seg hseg), hin⟩⟩
  · intro ⟨seg, hseg, hcov⟩
    exact ⟨seg, hseg, (of_decide_eq_true hcov).2⟩

/-- What the search through the segments comes to. -/
theorem Laid.memobj (h : Laid lowmemLimit size s) (hlimit : lowmemLimit < 2 ^ 32) :
    vmGetMemobj s.memSegs gpa len =
      if 0 < s.lowmem ∧ (gpa + len) % 2 ^ 64 ≤ s.lowmem then some (gpa, s.lowmemAddr)
      else if 0 < s.highmem ∧ highmemBase ≤ gpa ∧
          (gpa + len) % 2 ^ 64 ≤ highmemBase + s.highmem then
        some (gpa - highmemBase, s.highmemAddr)
      else none := by
  obtain ⟨hlow, hhigh⟩ := h.bounds hlimit
  have hlowEnd : (0 + s.lowmem) % 2 ^ 64 = s.lowmem := by omega
  have hhighEnd : (highmemBase + s.highmem) % 2 ^ 64 = highmemBase + s.highmem := by
    unfold highmemBase
    omega
  rw [vmGetMemobj, h.segs, List.find?_append, find_segOf h.low, find_segOf h.high, hlowEnd, hhighEnd]
  simp only [Nat.zero_le, true_and]
  split
  · rfl
  · split
    · rfl
    · rfl

/-- The range lies in the low segment, in the high one or in neither. -/
theorem Laid.inGuest_iff (h : Laid lowmemLimit size s) : InGuest lowmemLimit size gpa len ↔
    gpa + len ≤ s.lowmem ∨ highmemBase ≤ gpa ∧ gpa + len ≤ highmemBase + s.highmem := by
  rw [InGuest, h.lowmem, h.highmem]

section Sum
variable (h : Laid lowmemLimit size s) (hlimit : lowmemLimit < 2 ^ 32) (hpos : 0 < len)
include h hlimit hpos

theorem Laid.memobj_of_lt (hsum : gpa + len < 2 ^ 64) : vmGetMemobj s.memSegs gpa len =
    if gpa + len ≤ s.lowmem then some (gpa, s.lowmemAddr)
    else if highmemBase ≤ gpa ∧ gpa + len ≤ highmemBase + s.highmem then
      some (gpa - highmemBase, s.highmemAddr)
    else none := by
  rw [h.memobj hlimit, Nat.mod_eq_of_lt hsum]
  refine if_congr (by omega) rfl (if_congr ?_ rfl rfl)
  omega

theorem Laid.mapGpa_of_lt (hsum : gpa + len < 2 ^ 64) : s.xhVmMapGpa gpa len =
    if gpa + len ≤ s.lowmem then some (s.lowmemAddr + gpa)
    else if highmemBase ≤ gpa ∧ gpa + len ≤ highmemBase + s.highmem then
      some (s.highmemAddr + (gpa - highmemBase))
    else none := by
  have hlow := (h.bounds hlimit).1
  unfold GuestMem.xhVmMapGpa
  simp only
  refine if_congr (by omega) rfl ?_
  by_cases hbase : highmemBase ≤ gpa
  · rw [if_pos hbase]
    refine if_congr ?_ rfl rfl
    omega
  · rw [if_neg hbase, if_neg fun hin => hbase hin.1]

/-- Where the sum does not wrap, both maps hold the range to the segment it lies in. -/
theorem Laid.agree (hsum : gpa + len < 2 ^ 64) : Agree s lowmemLimit size gpa len := by
  have hmap := h.mapGpa_of_lt hlimit hpos hsum
  have hobj := h.memobj_of_lt hlimit hpos hsum
  by_cases hlow : gpa + len ≤ s.lowmem
  · rw [if_pos hlow] at hmap hobj
    have hin : InGuest lowmemLimit size gpa len := h.inGuest_iff.mpr (Or.inl hlow)
    have hblock := h.low (by omega)
    have hmem : ⟨0, s.lowmem, s.lowmemAddr⟩ ∈ s.memSegs := by
      rw [h.segs, segOf, if_pos (by omega)]
      exact List.mem_append_left _ (List.mem_singleton.mpr rfl)
    refine ⟨by simp [hmap, hin], by simp [hobj, hin], fun _ => ⟨_, hmem, Or.inl rfl, ?_, hmap, hobj, ?_⟩⟩
    · exact ⟨Nat.zero_le _, by simpa using hlow⟩
    · have := hblock.fits
      rw [vmGpa2hva, hobj]
      exact congrArg some (Nat.mod_eq_of_lt (by omega))
  · rw [if_neg hlow] at hmap hobj
    by_cases hhigh : highmemBase ≤ gpa ∧ gpa + len ≤ highmemBase + s.highmem
    · rw [if_pos hhigh] at hmap hobj
      have hin : InGuest lowmemLimit size gpa len := h.inGuest_iff.mpr (Or.inr hhigh)
      have hblock := h.high (by omega)
      have hmem : ⟨highmemBase, s.highmem, s.highmemAddr⟩ ∈ s.memSegs := by
        rw [h.segs]
        refine List.mem_append_right _ ?_
        rw [segOf, if_pos (by omega)]
        exact List.mem_singleton.mpr rfl
      refine ⟨by simp [hmap, hin], by simp [hobj, hin],
        fun _ => ⟨_, hmem, Or.inr rfl, hhigh, hmap, hobj, ?_⟩⟩
      have := hblock.fits
      rw [vmGpa2hva, hobj]
      exact congrArg some (Nat.mod_eq_of_lt (by simp only; omega))
    · rw [if_neg hhigh] at hmap hobj
      have hout : ¬ InGuest lowmemLimit size gpa len := fun hin => by
        rcases h.inGuest_iff.mp hin with hin | hin
        · exact hlow hin
        · exact hhigh hin
      exact ⟨by simp [hmap, hout], by simp [hobj, hout], fun hin => absurd hin hout⟩

/-- A range whose end wraps lies in no segment, and `xh_vm_map_gpa` finds none. -/
theorem Laid.mapGpa_of_wrap (hlen : len ≤ 2 ^ 32) (hgpa : gpa < 2 ^ 64) (hsum : 2 ^ 64 ≤ gpa + len) :
    s.xhVmMapGpa gpa len = none ∧ ¬ InGuest lowmemLimit size gpa len := by
  obtain ⟨hlow, hhigh⟩ := h.bounds hlimit
  have hbase : highmemBase = 2 ^ 32 := rfl
  constructor
  · unfold GuestMem.xhVmMapGpa
    simp only
    rw [if_neg (by omega), if_pos (by omega), if_neg (by omega)]
  · rw [h.inGuest_iff]
    omega

/-- The search through the segments finds one, unless all of the memory lies below the wrapped
end. -/
theorem Laid.memobj_of_wrap (hlen : len ≤ 2 ^ 32) (hgpa : gpa < 2 ^ 64)
    (hsum : 2 ^ 64 ≤ gpa + len) : (vmGetMemobj s.memSegs gpa len).isSome ↔
      ¬ (size = 0 ∨ size ≤ lowmemLimit ∧ size < gpa + len - 2 ^ 64) := by
  have hbase : highmemBase = 2 ^ 32 := rfl
  have hlowmem := h.lowmem
  have hhighmem := h.highmem
  have hwrap : (gpa + len) % 2 ^ 64 = gpa + len - 2 ^ 64 := by omega
  rw [h.memobj hlimit, hwrap]
  split
  · simp only [Option.isSome_some, true_iff]
    omega
  · split
    · simp only [Option.isSome_some, true_iff]
      omega
    · simp only [Option.isSome_none, Bool.false_eq_true, false_iff, not_not]
      omega

end Sum

end Maps

/-- The maps agree on a range exactly when its end does not wrap, or wraps to an address behind all
of the guest's memory. -/
theorem gpaMaps_agree_iff (host : Host) (lowmemLimit : BitVec 32) (size gpa : BitVec 64) (len : Nat)
    (s : GuestMem) (hs : xhVmSetupMemory host lowmemLimit fresh size = .ok s) (hpos : 1 ≤ len)
    (hlen : len ≤ 2 ^ 32) :
    Agree s lowmemLimit.toNat size.toNat gpa.toNat len ↔
      gpa.toNat + len < 2 ^ 64 ∨ size = 0 ∨
        size.toNat ≤ lowmemLimit.toNat ∧ size.toNat < gpa.toNat + len - 2 ^ 64 := by
  have hlaid := setupMemory_laid hs
  have hlimit := lowmemLimit.isLt
  have hgpa := gpa.isLt
  have hzero : size = 0 ↔ size.toNat = 0 := BitVec.toNat_eq
  rw [hzero]
  by_cases hsum : gpa.toNat + len < 2 ^ 64
  · exact iff_of_true (hlaid.agree hlimit hpos hsum) (Or.inl hsum)
  · have hsum' : 2 ^ 64 ≤ gpa.toNat + len := not_lt.mp hsum
    obtain ⟨hmap, hout⟩ := hlaid.mapGpa_of_wrap hlimit hpos hlen hgpa hsum'
    have hobj := hlaid.memobj_of_wrap hlimit hpos hlen hgpa hsum'
    constructor
    · intro hagree
      refine Or.inr (not_not.mp fun hfound => hout ?_)
      exact hagree.memobj.mp (hobj.mpr hfound)
    · intro hcase
      refine ⟨by simp [hmap, hout], ?_, fun hin => absurd hin hout⟩
      refine iff_of_false (fun hsome => hobj.mp hsome ?_) hout
      exact hcase.resolve_left hsum

/-- Two large blocks, one for each segment. -/
def twoBlocks : Host where
  vmmMemAlloc gpa len :=
    if len < 2 ^ 46 then some (if gpa = 0 then 2 ^ 40 else 2 ^ 41) else none
  pos := by
    intro gpa len object h
    split at h
    · obtain rfl := Option.some.inj h
      split
      · decide
      · decide
    · cases h
  fits := by
    intro gpa len object h
    split at h
    · obtain rfl := Option.some.inj h
      split
      · omega
      · omega
    · cases h
  aligned := by
    intro gpa len object h
    split at h
    · obtain rfl := Option.some.inj h
      split
      · decide
      · decide
    · cases h

/-- A guest with one page. -/
def onePage : GuestMem := ⟨[⟨0, 0x1000, 2 ^ 40⟩], 0x1000, 0, 2 ^ 40, 0⟩

theorem onePage_setup : xhVmSetupMemory twoBlocks 0xc0000000 fresh 0x1000 = .ok onePage := by rfl

theorem gpaMaps_agree_onePage :
    Agree onePage 0xc0000000 0x1000 0xfff 1 ↔
      0xfff + 1 < 2 ^ 64 ∨ (0x1000 : BitVec 64) = 0 ∨ 0x1000 ≤ 0xc0000000 ∧
        0x1000 < 0xfff + 1 - 2 ^ 64 :=
  gpaMaps_agree_iff twoBlocks 0xc0000000 0x1000 0xfff 1 onePage onePage_setup (by decide) (by decide)

/-- The last byte there is and the first one. -/
theorem gpaMaps_disagree : ¬ ∀ (host : Host) (lowmemLimit : BitVec 32) (size gpa : BitVec 64)
    (len : Nat) (s : GuestMem), xhVmSetupMemory host lowmemLimit fresh size = .ok s → 1 ≤ len →
    len ≤ 2 ^ 32 → Agree s lowmemLimit.toNat size.toNat gpa.toNat len := by
  intro h
  have hagree := h twoBlocks 0xc0000000 0x1000 0xffffffffffffffff 2 onePage onePage_setup
    (by decide) (by decide)
  have hfound : (vmGetMemobj onePage.memSegs 0xffffffffffffffff 2).isSome := by decide
  have hin := hagree.memobj.mp hfound
  exact absurd hin (by decide)

end Xhyve.Vmm.MemSetup
