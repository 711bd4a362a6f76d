import Xhyve.Firmware.Kexec

/-!
# The layout of a booted kernel

What is loaded lies in low memory, each part beside the others, and the zero page says where. Two files defeat the checks:
a kernel that is loaded at a fixed address so high that the end of its area wraps, and a ramdisk whose size nobody knows.
-/

namespace Xhyve.Firmware

open Xhyve.Lib (Mem WriteLog LittleEndian.toNat LittleEndian.bytes)
open Xhyve.Lib.WriteLog (Field)
open Xhyve.Virtio (GuestRam xhVmMapGpa)

/-- Low memory is mapped at its address, which no sum into it wraps. -/
structure HostRam extends GuestRam where
  top : lowmemAddr + lowmem ≤ 2 ^ 64

/-- A range of guest-physical addresses. -/
structure Extent where
  first : Nat
  length : Nat

def Extent.Has (e : Extent) (g : Nat) : Prop := e.first ≤ g ∧ g < e.first + e.length
def Extent.Disjoint (e e' : Extent) : Prop := ∀ g, e.Has g → ¬ e'.Has g

def Region.extent (r : Region) : Extent := ⟨r.base.toNat, r.size.toNat⟩

/-- The GDT, the zero page, the command line, the kernel with the area it initialises itself in, and the ramdisk. -/
def extents (cmdline : List UInt8) (kernel ramdisk : Region) : List Extent :=
  [⟨0x2000, 32⟩, ⟨0x3000, 4096⟩, ⟨0x4000, cmdline.length + 1⟩, kernel.extent, ramdisk.extent]

/-- An address of which the zero page has the upper half in another field. -/
def recorded (memory : Region) (s : WriteLog) (low high : Field) : Nat := zpGet memory s low + 2 ^ 32 * zpGet memory s high

structure Layout (ram : GuestRam) (cmdline : List UInt8) (kernel ramdisk : Region) (s : WriteLog) : Prop where
  disjoint : (extents cmdline kernel ramdisk).Pairwise Extent.Disjoint
  inside : ∀ e ∈ extents cmdline kernel ramdisk, e.first + e.length ≤ ram.lowmem
  written : s.Within fun x => ∃ e ∈ extents cmdline kernel ramdisk, ∃ g, e.Has g ∧ x = ram.lowmemAddr + g
  cmdLinePtr : recorded (lowMemory ram) s cmdLinePtr extCmdLinePtr = 0x4000
  ramdiskImage : recorded (lowMemory ram) s ramdiskImage extRamdiskImage = ramdisk.base.toNat
  ramdiskSize : recorded (lowMemory ram) s ramdiskSize extRamdiskSize = ramdisk.size.toNat

/-- A field of the setup header in the kernel's file, where it has the offset it has in the zero page. -/
def File.field (f : File) (field : Field) : Nat := LittleEndian.toNat ((f.content.drop field.offset).take field.width)

/-- `init_size` in whole pages; 4 GiB when it is zero. -/
def File.initArea (f : File) : Nat := ((f.field initSize + (2 ^ 32 - 1)) % 2 ^ 32 / 4096 + 1) * 4096

/-- The kernel can be moved, or ends where its area does not wrap. -/
def File.Placed (f : File) : Prop := f.field relocatableKernel ≠ 0 ∨ f.field prefAddress + f.initArea < 2 ^ 64

/-! ## Words -/

section Words

theorem and_not_page (x : BitVec 64) : (x &&& ~~~(0x1000 - 1)).toNat = x.toNat / 4096 * 4096 := by
  have hmask : (0x1000 - 1 : BitVec 64) = (BitVec.allOnes 12).setWidth 64 := by decide
  have hshift : x &&& ~~~(0x1000 - 1 : BitVec 64) = x >>> 12 <<< 12 := by
    rw [hmask]
    ext i hi
    rw [BitVec.getElem_and, BitVec.getElem_not, BitVec.getElem_shiftLeft, BitVec.getElem_setWidth, BitVec.getLsbD_allOnes]
    by_cases h12 : i < 12
    · simp [h12]
    · have hsum : 12 + (i - 12) = i := by omega
      simp [h12, hsum, BitVec.getLsbD_eq_getElem hi]
  have hlt := x.isLt
  rw [hshift, BitVec.toNat_shiftLeft, BitVec.toNat_ushiftRight, Nat.shiftRight_eq_div_pow, Nat.shiftLeft_eq]
  omega

theorem alignUp_page (x : BitVec 64) (h : x.toNat + 4096 < 2 ^ 64) :
    (alignUp x (~~~(0x1000 - 1)) 0x1000).toNat = (x.toNat / 4096 + 1) * 4096 := by
  have hand := and_not_page x
  unfold alignUp
  rw [BitVec.toNat_add, hand]
  change (x.toNat / 4096 * 4096 + 4096) % 2 ^ 64 = _
  omega

/-- What a movable kernel is aligned to has 32 bits. -/
theorem alignUp_word_lt (x : BitVec 64) (a : BitVec 32) (hx : x.toNat < 2 ^ 32) :
    (alignUp x ((~~~(a - 1)).setWidth 64) (a.setWidth 64)).toNat < 2 ^ 33 := by
  have ha := a.isLt
  have hand : (x &&& (~~~(a - 1)).setWidth 64).toNat ≤ x.toNat := by
    rw [BitVec.toNat_and]
    exact Nat.and_le_left
  have hwide : (a.setWidth 64).toNat = a.toNat := by
    rw [BitVec.toNat_setWidth]
    omega
  unfold alignUp
  rw [BitVec.toNat_add, hwide]
  omega

end Words

/-! ## The kernel -/

section Kernel

variable {ram : GuestRam} {memory kernel : Region} {cmdline : List UInt8} {f : File} {sz : BitVec 64} {s s' : WriteLog}
  {field : Field}

def headerBytes (f : File) : List UInt8 := (f.content.drop setupHeader).take sizeofSetupHeader

/-- The zero page with the header of a file. -/
def headed (memory : Region) (f : File) (s : WriteLog) : WriteLog :=
  (s.put (hostAddr memory baseZeropage) (List.replicate sizeofZeroPage 0)).put
    (hostAddr memory baseZeropage + setupHeader) (headerBytes f)

theorem zpGet_lt (memory : Region) (s : WriteLog) (field : Field) : zpGet memory s field < 256 ^ field.width :=
  Mem.load_lt ..

theorem headed_field (hlen : (headerBytes f).length = sizeofSetupHeader) (hlo : setupHeader ≤ field.offset)
    (hhi : field.offset + field.width ≤ setupHeader + sizeofSetupHeader) :
    zpGet memory (headed memory f s) field = f.field field := by
  have haddr : hostAddr memory baseZeropage + field.offset =
      hostAddr memory baseZeropage + setupHeader + (field.offset - setupHeader) := by omega
  have hin : field.offset - setupHeader + field.width ≤ (headerBytes f).length := by omega
  have hload := WriteLog.load_put (s := s.put (hostAddr memory baseZeropage) (List.replicate sizeofZeroPage 0))
    (a := hostAddr memory baseZeropage + setupHeader) hin
  rw [← haddr] at hload
  refine hload.trans (congrArg LittleEndian.toNat ?_)
  have hdrop : setupHeader + (field.offset - setupHeader) = field.offset := by omega
  rw [headerBytes, List.drop_take, List.drop_drop, List.take_take, hdrop, Nat.min_eq_left (by omega)]

theorem kernelInitSize_toNat (memory : Region) (s : WriteLog) :
    (kernelInitSize memory s).toNat = ((zpGet memory s initSize + (2 ^ 32 - 1)) % 2 ^ 32 / 4096 + 1) * 4096 := by
  have hlt := zpGet_lt memory s initSize
  have hbelow : ((BitVec.ofNat 32 (zpGet memory s initSize) - 1).setWidth 64).toNat =
      (zpGet memory s initSize + (2 ^ 32 - 1)) % 2 ^ 32 := by
    rw [BitVec.toNat_setWidth, BitVec.toNat_sub, BitVec.toNat_ofNat]
    change (2 ^ 32 - 1 + zpGet memory s initSize % 2 ^ 32) % 2 ^ 32 % 2 ^ 64 = _
    omega
  unfold kernelInitSize
  rw [alignUp_page _ (by omega), hbelow]

theorem initArea_le (f : File) : f.initArea ≤ 2 ^ 32 := by
  unfold File.initArea
  omega

theorem kernelOffset_toNat_le (memory : Region) (s : WriteLog) : (kernelOffset memory s).toNat ≤ 2 ^ 17 := by
  have hlt : zpGet memory s setupSects < 256 := zpGet_lt memory s setupSects
  unfold kernelOffset
  rw [BitVec.toNat_ofNat]
  omega

/-- What there is of a kernel that has been copied. -/
theorem copyKernel_spec (h : copyKernel memory f sz s = some (kernel, s')) :
    kernel = ⟨kernelStart memory s, kernelInitSize memory s⟩ ∧ baseKernel.toNat ≤ kernel.base.toNat ∧
      (sz - kernelOffset memory s).toNat ≤ kernel.size.toNat ∧ (kernel.base + kernel.size).toNat ≤ memory.size.toNat ∧
      ∃ bs, 0 < bs.length ∧ bs.length ≤ kernel.size.toNat ∧ s' = s.put (hostAddr memory kernel.base) bs := by
  unfold copyKernel at h
  dsimp only at h
  split at h
  · cases h
  · rename_i hok
    split at h
    · cases h
    · rename_i hread
      obtain ⟨rfl, rfl⟩ := Prod.mk.inj (Option.some.inj h)
      rw [not_or, not_or] at hok
      have hbase := BitVec.le_def.mp (BitVec.not_lt.mp hok.1)
      have hsize := BitVec.le_def.mp (BitVec.not_lt.mp hok.2.1)
      have hroom := BitVec.le_def.mp (BitVec.not_lt.mp hok.2.2)
      refine ⟨rfl, hbase, hsize, hroom, _, Nat.pos_of_ne_zero hread, ?_, rfl⟩
      exact (List.length_take_le ..).trans hsize

theorem copyCmdline_spec (h : copyCmdline memory cmdline s kernel = some s') :
    cmdline.length + 1 < 2 ^ 32 ∧ baseCmdline.toNat + (cmdline.length + 1) ≤ kernel.base.toNat ∧
      s' = (s.put (hostAddr memory baseCmdline) cmdline).put
        (hostAddr memory (baseCmdline + BitVec.ofNat 64 cmdline.length)) [0] := by
  have hlt : zpGet memory s cmdlineSize < 2 ^ 32 := zpGet_lt memory s cmdlineSize
  unfold copyCmdline at h
  split at h
  · cases h
  · rename_i hok
    exact ⟨by omega, by omega, (Option.some.inj h).symm⟩

/-- A kernel that has been loaded, and what has been written for it. -/
structure KernelLoaded (ram : GuestRam) (memory : Region) (cmdline : List UInt8) (f : File) (s : WriteLog)
    (kernel : Region) (s' : WriteLog) : Prop where
  size_ge : 0x4000 ≤ memory.size.toNat
  fixed : f.field relocatableKernel = 0 → kernel.base.toNat = f.field prefAddress
  movable : f.field relocatableKernel ≠ 0 → kernel.base.toNat < 2 ^ 33
  size : kernel.size.toNat = f.initArea
  high : 0x100000 ≤ kernel.base.toNat
  room : (kernel.base + kernel.size).toNat ≤ memory.size.toNat
  short : cmdline.length + 1 < 2 ^ 32
  below : 0x4000 + (cmdline.length + 1) ≤ kernel.base.toNat
  header : (headerBytes f).length = sizeofSetupHeader
  state : ∃ bs, 0 < bs.length ∧ bs.length ≤ kernel.size.toNat ∧
    s' = zpFill memory ((((headed memory f s).put (hostAddr memory kernel.base) bs).put
      (hostAddr memory baseCmdline) cmdline).put (hostAddr memory (baseCmdline + BitVec.ofNat 64 cmdline.length)) [0])
        (kernelFields ram memory)

/-- A file of unknown size is taken for one too large. -/
theorem copyKernel_unsized : copyKernel memory f (-1) s ≠ some (kernel, s') := by
  intro h
  obtain ⟨rfl, -, hsize, -⟩ := copyKernel_spec h
  have hinit : (kernelInitSize memory s).toNat ≤ 2 ^ 32 := by
    rw [kernelInitSize_toNat]
    omega
  have hoff := kernelOffset_toNat_le memory s
  have hneg : (-1 : BitVec 64).toNat = 2 ^ 64 - 1 := by decide
  rw [BitVec.toNat_sub, hneg] at hsize
  dsimp only at hsize
  omega

theorem tell_seekEnd (f : File) : f.seekEnd.tell = if f.seekable then BitVec.ofNat 64 f.content.length else -1 := by
  unfold File.seekEnd File.seek File.tell
  cases hseek : f.seekable with
  | false => simp [hseek]
  | true => simp

/-- A file that can be sought and is not too short for it has its header read. -/
theorem headerBytes_length (hseek : f.seekable = true)
    (hsz : ¬ f.seekEnd.tell < BitVec.ofNat 64 (setupHeader + sizeofSetupHeader)) :
    (headerBytes f).length = sizeofSetupHeader := by
  have hlt := f.content_lt
  have hle := BitVec.le_def.mp (BitVec.not_lt.mp hsz)
  have hoff : setupHeader = 497 := rfl
  have hsize : sizeofSetupHeader = 119 := rfl
  rw [tell_seekEnd, if_pos hseek, BitVec.toNat_ofNat, BitVec.toNat_ofNat, hoff, hsize] at hle
  rw [headerBytes, List.length_take, List.length_drop, hoff, hsize]
  omega

theorem readHeader_spec {r : File × WriteLog} (hseek : f.seekable = true) (h : readHeader memory f.seekEnd s = some r) :
    r.2 = headed memory f s := by
  have hread : ((f.seekEnd.seek setupHeader).fread sizeofSetupHeader).1 = headerBytes f := by
    unfold File.seekEnd File.seek
    simp only [hseek, if_true]
    rfl
  unfold readHeader at h
  dsimp only at h
  split at h
  · cases h
  · obtain rfl := Option.some.inj h
    dsimp only
    rw [hread]
    rfl

theorem kernelStart_fixed (h : zpGet memory s relocatableKernel = 0) :
    (kernelStart memory s).toNat = zpGet memory s prefAddress := by
  have hlt : zpGet memory s prefAddress < 2 ^ 64 := zpGet_lt memory s prefAddress
  unfold kernelStart
  dsimp only
  rw [if_neg (not_not.mpr h), BitVec.toNat_ofNat, Nat.mod_eq_of_lt hlt]

theorem kernelStart_movable (h : zpGet memory s relocatableKernel ≠ 0) : (kernelStart memory s).toNat < 2 ^ 33 := by
  unfold kernelStart
  dsimp only
  rw [if_pos h]
  exact alignUp_word_lt _ _ (by decide)

theorem kexecLoadKernel_spec (h : kexecLoadKernel ram memory cmdline s (some f) = some (kernel, s')) :
    KernelLoaded ram memory cmdline f s kernel s' := by
  unfold kexecLoadKernel at h
  split at h
  · cases h
  rename_i hmem
  dsimp only [Option.bind_some] at h
  split at h
  · cases h
  rename_i hsz
  obtain ⟨r, hread, h⟩ := Option.bind_eq_some_iff.mp h
  split at h
  · cases h
  obtain ⟨k, hcopy, h⟩ := Option.bind_eq_some_iff.mp h
  obtain ⟨u, hcmd, hu⟩ := Option.map_eq_some_iff.mp h
  obtain ⟨rfl, rfl⟩ := Prod.mk.inj hu
  have hseek : f.seekable = true := by
    cases hseek : f.seekable with
    | true => rfl
    | false =>
      rw [tell_seekEnd, hseek] at hcopy
      exact absurd hcopy copyKernel_unsized
  have hlen := headerBytes_length hseek hsz
  have hr := readHeader_spec hseek hread
  rw [hr] at hcopy
  obtain ⟨hkernel, hbase, -, hroom, bs, hpos, hbs, hk⟩ := copyKernel_spec hcopy
  obtain ⟨hshort, hbelow, hput⟩ := copyCmdline_spec hcmd
  have hreloc : zpGet memory (headed memory f s) relocatableKernel = f.field relocatableKernel :=
    headed_field hlen (by decide) (by decide)
  have hpref : zpGet memory (headed memory f s) prefAddress = f.field prefAddress :=
    headed_field hlen (by decide) (by decide)
  have hinit : zpGet memory (headed memory f s) initSize = f.field initSize :=
    headed_field hlen (by decide) (by decide)
  have hb : k.1.base = kernelStart memory (headed memory f s) := by rw [hkernel]
  have hs : k.1.size = kernelInitSize memory (headed memory f s) := by rw [hkernel]
  refine ⟨?_, fun h0 => ?_, fun h0 => ?_, ?_, hbase, hroom, hshort, hbelow, hlen, bs, hpos, hbs, ?_⟩
  · exact BitVec.le_def.mp (BitVec.not_lt.mp (not_or.mp hmem).1)
  · rw [hb, ← hpref]
    exact kernelStart_fixed (hreloc.trans h0)
  · rw [hb]
    exact kernelStart_movable (by rw [hreloc]; exact h0)
  · rw [hs, kernelInitSize_toNat, hinit]
    rfl
  · rw [hput, hk]

end Kernel

/-! ## The ramdisk -/

section Ramdisk

variable {ram : HostRam} {memory kernel ramdisk : Region} {cmdline : List UInt8} {f r : File} {s s' : WriteLog}

/-- A ramdisk that has been loaded. -/
structure RamdiskLoaded (memory : Region) (f : File) (s : WriteLog) (kernel ramdisk : Region) (s' : WriteLog) : Prop where
  base : ramdisk.base = alignUp (kernel.base + kernel.size - 1) (~~~(0x1000 - 1)) 0x1000
  size : ramdisk.size = f.seekEnd.tell
  room : (ramdisk.base + ramdisk.size).toNat ≤ memory.size.toNat
  state : ∃ bs, 0 < bs.length ∧ bs.length ≤ ramdisk.size.toNat ∧
    s' = zpFill memory (s.put (hostAddr memory ramdisk.base) bs) (ramdiskFields ramdisk)

theorem kexecLoadRamdisk_spec (h : kexecLoadRamdisk memory s kernel (some f) = some (ramdisk, s')) :
    RamdiskLoaded memory f s kernel ramdisk s' := by
  unfold kexecLoadRamdisk at h
  dsimp only [Option.bind_some] at h
  split at h
  · cases h
  · rename_i hroom
    split at h
    · cases h
    · rename_i hread
      obtain ⟨rfl, rfl⟩ := Prod.mk.inj (Option.some.inj h)
      exact ⟨rfl, rfl, BitVec.le_def.mp (BitVec.not_lt.mp hroom), _, Nat.pos_of_ne_zero hread, List.length_take_le .., rfl⟩

theorem lowMemory_size (ram : HostRam) : (lowMemory ram.toGuestRam).size.toNat = ram.lowmem := by
  have hlt := ram.lowmem_lt
  unfold lowMemory
  rw [BitVec.toNat_ofNat]
  omega

theorem hostAddr_lowMemory {gpa : BitVec 64} (h : gpa.toNat < ram.lowmem) :
    hostAddr (lowMemory ram.toGuestRam) gpa = ram.lowmemAddr + gpa.toNat := by
  have htop := ram.top
  have hmap : xhVmMapGpa ram.toGuestRam 0 ram.lowmem = some ram.lowmemAddr := by
    have hlt := ram.lowmem_lt
    unfold xhVmMapGpa
    rw [if_pos ⟨by omega, by omega⟩]
    rfl
  unfold hostAddr lowMemory
  rw [BitVec.toNat_add, hmap, Option.getD_some, BitVec.toNat_ofNat]
  omega

/-- The two regions as the checks leave them when no sum wraps. -/
structure Fits (lowmem length : Nat) (kernel ramdisk : Region) : Prop where
  lowmem_lt : lowmem < 2 ^ 32
  high : 0x100000 ≤ kernel.base.toNat
  below : 0x4000 + (length + 1) ≤ kernel.base.toNat
  room : kernel.base.toNat + kernel.size.toNat ≤ lowmem
  above : kernel.base.toNat + kernel.size.toNat ≤ ramdisk.base.toNat
  ramdiskRoom : ramdisk.base.toNat + ramdisk.size.toNat ≤ lowmem

theorem fits {n : Nat} (hn : n < 2 ^ 32) (hsize : memory.size.toNat = n)
    (hk : KernelLoaded ram.toGuestRam memory cmdline f s kernel s')
    (hend : kernel.base.toNat + kernel.size.toNat < 2 ^ 64) {t t' : WriteLog} (hr : RamdiskLoaded memory r t kernel ramdisk t')
    (hseek : r.seekable = true) : Fits n cmdline.length kernel ramdisk := by
  have hhigh := hk.high
  have hlt := r.content_lt
  have hroom := hk.room
  rw [BitVec.toNat_add, Nat.mod_eq_of_lt hend, hsize] at hroom
  have hlast : (kernel.base + kernel.size - 1).toNat = kernel.base.toNat + kernel.size.toNat - 1 := by
    rw [BitVec.toNat_sub, BitVec.toNat_add, Nat.mod_eq_of_lt hend]
    change (2 ^ 64 - 1 + _) % 2 ^ 64 = _
    omega
  have hbase : ramdisk.base.toNat = ((kernel.base.toNat + kernel.size.toNat - 1) / 4096 + 1) * 4096 := by
    rw [hr.base, alignUp_page _ (by omega), hlast]
  have hlength : ramdisk.size.toNat = r.content.length := by
    rw [hr.size, tell_seekEnd, if_pos hseek, BitVec.toNat_ofNat]
    omega
  have hrroom := hr.room
  rw [BitVec.toNat_add, hsize, hbase, hlength] at hrroom
  exact ⟨hn, hhigh, hk.below, hroom, by omega, by omega⟩

theorem extents_disjoint (h : Fits ram.lowmem cmdline.length kernel ramdisk) :
    (extents cmdline kernel ramdisk).Pairwise Extent.Disjoint := by
  obtain ⟨-, hhigh, hbelow, -, habove, -⟩ := h
  unfold extents Extent.Disjoint Extent.Has Region.extent
  simp only [List.pairwise_cons, List.mem_cons, List.not_mem_nil, or_false, forall_eq_or_imp, forall_eq, IsEmpty.forall_iff,
    implies_true, List.Pairwise.nil, and_true]
  refine ⟨⟨?_, ?_, ?_, ?_⟩, ⟨?_, ?_, ?_⟩, ⟨?_, ?_⟩, ?_⟩ <;> intro g hg hg' <;> omega

theorem extents_inside (h : Fits ram.lowmem cmdline.length kernel ramdisk) :
    ∀ e ∈ extents cmdline kernel ramdisk, e.first + e.length ≤ ram.lowmem := by
  obtain ⟨-, hhigh, hbelow, hroom, -, hramdisk⟩ := h
  unfold extents Region.extent
  simp only [List.mem_cons, List.not_mem_nil, or_false, forall_eq_or_imp, forall_eq]
  refine ⟨?_, ?_, ?_, hroom, hramdisk⟩ <;> omega

end Ramdisk

/-! ## What is written -/

section Written

variable {ram : HostRam} {kernel ramdisk : Region} {cmdline : List UInt8} {f r : File} {s s' t : WriteLog} {field : Field}
  {low high : Field}

/-- A field of the zero page, with the same for what is loaded. -/
def InZeroPage (field : Field) : Prop := field.offset + field.width ≤ 4096

instance (field : Field) : Decidable (InZeroPage field) := inferInstanceAs (Decidable (_ ≤ _))

/-- All fields of a list are beside one. -/
def Beside (field : Field) (fields : List (Field × Nat)) : Prop := fields.all (fun e => decide (field.Apart e.1)) = true

theorem Beside.apart {fields : List (Field × Nat)} (h : Beside field fields) : ∀ e ∈ fields, field.Apart e.1 :=
  fun e he => of_decide_eq_true (List.all_eq_true.mp h e he)

/-- The last value of a field that is filled in. -/
theorem zpGet_zpFill {memory : Region} {fields : List (Field × Nat)} {v : Nat} (k : Nat)
    (hfield : fields = fields.take k ++ (field, v) :: fields.drop (k + 1)) (hv : v < 256 ^ field.width)
    (hrest : Beside field (fields.drop (k + 1))) : zpGet memory (zpFill memory s fields) field = v := by
  rw [hfield]
  exact WriteLog.get_fill hv hrest.apart

theorem kernelFields_beside (ram : GuestRam) (memory : Region) :
    Beside cmdLinePtr ((kernelFields ram memory).drop 1) ∧ Beside extCmdLinePtr ((kernelFields ram memory).drop 2) := by
  unfold Beside kernelFields e820Map
  split
  · exact ⟨rfl, rfl⟩
  · exact ⟨rfl, rfl⟩

theorem ramdiskFields_beside (ramdisk : Region) :
    Beside ramdiskImage ((ramdiskFields ramdisk).drop 1) ∧ Beside extRamdiskImage ((ramdiskFields ramdisk).drop 2) ∧
      Beside ramdiskSize ((ramdiskFields ramdisk).drop 3) ∧ Beside extRamdiskSize ((ramdiskFields ramdisk).drop 4) :=
  ⟨rfl, rfl, rfl, rfl⟩

theorem cmdLinePtr_beside (ramdisk : Region) :
    Beside cmdLinePtr (ramdiskFields ramdisk) ∧ Beside extCmdLinePtr (ramdiskFields ramdisk) := ⟨rfl, rfl⟩

/-- The kernel is told where its command line is, -/
theorem recorded_kernelFields (ram : GuestRam) (memory : Region) (s : WriteLog) :
    recorded memory (zpFill memory s (kernelFields ram memory)) cmdLinePtr extCmdLinePtr = 0x4000 := by
  obtain ⟨hlow, hhigh⟩ := kernelFields_beside ram memory
  unfold recorded
  rw [zpGet_zpFill 0 rfl (by decide) hlow, zpGet_zpFill 1 rfl (by decide) hhigh]
  decide

/-- and where the ramdisk is, and how long. -/
theorem recorded_ramdiskFields (memory ramdisk : Region) (s : WriteLog) :
    recorded memory (zpFill memory s (ramdiskFields ramdisk)) ramdiskImage extRamdiskImage = ramdisk.base.toNat ∧
      recorded memory (zpFill memory s (ramdiskFields ramdisk)) ramdiskSize extRamdiskSize = ramdisk.size.toNat := by
  have hhalves : ∀ x : BitVec 64, x.toNat % 2 ^ 32 + 2 ^ 32 * ((x >>> 32).toNat % 2 ^ 32) = x.toNat := by
    intro x
    have hx := x.isLt
    rw [BitVec.toNat_ushiftRight, Nat.shiftRight_eq_div_pow]
    omega
  have hlt : ∀ x : Nat, x % 2 ^ 32 < 256 ^ 4 := fun x => Nat.mod_lt x (by decide)
  obtain ⟨himage, hext, hlength, hextLength⟩ := ramdiskFields_beside ramdisk
  unfold recorded
  rw [zpGet_zpFill 0 rfl (hlt _) himage, zpGet_zpFill 1 rfl (hlt _) hext, zpGet_zpFill 2 rfl (hlt _) hlength,
    zpGet_zpFill 3 rfl (hlt _) hextLength]
  exact ⟨hhalves _, hhalves _⟩

theorem kernelFields_inside (ram : GuestRam) (memory : Region) : ∀ e ∈ kernelFields ram memory, InZeroPage e.1 := by
  have hall : (kernelFields ram memory).all (fun e => decide (InZeroPage e.1)) = true := by
    unfold kernelFields e820Map
    split
    · rfl
    · rfl
  exact fun e he => of_decide_eq_true (List.all_eq_true.mp hall e he)

theorem ramdiskFields_inside (ramdisk : Region) : ∀ e ∈ ramdiskFields ramdisk, InZeroPage e.1 := by
  have hall : (ramdiskFields ramdisk).all (fun e => decide (InZeroPage e.1)) = true := rfl
  exact fun e he => of_decide_eq_true (List.all_eq_true.mp hall e he)

/-- The addresses of the parts, on the host. -/
def InExtents (ram : GuestRam) (cmdline : List UInt8) (kernel ramdisk : Region) (x : Nat) : Prop :=
  ∃ e ∈ extents cmdline kernel ramdisk, ∃ g, e.Has g ∧ x = ram.lowmemAddr + g

theorem inExtents {e : Extent} {a n x : Nat} (he : e ∈ extents cmdline kernel ramdisk) (hlo : ram.lowmemAddr + e.first ≤ a)
    (hhi : a + n ≤ ram.lowmemAddr + e.first + e.length) (hax : a ≤ x) (hxn : x < a + n) :
    InExtents ram.toGuestRam cmdline kernel ramdisk x :=
  ⟨e, he, x - ram.lowmemAddr, ⟨by omega, by omega⟩, by omega⟩

variable (hfits : Fits ram.lowmem cmdline.length kernel ramdisk)

include hfits

theorem hostAddr_zp : hostAddr (lowMemory ram.toGuestRam) baseZeropage = ram.lowmemAddr + 0x3000 := by
  have hhigh := hfits.high
  have hroom := hfits.room
  refine hostAddr_lowMemory ?_
  change 0x3000 < ram.lowmem
  omega

theorem zpFill_within {fields : List (Field × Nat)}
    (h : s.Within (InExtents ram.toGuestRam cmdline kernel ramdisk)) (hf : ∀ e ∈ fields, InZeroPage e.1) :
    (zpFill (lowMemory ram.toGuestRam) s fields).Within (InExtents ram.toGuestRam cmdline kernel ramdisk) := by
  have hzp : (⟨0x3000, 4096⟩ : Extent) ∈ extents cmdline kernel ramdisk := by simp [extents]
  refine h.fill fun e he x hlo hhi => ?_
  have hin : e.1.offset + e.1.width ≤ 4096 := hf e he
  rw [hostAddr_zp hfits] at hlo hhi
  exact inExtents hzp (by dsimp only; omega) (by dsimp only; omega) hlo hhi

theorem kernelLoaded_within (h : KernelLoaded ram.toGuestRam (lowMemory ram.toGuestRam) cmdline f s kernel s')
    (hs : s.Within (InExtents ram.toGuestRam cmdline kernel ramdisk)) :
    s'.Within (InExtents ram.toGuestRam cmdline kernel ramdisk) := by
  obtain ⟨bs, hpos, hbs, rfl⟩ := h.state
  have hhigh := hfits.high
  have hbelow := hfits.below
  have hroom := hfits.room
  have hlt := hfits.lowmem_lt
  have hheader := h.header
  have hoff : setupHeader = 497 := rfl
  have hsize : sizeofSetupHeader = 119 := rfl
  have hzp : (⟨0x3000, 4096⟩ : Extent) ∈ extents cmdline kernel ramdisk := by simp [extents]
  have hcmd : (⟨0x4000, cmdline.length + 1⟩ : Extent) ∈ extents cmdline kernel ramdisk := by simp [extents]
  have hkernel : kernel.extent ∈ extents cmdline kernel ramdisk := by simp [extents]
  have hcmdAddr : hostAddr (lowMemory ram.toGuestRam) baseCmdline = ram.lowmemAddr + 0x4000 :=
    hostAddr_lowMemory (by change 0x4000 < ram.lowmem; omega)
  have hnulAddr : hostAddr (lowMemory ram.toGuestRam) (baseCmdline + BitVec.ofNat 64 cmdline.length) =
      ram.lowmemAddr + (0x4000 + cmdline.length) := by
    have hnul : (baseCmdline + BitVec.ofNat 64 cmdline.length).toNat = 0x4000 + cmdline.length := by
      rw [BitVec.toNat_add, BitVec.toNat_ofNat]
      change (0x4000 + _) % 2 ^ 64 = _
      omega
    rw [hostAddr_lowMemory (by rw [hnul]; omega), hnul]
  refine zpFill_within hfits ((((hs.put ?_).put ?_).put ?_).put ?_ |>.put ?_) (kernelFields_inside _ _)
  · intro x hlo hhi
    rw [hostAddr_zp hfits] at hlo hhi
    rw [List.length_replicate] at hhi
    exact inExtents hzp le_rfl le_rfl hlo hhi
  · intro x hlo hhi
    rw [hostAddr_zp hfits] at hlo hhi
    exact inExtents hzp (by dsimp only; omega) (by dsimp only; omega) hlo hhi
  · intro x hlo hhi
    rw [hostAddr_lowMemory (by omega)] at hlo hhi
    exact inExtents hkernel le_rfl (by unfold Region.extent; dsimp only; omega) hlo hhi
  · intro x hlo hhi
    rw [hcmdAddr] at hlo hhi
    exact inExtents hcmd le_rfl (by dsimp only; omega) hlo hhi
  · intro x hlo hhi
    rw [hnulAddr] at hlo hhi
    exact inExtents hcmd (by dsimp only; omega) (by dsimp only [List.length_singleton]; omega) hlo hhi

theorem ramdiskLoaded_within (h : RamdiskLoaded (lowMemory ram.toGuestRam) r s kernel ramdisk s')
    (hs : s.Within (InExtents ram.toGuestRam cmdline kernel ramdisk)) :
    s'.Within (InExtents ram.toGuestRam cmdline kernel ramdisk) := by
  obtain ⟨bs, hpos, hbs, rfl⟩ := h.state
  have hroom := hfits.ramdiskRoom
  have hramdisk : ramdisk.extent ∈ extents cmdline kernel ramdisk := by simp [extents]
  refine zpFill_within hfits (hs.put fun x hlo hhi => ?_) (ramdiskFields_inside ramdisk)
  rw [hostAddr_lowMemory (by omega)] at hlo hhi
  exact inExtents hramdisk le_rfl (by unfold Region.extent; dsimp only; omega) hlo hhi

theorem gdt_within (hs : s.Within (InExtents ram.toGuestRam cmdline kernel ramdisk)) :
    (s.fill (hostAddr (lowMemory ram.toGuestRam) baseGdt) gdtEntries).Within
      (InExtents ram.toGuestRam cmdline kernel ramdisk) := by
  have hhigh := hfits.high
  have hroom := hfits.room
  have hgdt : (⟨0x2000, 32⟩ : Extent) ∈ extents cmdline kernel ramdisk := by simp [extents]
  have hall : ∀ e ∈ gdtEntries, e.1.offset + e.1.width ≤ 32 := by decide
  have haddr : hostAddr (lowMemory ram.toGuestRam) baseGdt = ram.lowmemAddr + 0x2000 :=
    hostAddr_lowMemory (by change 0x2000 < ram.lowmem; omega)
  refine hs.fill fun e he x hlo hhi => ?_
  have hin := hall e he
  rw [haddr] at hlo hhi
  exact inExtents hgdt (by dsimp only; omega) (by dsimp only; omega) hlo hhi

/-! ## What the zero page says -/

theorem zpGet_gdt (field : Field) :
    zpGet (lowMemory ram.toGuestRam) (s.fill (hostAddr (lowMemory ram.toGuestRam) baseGdt) gdtEntries) field =
      zpGet (lowMemory ram.toGuestRam) s field := by
  have hhigh := hfits.high
  have hroom := hfits.room
  have hall : ∀ e ∈ gdtEntries, e.1.offset + e.1.width ≤ 32 := by decide
  have haddr : hostAddr (lowMemory ram.toGuestRam) baseGdt = ram.lowmemAddr + 0x2000 :=
    hostAddr_lowMemory (by change 0x2000 < ram.lowmem; omega)
  refine WriteLog.get_fill_of_disjoint fun e he => .inr ?_
  have hlast := hall e he
  rw [haddr, hostAddr_zp hfits]
  omega

theorem zpGet_ramdiskLoaded (h : RamdiskLoaded (lowMemory ram.toGuestRam) r s kernel ramdisk s') (hin : InZeroPage field)
    (hapart : ∀ e ∈ ramdiskFields ramdisk, field.Apart e.1) :
    zpGet (lowMemory ram.toGuestRam) s' field = zpGet (lowMemory ram.toGuestRam) s field := by
  obtain ⟨bs, hpos, hbs, rfl⟩ := h.state
  have hroom := hfits.ramdiskRoom
  have hhigh := hfits.high
  have habove := hfits.above
  unfold InZeroPage at hin
  refine (WriteLog.get_fill_of_apart hapart).trans (WriteLog.get_put_of_disjoint (.inl ?_))
  rw [hostAddr_zp hfits, hostAddr_lowMemory (by omega)]
  omega

theorem recorded_booted (hr : RamdiskLoaded (lowMemory ram.toGuestRam) r s kernel ramdisk s') (hlow : InZeroPage low)
    (hhigh : InZeroPage high) (hlowApart : Beside low (ramdiskFields ramdisk))
    (hhighApart : Beside high (ramdiskFields ramdisk)) :
    recorded (lowMemory ram.toGuestRam) (s'.fill (hostAddr (lowMemory ram.toGuestRam) baseGdt) gdtEntries) low high =
      recorded (lowMemory ram.toGuestRam) s low high := by
  unfold recorded
  rw [zpGet_gdt hfits, zpGet_gdt hfits, zpGet_ramdiskLoaded hfits hr hlow hlowApart.apart,
    zpGet_ramdiskLoaded hfits hr hhigh hhighApart.apart]

theorem recorded_gdt : recorded (lowMemory ram.toGuestRam)
      (s.fill (hostAddr (lowMemory ram.toGuestRam) baseGdt) gdtEntries) low high =
    recorded (lowMemory ram.toGuestRam) s low high := by
  unfold recorded
  rw [zpGet_gdt hfits, zpGet_gdt hfits]

end Written

/-! ## The layout -/

section Boot

variable {ram : HostRam} {kernel ramdisk : Region} {cmdline : List UInt8} {k r : File} {mem : Mem} {s t u : WriteLog}

theorem layout_of_fits (hk : KernelLoaded ram.toGuestRam (lowMemory ram.toGuestRam) cmdline k ⟨mem, []⟩ kernel t)
    (hr : RamdiskLoaded (lowMemory ram.toGuestRam) r t kernel ramdisk u)
    (hfits : Fits ram.lowmem cmdline.length kernel ramdisk) :
    Layout ram.toGuestRam cmdline kernel ramdisk (u.fill (hostAddr (lowMemory ram.toGuestRam) baseGdt) gdtEntries) := by
  have hnone : WriteLog.Within ⟨mem, []⟩ (InExtents ram.toGuestRam cmdline kernel ramdisk) := fun w hw => nomatch hw
  have hkernel := kernelLoaded_within hfits hk hnone
  have hramdisk := ramdiskLoaded_within hfits hr hkernel
  obtain ⟨bs, -, -, hu⟩ := hr.state
  obtain ⟨himage, hsize⟩ := recorded_ramdiskFields (lowMemory ram.toGuestRam) ramdisk
    (t.put (hostAddr (lowMemory ram.toGuestRam) ramdisk.base) bs)
  refine ⟨extents_disjoint hfits, extents_inside hfits, gdt_within hfits hramdisk, ?_, ?_, ?_⟩
  · obtain ⟨bs', -, -, ht⟩ := hk.state
    obtain ⟨hlow, hhigh⟩ := cmdLinePtr_beside ramdisk
    have hlowIn : InZeroPage cmdLinePtr := by decide
    have hhighIn : InZeroPage extCmdLinePtr := by decide
    rw [recorded_booted hfits hr hlowIn hhighIn hlow hhigh, ht]
    exact recorded_kernelFields ..
  · rw [recorded_gdt hfits, hu]
    exact himage
  · rw [recorded_gdt hfits, hu]
    exact hsize

/-- The end of the kernel's area does not wrap exactly when the file places it so. -/
theorem placed_iff (hk : KernelLoaded ram.toGuestRam (lowMemory ram.toGuestRam) cmdline k s kernel t) :
    kernel.base.toNat + kernel.size.toNat < 2 ^ 64 ↔ k.Placed := by
  have hsize := hk.size
  have harea := initArea_le k
  unfold File.Placed
  by_cases h0 : k.field relocatableKernel = 0
  · rw [hk.fixed h0, hsize]
    exact ⟨.inr, fun h => h.resolve_left (not_not.mpr h0)⟩
  · have hbase := hk.movable h0
    exact iff_of_true (by omega) (.inl h0)

/-- What has been booted is laid out as it should be exactly when the area of the kernel does not wrap, and the ramdisk has a
size. -/
theorem boot_layout_iff {config : Config} {b : Booted} (hkernel : config.kernel = some k)
    (hinitrd : config.initrd = some (some r)) (h : kexec ram.toGuestRam config mem = some b) :
    ∃ ramdisk, b.ramdisk = some ramdisk ∧
      (Layout ram.toGuestRam config.cmdlineBytes b.kernel ramdisk b.memory ↔ k.Placed ∧ r.seekable = true) := by
  unfold kexec at h
  obtain ⟨⟨kernel, t⟩, hload, h⟩ := Option.bind_eq_some_iff.mp h
  obtain ⟨⟨initrd, u⟩, hrd, rfl⟩ := Option.map_eq_some_iff.mp h
  unfold loadInitrd at hrd
  rw [hinitrd] at hrd
  obtain ⟨⟨ramdisk, v⟩, hload', he⟩ := Option.map_eq_some_iff.mp hrd
  obtain ⟨rfl, rfl⟩ := Prod.mk.inj he
  rw [hkernel] at hload
  have hk := kexecLoadKernel_spec hload
  have hr := kexecLoadRamdisk_spec hload'
  refine ⟨ramdisk, rfl, fun hlayout => ?_, fun hplaced => ?_⟩
  · have hlt := ram.lowmem_lt
    have hkernelIn := hlayout.inside kernel.extent (by simp [extents])
    have hramdiskIn := hlayout.inside ramdisk.extent (by simp [extents])
    unfold Region.extent at hkernelIn hramdiskIn
    dsimp only at hkernelIn hramdiskIn
    refine ⟨(placed_iff hk).mp (by omega), ?_⟩
    cases hseek : r.seekable with
    | true => rfl
    | false =>
      have hsize : ramdisk.size.toNat = 2 ^ 64 - 1 := by
        rw [hr.size, tell_seekEnd, hseek]
        rfl
      omega
  · exact layout_of_fits hk hr
      (fits ram.lowmem_lt (lowMemory_size ram) hk ((placed_iff hk).mpr hplaced.1) hr hplaced.2)

end Boot

/-! ## A small kernel -/

/-- One byte of a kernel behind a setup of two sectors. Its area is a page, at `pref_address` or movable. -/
def kernelImage (relocatable : UInt8) (pref : List UInt8) : List UInt8 :=
  List.replicate 497 0 ++ [1] ++ List.replicate 12 0 ++ [0x55, 0xaa, 0, 0, 0x48, 0x64, 0x72, 0x53, 0x0a, 0x02] ++
    List.replicate 9 0 ++ [1] ++ List.replicate 30 0 ++ [0, 0, 0x10, 0, relocatable, 0, 0, 0, 0xff, 0x07, 0, 0] ++
    List.replicate 28 0 ++ pref ++ [0, 0x10, 0, 0] ++ List.replicate 412 0 ++ [0xf4]

def fixedKernel : File := ⟨kernelImage 0 [0, 0xf0, 0xff, 0xff, 0xff, 0xff, 0xff, 0xff], true, 0, by decide +kernel⟩
def movableKernel : File := ⟨kernelImage 1 [0, 0, 0x10, 0, 0, 0, 0, 0], true, 0, by decide +kernel⟩
def smallRamdisk : File := ⟨[0x2a], true, 0, by decide⟩

theorem twoMegabytes_lt : 0x200000 < 2 ^ 32 := by decide
theorem noHighmem_lt : 0 < 2 ^ 47 := by decide
theorem smallBase_aligned : Virtio.vringAlign ∣ 0x10000000 := by decide
theorem noBase_aligned : Virtio.vringAlign ∣ 0 := by decide

/-- Two megabytes. -/
def smallRam : HostRam where
  lowmem := 0x200000
  highmem := 0
  lowmemAddr := 0x10000000
  highmemAddr := 0
  lowmem_lt := twoMegabytes_lt
  highmem_lt := noHighmem_lt
  lowmemAddr_aligned := smallBase_aligned
  highmemAddr_aligned := noBase_aligned
  lowmemAddr_pos := by decide
  highmemAddr_pos := by decide
  top := by decide

/-- A kernel with an address 4096 bytes below 2^64 is loaded there. -/
theorem boot_layout_wraps :
    ∃ b ramdisk, kexec smallRam.toGuestRam ⟨some fixedKernel, some (some smallRamdisk), none⟩ (fun _ => 0) = some b ∧
      b.ramdisk = some ramdisk ∧ b.kernel.base = 0xfffffffffffff000 ∧
      ¬ Layout smallRam.toGuestRam [0x61, 0x75, 0x74, 0x6f] b.kernel ramdisk b.memory := by
  have hrun : (kexec smallRam.toGuestRam ⟨some fixedKernel, some (some smallRamdisk), none⟩ (fun _ => 0)).map
      (fun b => (b.kernel.base, b.ramdisk.isSome)) = some (0xfffffffffffff000, true) := by decide +kernel
  obtain ⟨b, hb, hfacts⟩ := Option.map_eq_some_iff.mp hrun
  obtain ⟨hbase, hsome⟩ := Prod.mk.inj hfacts
  obtain ⟨ramdisk, hramdisk⟩ := Option.isSome_iff_exists.mp hsome
  refine ⟨b, ramdisk, hb, hramdisk, hbase, fun h => ?_⟩
  have hin := h.inside b.kernel.extent (by simp [extents])
  unfold Region.extent at hin
  rw [hbase] at hin
  have hlow : (0xfffffffffffff000 : BitVec 64).toNat ≤ 0x200000 := Nat.le_of_add_right_le hin
  exact absurd hlow (by decide)

theorem boot_layout_movable :
    ∃ b ramdisk, kexec smallRam.toGuestRam ⟨some movableKernel, some (some smallRamdisk), none⟩ (fun _ => 0) = some b ∧
      Layout smallRam.toGuestRam [0x61, 0x75, 0x74, 0x6f] b.kernel ramdisk b.memory := by
  have hrun : (kexec smallRam.toGuestRam ⟨some movableKernel, some (some smallRamdisk), none⟩ (fun _ => 0)).isSome =
      true := by decide +kernel
  obtain ⟨b, hb⟩ := Option.isSome_iff_exists.mp hrun
  obtain ⟨ramdisk, -, hiff⟩ := boot_layout_iff rfl rfl hb
  have hmovable : movableKernel.field relocatableKernel ≠ 0 := by decide +kernel
  exact ⟨b, ramdisk, hb, hiff.mpr ⟨.inl hmovable, rfl⟩⟩

end Xhyve.Firmware
