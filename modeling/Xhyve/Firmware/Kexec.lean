import Xhyve.Lib.WriteLog
import Xhyve.Virtio.GuestRam

/-!
# Loading Linux

`kexec` puts a kernel, its command line and a ramdisk into low guest memory and tells the kernel of them in the zero page.
Everything it goes by is in the header of the kernel's file.
-/

namespace Xhyve.Firmware

open Xhyve.Lib (Mem WriteLog LittleEndian.toNat LittleEndian.bytes)
open Xhyve.Lib.WriteLog (Field)
open Xhyve.Virtio (GuestRam xhVmMapGpa)

def baseGdt : BitVec 64 := 0x2000
def baseZeropage : BitVec 64 := 0x3000
def baseCmdline : BitVec 64 := 0x4000
def baseKernel : BitVec 64 := 0x100000
def hdrs : Nat := 0x53726448

/-- `ALIGNUP(x, a)`, from `x - 1` and `~(a - 1)` as they are in the types of `x` and `a`. -/
def alignUp (below mask a : BitVec 64) : BitVec 64 := (below &&& mask) + a

/-! ## Files -/

/-- An open file. One that cannot be sought has no size that `ftell` could give. -/
structure File where
  content : List UInt8
  seekable : Bool
  pos : Nat
  content_lt : content.length < 2 ^ 63

def File.seek (f : File) (pos : Nat) : File := if f.seekable then { f with pos := pos } else f
def File.seekEnd (f : File) : File := f.seek f.content.length
def File.tell (f : File) : BitVec 64 := if f.seekable then BitVec.ofNat 64 f.pos else -1

def File.fread (f : File) (n : Nat) : List UInt8 × File :=
  let bs := (f.content.drop f.pos).take n
  (bs, { f with pos := f.pos + bs.length })

/-! ## The zero page -/

def sizeofSetupHeader : Nat := 119
def sizeofZeroPage : Nat := 0x1000
def setupHeader : Nat := 0x1f1

def extRamdiskImage : Field := ⟨0xc0, 4⟩
def extRamdiskSize : Field := ⟨0xc4, 4⟩
def extCmdLinePtr : Field := ⟨0xc8, 4⟩
def altMemK : Field := ⟨0x1e0, 4⟩
def e820Entries : Field := ⟨0x1e8, 1⟩
def setupSects : Field := ⟨0x1f1, 1⟩
def syssize : Field := ⟨0x1f4, 4⟩
def bootFlag : Field := ⟨0x1fe, 2⟩
def header : Field := ⟨0x202, 4⟩
def version : Field := ⟨0x206, 2⟩
def typeOfLoader : Field := ⟨0x210, 1⟩
def loadflags : Field := ⟨0x211, 1⟩
def ramdiskImage : Field := ⟨0x218, 4⟩
def ramdiskSize : Field := ⟨0x21c, 4⟩
def cmdLinePtr : Field := ⟨0x228, 4⟩
def kernelAlignment : Field := ⟨0x230, 4⟩
def relocatableKernel : Field := ⟨0x234, 1⟩
def cmdlineSize : Field := ⟨0x238, 4⟩
def hardwareSubarch : Field := ⟨0x23c, 4⟩
def prefAddress : Field := ⟨0x258, 8⟩
def initSize : Field := ⟨0x260, 4⟩
def e820Addr (i : Nat) : Field := ⟨0x2d0 + 20 * i, 8⟩
def e820Size (i : Nat) : Field := ⟨0x2d8 + 20 * i, 8⟩
def e820Type (i : Nat) : Field := ⟨0x2e0 + 20 * i, 4⟩

/-- `memory`, `kernel` and `ramdisk`. The memory is on the host, the other two are guest-physical. -/
structure Region where
  base : BitVec 64
  size : BitVec 64

section Load

variable (ram : GuestRam) (memory : Region) (cmdline : List UInt8) (f : File) (sz : BitVec 64) (s : WriteLog)

/-- The host address of a guest-physical one. -/
def hostAddr (gpa : BitVec 64) : Nat := (memory.base + gpa).toNat

def zpGet (field : Field) : Nat := s.get (hostAddr memory baseZeropage) field
def zpFill (fields : List (Field × Nat)) : WriteLog := s.fill (hostAddr memory baseZeropage) fields

/-- Zeroes the zero page and reads the header into it. -/
def readHeader : Option (File × WriteLog) :=
  let s := s.put (hostAddr memory baseZeropage) (List.replicate sizeofZeroPage 0)
  let r := (f.seek setupHeader).fread sizeofSetupHeader
  if r.1.length = 0 then none else some (r.2, s.put (hostAddr memory baseZeropage + setupHeader) r.1)

/-- The sum is of 32 bits: `syssize` is. -/
def loadedSize : BitVec 32 :=
  BitVec.ofNat 32 ((zpGet memory s setupSects + 1) * 512) + BitVec.ofNat 32 (zpGet memory s syssize) * 16

def unbootable : Bool :=
  zpGet memory s setupSects = 0 ∨ zpGet memory s bootFlag ≠ 0xaa55 ∨ zpGet memory s header ≠ hdrs ∨
    zpGet memory s version < 0x020a ∨ zpGet memory s loadflags % 2 = 0 ∨ sz < (loadedSize memory s).setWidth 64

def kernelOffset : BitVec 64 := BitVec.ofNat 64 ((zpGet memory s setupSects + 1) * 512)

def kernelInitSize : BitVec 64 :=
  alignUp ((BitVec.ofNat 32 (zpGet memory s initSize) - 1).setWidth 64) (~~~(0x1000 - 1)) 0x1000

def kernelStart : BitVec 64 :=
  let a := BitVec.ofNat 32 (zpGet memory s kernelAlignment)
  if zpGet memory s relocatableKernel ≠ 0 then alignUp (baseKernel - 1) ((~~~(a - 1)).setWidth 64) (a.setWidth 64)
  else BitVec.ofNat 64 (zpGet memory s prefAddress)

def copyKernel : Option (Region × WriteLog) :=
  let size := sz - kernelOffset memory s
  let kernel : Region := ⟨kernelStart memory s, kernelInitSize memory s⟩
  if kernel.base < baseKernel ∨ size > kernel.size ∨ kernel.base + kernel.size > memory.size then none
  else
    let bs := ((f.seek (kernelOffset memory s).toNat).fread size.toNat).1
    if bs.length = 0 then none else some (kernel, s.put (hostAddr memory kernel.base) bs)

/-- No sum wraps here: the first check sees to that. -/
def copyCmdline (kernel : Region) : Option WriteLog :=
  if cmdline.length + 1 > zpGet memory s cmdlineSize ∨ baseCmdline.toNat + (cmdline.length + 1) > kernel.base.toNat then none
  else
    let s := s.put (hostAddr memory baseCmdline) cmdline
    some (s.put (hostAddr memory (baseCmdline + BitVec.ofNat 64 cmdline.length)) [0])

def e820Map : List (Field × Nat) :=
  [(e820Addr 0, 0), (e820Size 0, 0x9fc00), (e820Type 0, 1),
    (e820Addr 1, 0x100000), (e820Size 1, (memory.size - 0x100000).toNat), (e820Type 1, 1)] ++
  if ram.highmem = 0 then [(e820Entries, 2)]
  else [(e820Addr 2, 0x100000000), (e820Size 2, ram.highmem), (e820Type 2, 1), (e820Entries, 3)]

def kernelFields : List (Field × Nat) :=
  let memK := (memory.size - 0x100000) >>> 10
  [(cmdLinePtr, baseCmdline.toNat % 2 ^ 32), (extCmdLinePtr, baseCmdline.toNat >>> 32), (hardwareSubarch, 0),
    (typeOfLoader, 0xd), (altMemK, if memK > 0xffffffff then 0xffffffff else memK.toNat)] ++ e820Map ram memory

def kexecLoadKernel (path : Option File) : Option (Region × WriteLog) :=
  if memory.size < baseZeropage + BitVec.ofNat 64 sizeofZeroPage ∨
      baseZeropage + BitVec.ofNat 64 sizeofZeroPage > baseCmdline then none
  else path.bind fun f =>
    let sz := f.seekEnd.tell
    if sz < BitVec.ofNat 64 (setupHeader + sizeofSetupHeader) then none
    else (readHeader memory f.seekEnd s).bind fun r =>
      if unbootable memory sz r.2 then none
      else (copyKernel memory r.1 sz r.2).bind fun k =>
        (copyCmdline memory cmdline k.2 k.1).map fun s => (k.1, zpFill memory s (kernelFields ram memory))

def ramdiskFields (ramdisk : Region) : List (Field × Nat) :=
  [(ramdiskImage, ramdisk.base.toNat % 2 ^ 32), (extRamdiskImage, (ramdisk.base >>> 32).toNat % 2 ^ 32),
    (ramdiskSize, ramdisk.size.toNat % 2 ^ 32), (extRamdiskSize, (ramdisk.size >>> 32).toNat % 2 ^ 32)]

def kexecLoadRamdisk (kernel : Region) (path : Option File) : Option (Region × WriteLog) :=
  path.bind fun f =>
    let sz := f.seekEnd.tell
    let start := alignUp (kernel.base + kernel.size - 1) (~~~(0x1000 - 1)) 0x1000
    if start + sz > memory.size then none
    else
      let bs := ((f.seekEnd.seek 0).fread sz.toNat).1
      if bs.length = 0 then none
      else some (⟨start, sz⟩, zpFill memory (s.put (hostAddr memory start) bs) (ramdiskFields ⟨start, sz⟩))

def gdtEntries : List (Field × Nat) :=
  [(⟨0, 8⟩, 0), (⟨8, 8⟩, 0), (⟨16, 8⟩, 0x00cf9a000000ffff), (⟨24, 8⟩, 0x00cf92000000ffff)]

end Load

/-! ## The processor -/

inductive VmReg
  | gdtr | cs | ds | es | ss | cr0 | rbp | rdi | rbx | rflags | rsi | rip
deriving DecidableEq, Repr

/-- The calls that set up the first vCPU. -/
inductive VcpuCall
  | reset
  | setDesc (reg : VmReg) (base : BitVec 64) (limit access : BitVec 32)
  | setRegister (reg : VmReg) (val : BitVec 64)
deriving DecidableEq, Repr

def bootCalls (kernel : Region) : List VcpuCall :=
  [.reset, .setDesc .gdtr baseGdt 0x1f 0, .setDesc .cs 0 0xffffffff 0xc09b, .setDesc .ds 0 0xffffffff 0xc093,
    .setDesc .es 0 0xffffffff 0xc093, .setDesc .ss 0 0xffffffff 0xc093, .setRegister .cs 0x10, .setRegister .ds 0x18,
    .setRegister .es 0x18, .setRegister .ss 0x18, .setRegister .cr0 0x21, .setRegister .rbp 0, .setRegister .rdi 0,
    .setRegister .rbx 0, .setRegister .rflags 0x2, .setRegister .rsi baseZeropage, .setRegister .rip kernel.base]

/-- `config`, with what is behind the paths. A path that cannot be opened has no file. -/
structure Config where
  kernel : Option File
  initrd : Option (Option File)
  cmdline : Option (List UInt8)

structure Booted where
  kernel : Region
  ramdisk : Option Region
  memory : WriteLog
  calls : List VcpuCall

def lowMemory (ram : GuestRam) : Region :=
  ⟨BitVec.ofNat 64 ((xhVmMapGpa ram 0 ram.lowmem).getD 0), BitVec.ofNat 64 ram.lowmem⟩

def Config.cmdlineBytes (config : Config) : List UInt8 := config.cmdline.getD [0x61, 0x75, 0x74, 0x6f]

/-- The ramdisk there is to load, or none. -/
def loadInitrd (memory : Region) (config : Config) (k : Region × WriteLog) : Option (Option Region × WriteLog) :=
  match config.initrd with
  | none => some (none, k.2)
  | some path => (kexecLoadRamdisk memory k.2 k.1 path).map fun r => (some r.1, r.2)

/-- `none` is an abort. -/
def kexec (ram : GuestRam) (config : Config) (mem : Mem) : Option Booted :=
  let memory := lowMemory ram
  (kexecLoadKernel ram memory config.cmdlineBytes ⟨mem, []⟩ config.kernel).bind fun k =>
    (loadInitrd memory config k).map fun r =>
      ⟨k.1, r.1, r.2.fill (hostAddr memory baseGdt) gdtEntries, bootCalls k.1⟩

end Xhyve.Firmware
