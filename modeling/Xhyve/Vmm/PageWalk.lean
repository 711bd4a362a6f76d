import Xhyve.Lib.ByteMemory
import Xhyve.Vmm.Decode

/-!
# The guest page walk

`vm_gla2gpa`: the 32-bit, PAE and 64-bit walks over the guest's own page tables, with the
accessed and dirty flags the walk maintains and the restarts it takes when a
compare-and-set fails. The two walk loops of the source differ in the entry format only.
-/

namespace Xhyve.Vmm.PageWalk

open Xhyve.Lib Xhyve.Lib.Mem
open Xhyve.Vmm.Decode (CpuMode)

def pgV : Nat := 0x001
def pgRW : Nat := 0x002
def pgU : Nat := 0x004
def pgA : Nat := 0x020
def pgM : Nat := 0x040
def pgPS : Nat := 0x080

def pgexP : Nat := 0x01
def pgexW : Nat := 0x02
def pgexU : Nat := 0x04
def pgexRsv : Nat := 0x08
def pgexI : Nat := 0x10

def protWrite : Nat := 0x02
def protExecute : Nat := 0x04

def pageSize : Nat := 4096
def pageShift : Nat := 12

inductive PagingMode
  | flat | bits32 | pae | bits64
deriving DecidableEq, Repr

/-- `struct vm_guest_paging`. -/
structure GuestPaging where
  cr3 : BitVec 64
  cpl : Nat
  cpuMode : CpuMode
  pagingMode : PagingMode
deriving DecidableEq, Repr

structure MemSeg where
  gpa : Nat
  len : Nat
deriving DecidableEq, Repr

/-- A host pointer into guest memory is named by the guest address it stands for. -/
def vmGpa2hva (segs : List MemSeg) (gpa len : Nat) : Option Nat :=
  if segs.any fun seg =>
      seg.gpa ≤ gpa && (gpa + len) % 2 ^ 64 ≤ (seg.gpa + seg.len) % 2 ^ 64
  then some gpa
  else none

def vieCanonicalCheck (cpuMode : CpuMode) (gla : Nat) : Bool :=
  if cpuMode ≠ .mode64 then false
  else
    let mask := 0xffff000000000000
    if gla &&& (1 <<< 47) ≠ 0 then gla &&& mask ≠ mask
    else gla &&& mask ≠ 0

def pfErrorCode (usermode : Bool) (prot : Nat) (rsvd : Bool) (pte : Nat) : Nat :=
  (if pte &&& pgV ≠ 0 then pgexP else 0) |||
  (if prot &&& protWrite ≠ 0 then pgexW else 0) |||
  (if usermode then pgexU else 0) |||
  (if rsvd then pgexRsv else 0) |||
  (if prot &&& protExecute ≠ 0 then pgexI else 0)

/-- How a call ends: the address, an injected fault, or `EFAULT` to the caller. -/
inductive Result
  | ok (gpa : Nat)
  | pf (code : Nat)
  | gp
  | efault
deriving DecidableEq, Repr

/-- How one pass from `restart:` ends. -/
inductive Pass
  | done (r : Result) (m : Mem)
  | restart (m : Mem)

/-- What distinguishes the two walk loops. -/
structure Format where
  /-- Bytes of a page-table entry. -/
  entrySize : Nat
  /-- Bits of the linear address one level translates. -/
  indexBits : Nat
  /-- The table address in CR3 or in an entry. -/
  table : Nat → Nat
  /-- The page address in a leaf entry of the given shift. -/
  page : Nat → Nat → Nat
  /-- Page sizes refused as a reserved-bit violation. -/
  refused : Nat → Bool

/-- 32-bit entries: `pte32` cannot hold more than the 32 bits it was read with. -/
def format32 : Format where
  entrySize := 4
  indexBits := 10
  table := fun ptpphys => ptpphys &&& 0xfffffffffffff000
  page := fun ptpshift pte => ((pte >>> ptpshift) <<< ptpshift) % 2 ^ 32
  refused := fun _ => false

/-- 64-bit entries, used by the PAE and the 64-bit walks. -/
def format64 : Format where
  entrySize := 8
  indexBits := 9
  table := fun ptpphys => (((ptpphys >>> 12) <<< 24) % 2 ^ 64) >>> 12
  page := fun ptpshift pte => (((pte >>> ptpshift) <<< (ptpshift + 12)) % 2 ^ 64) >>> 12
  refused := fun pgsize => 2 ^ 30 < pgsize

section Walk
variable (F : Format) (segs : List MemSeg) (usermode : Bool) (prot gla : Nat)

/-- After the loop: the dirty bit, then the address. `pte` is the value the walk read, which
lacks the accessed bit the walk may just have set in memory. -/
def finish (ptpshift entry pte : Nat) (m : Mem) : Pass :=
  let write := prot &&& protWrite ≠ 0 ∧ pte &&& pgM = 0
  match if write then cmpset F.entrySize m entry pte (pte ||| pgM) else some m with
  | none => .restart m
  | some m => .done (.ok (F.page ptpshift pte ||| (gla &&& (1 <<< ptpshift - 1)))) m

/-- The walk loop, with `nlevels` levels below this one. -/
def walk : Nat → Nat → Mem → Pass
  | nlevels, ptpphys, m =>
    match vmGpa2hva segs (F.table ptpphys) pageSize with
    | none => .done .efault m
    | some ptpbase =>
      let ptpshift := pageShift + nlevels * F.indexBits
      let ptpindex := (gla >>> ptpshift) &&& (2 ^ F.indexBits - 1)
      let pgsize := 1 <<< ptpshift
      let entry := ptpbase + F.entrySize * ptpindex
      let pte := load F.entrySize m entry
      if pte &&& pgV = 0 ∨ (usermode ∧ pte &&& pgU = 0) ∨
          (prot &&& protWrite ≠ 0 ∧ pte &&& pgRW = 0) then
        .done (.pf (pfErrorCode usermode prot false pte)) m
      else
        match if pte &&& pgA = 0 then cmpset F.entrySize m entry pte (pte ||| pgA)
          else some m with
        | none => .restart m
        | some m =>
          match nlevels with
          | 0 => finish F prot gla ptpshift entry pte m
          | nlevels + 1 =>
            if pte &&& pgPS ≠ 0 then
              if F.refused pgsize then .done (.pf (pfErrorCode usermode prot true pte)) m
              else finish F prot gla ptpshift entry pte m
            else walk nlevels pte m

end Walk

/-- One pass of `vm_gla2gpa`, from `restart:` on. -/
def pass (segs : List MemSeg) (paging : GuestPaging) (gla prot : Nat) (m : Mem) : Pass :=
  let usermode : Bool := paging.cpl = 3
  let ptpphys := paging.cr3.toNat
  if vieCanonicalCheck paging.cpuMode gla then .done .gp m
  else match paging.pagingMode with
    | .flat => .done (.ok gla) m
    | .bits32 => walk format32 segs usermode prot gla 1 ptpphys m
    | .pae =>
      match vmGpa2hva segs (ptpphys &&& 0xffffffe0) (8 * 4) with
      | none => .done .efault m
      | some ptpbase =>
        let pte := load 8 m (ptpbase + 8 * ((gla >>> 30) &&& 0x3))
        if pte &&& pgV = 0 then .done (.pf (pfErrorCode usermode prot false pte)) m
        else walk format64 segs usermode prot gla 1 pte m
    | .bits64 => walk format64 segs usermode prot gla 3 ptpphys m

/-- `vm_gla2gpa` through at most `fuel` passes. -/
def vmGla2gpa (segs : List MemSeg) (paging : GuestPaging) (gla : BitVec 64) (prot : Nat) :
    Nat → Mem → Option (Result × Mem)
  | 0, _ => none
  | fuel + 1, m =>
    match pass segs paging gla.toNat prot m with
    | .done r m => some (r, m)
    | .restart m => vmGla2gpa segs paging gla prot fuel m

end Xhyve.Vmm.PageWalk
