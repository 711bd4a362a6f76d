import Xhyve.Lib.SearchTree
import Xhyve.Lib.Transition

/-!
# Memory-mapped I/O dispatch

The registry of `mem.c`: a tree of ranges, a tree of fallback ranges and a cached range for
each vCPU. A cached range is a pointer, so the heap the ranges live in is part of the
state and a pointer may name freed memory or memory since reused.

`mmio_rwlock` shows in two places. A call that changes a tree waits until no vCPU holds the
lock, and a vCPU holds it while a handler runs, unless the range is immutable.
-/

namespace Xhyve.Emul.Mem

open Xhyve.Lib

def vmMaxcpu : Nat := 16

def memFImmutable : Nat := 0x4

/-- `struct mem_range`. Names, handlers and first arguments are pointers. -/
structure MemRange where
  name : Nat
  flags : Nat
  handler : Nat
  arg1 : Nat
  arg2 : Int
  base : Nat
  size : Nat
deriving DecidableEq, Repr

/-- `struct mmio_rb_range`, with the address it was allocated at. -/
structure MmioRbRange where
  ptr : Nat
  mrParam : MemRange
  mrBase : Nat
  mrEnd : Nat
deriving DecidableEq, Repr

inductive Errno
  | ok | enoent | esrch | enomem | eexist
deriving DecidableEq, Repr

def MemRange.immutable (mr : MemRange) : Bool := mr.flags &&& memFImmutable ≠ 0

structure Registry where
  heap : Nat → Option MmioRbRange
  mmioRbRoot : SearchTree MmioRbRange
  mmioRbFallback : SearchTree MmioRbRange
  mmioHint : Nat → Option Nat
  /-- The range whose handler a vCPU is in. -/
  running : Nat → Option MmioRbRange

def initMem : Registry := ⟨fun _ => none, .nil, .nil, fun _ => none, fun _ => none⟩

/-- Two ranges compare equal when they share an address. -/
def mmioRbRangeCompare (base limit : Nat) (b : MmioRbRange) : Ordering :=
  if limit < b.mrBase then .lt
  else if base > b.mrEnd then .gt
  else .eq

def mmioRbLookup (rbt : SearchTree MmioRbRange) (addr : Nat) : Option MmioRbRange :=
  rbt.find (mmioRbRangeCompare addr addr)

def mmioRbAdd (R : SearchTree.Rebalance MmioRbRange) (rbt : SearchTree MmioRbRange)
    (new : MmioRbRange) : Errno × SearchTree MmioRbRange :=
  match rbt.insert (mmioRbRangeCompare new.mrBase new.mrEnd) new with
  | .error _ => (.eexist, rbt)
  | .ok rbt' => (.ok, R.onInsert rbt')

/-! ## Registration -/

/-- The node `register_mem_int` fills in at `p`. -/
def newNode (p : Nat) (memp : MemRange) : MmioRbRange :=
  ⟨p, memp, memp.base, (memp.base + memp.size + (2 ^ 64 - 1)) % 2 ^ 64⟩

/-- `register_mem_int` on the tree it is given, with the address `malloc` returned. When the
first address is already covered nothing is inserted and no error is returned. -/
def registerMemInt (R : SearchTree.Rebalance MmioRbRange) (heap : Nat → Option MmioRbRange)
    (rbt : SearchTree MmioRbRange) (mrp : Option Nat) (memp : MemRange) :
    Errno × (Nat → Option MmioRbRange) × SearchTree MmioRbRange :=
  match mrp with
  | none => (.enomem, heap, rbt)
  | some p =>
    let heap := Function.update heap p (some (newNode p memp))
    match mmioRbLookup rbt memp.base with
    | some _ => (.ok, heap, rbt)
    | none =>
      match mmioRbAdd R rbt (newNode p memp) with
      | (.ok, rbt) => (.ok, heap, rbt)
      | (err, rbt) => (err, Function.update heap p none, rbt)

def registerMem (R : SearchTree.Rebalance MmioRbRange) (s : Registry) (mrp : Option Nat)
    (memp : MemRange) : Errno × Registry :=
  let r := registerMemInt R s.heap s.mmioRbRoot mrp memp
  (r.1, { s with heap := r.2.1, mmioRbRoot := r.2.2 })

def registerMemFallback (R : SearchTree.Rebalance MmioRbRange) (s : Registry) (mrp : Option Nat)
    (memp : MemRange) : Errno × Registry :=
  let r := registerMemInt R s.heap s.mmioRbFallback mrp memp
  (r.1, { s with heap := r.2.1, mmioRbFallback := r.2.2 })

/-- The assertions of `unregister_mem` on the range it finds. -/
def unregisterAsserts (mr memp : MemRange) : Bool :=
  mr.name = memp.name ∧ mr.base = memp.base ∧ mr.size = memp.size ∧ ¬ mr.immutable

/-- `none` when an assertion fails. -/
def unregisterMem (R : SearchTree.Rebalance MmioRbRange) (s : Registry) (memp : MemRange) :
    Option (Errno × Registry) :=
  match mmioRbLookup s.mmioRbRoot memp.base with
  | none => some (.enoent, s)
  | some entry =>
    if unregisterAsserts entry.mrParam memp then
      some (.ok, { s with
        heap := Function.update s.heap entry.ptr none
        mmioRbRoot := R.onRemove (s.mmioRbRoot.remove entry)
        mmioHint := fun i =>
          if i < vmMaxcpu ∧ s.mmioHint i = some entry.ptr then none else s.mmioHint i })
    else none

/-! ## Dispatch -/

/-- Where `emulate_mem` sends an access. A cached pointer to freed memory is read as any
other, so that outcome has a name. -/
inductive Dispatch
  | entry (e : MmioRbRange)
  | esrch
  | dangling
deriving DecidableEq, Repr

def emulateSlow (s : Registry) (vcpu paddr : Nat) : Dispatch × Registry :=
  match mmioRbLookup s.mmioRbRoot paddr with
  | some e => (.entry e, { s with mmioHint := Function.update s.mmioHint vcpu (some e.ptr) })
  | none =>
    match mmioRbLookup s.mmioRbFallback paddr with
    | some e => (.entry e, s)
    | none => (.esrch, s)

/-- `emulate_mem` up to the call of the handler. -/
def emulateMem (s : Registry) (vcpu paddr : Nat) : Dispatch × Registry :=
  match s.mmioHint vcpu with
  | none => emulateSlow s vcpu paddr
  | some p =>
    match s.heap p with
    | none => (.dangling, s)
    | some e =>
      if paddr ≥ e.mrBase ∧ paddr ≤ e.mrEnd then (.entry e, s) else emulateSlow s vcpu paddr

/-- The vCPUs that hold `mmio_rwlock` for reading. -/
def Registry.holdsLock (s : Registry) (vcpu : Nat) : Bool :=
  match s.running vcpu with
  | some e => !e.mrParam.immutable
  | none => false

def Registry.writable (s : Registry) : Bool := (List.range vmMaxcpu).all fun v => !s.holdsLock v

/-! ## Runs -/

inductive Op
  | registerMem (mrp : Option Nat) (memp : MemRange)
  | registerMemFallback (mrp : Option Nat) (memp : MemRange)
  | unregisterMem (memp : MemRange)
  | emulateMem (vcpu paddr : Nat)
  | emulateReturn (vcpu : Nat)

/-- One call, with its return value; `none` when the process aborts or reads freed memory. -/
def step (R : SearchTree.Rebalance MmioRbRange) (s : Registry) : Op → Option (Errno × Registry)
  | .registerMem mrp memp => some (registerMem R s mrp memp)
  | .registerMemFallback mrp memp => some (registerMemFallback R s mrp memp)
  | .unregisterMem memp => unregisterMem R s memp
  | .emulateMem vcpu paddr =>
    match emulateMem s vcpu paddr with
    | (.entry e, s) => some (.ok, { s with running := Function.update s.running vcpu (some e) })
    | (.esrch, s) => some (.esrch, s)
    | (.dangling, _) => none
  | .emulateReturn vcpu => some (.ok, { s with running := Function.update s.running vcpu none })

/-- `malloc` returns memory that is not in use, and ranges have positive size and do not
wrap; the lock is free for whoever changes a tree; a vCPU makes one call at a time. -/
def Admissible (s : Registry) : Op → Prop
  | .registerMem mrp memp | .registerMemFallback mrp memp =>
    (∀ p ∈ mrp, s.heap p = none) ∧ 0 < memp.size ∧ memp.base + memp.size ≤ 2 ^ 64 ∧ s.writable
  | .unregisterMem _ => s.writable
  | .emulateMem vcpu _ => vcpu < vmMaxcpu ∧ s.running vcpu = none
  | .emulateReturn vcpu => vcpu < vmMaxcpu

instance (s : Registry) : (op : Op) → Decidable (Admissible s op)
  | .registerMem .. => inferInstanceAs (Decidable (_ ∧ _))
  | .registerMemFallback .. => inferInstanceAs (Decidable (_ ∧ _))
  | .unregisterMem _ => inferInstanceAs (Decidable (_ = true))
  | .emulateMem .. => inferInstanceAs (Decidable (_ ∧ _))
  | .emulateReturn _ => inferInstanceAs (Decidable (_ < _))

end Xhyve.Emul.Mem
