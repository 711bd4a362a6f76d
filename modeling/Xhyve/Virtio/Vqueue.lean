import Mathlib.Logic.Function.Basic

/-!
# Split virtqueues

The device side of a legacy virtio queue: taking the next request chain off the
avail ring, walking its direct and indirect descriptors, handing it back, and
releasing it to the used ring. Both rings and all descriptors are guest memory;
the sixteen-bit indices run freely and wrap.
-/

namespace Xhyve.Virtio

def vringDescFNext : UInt16 := 1
def vringDescFIndirect : UInt16 := 4
def vqAlloc : UInt16 := 1
def vqMaxDescriptors : Nat := 512

structure VirtioDesc where
  vdAddr : UInt64
  vdLen : UInt32
  vdFlags : UInt16
  vdNext : UInt16
deriving DecidableEq, Repr

structure VirtioUsed where
  vuIdx : UInt32
  vuTlen : UInt32
deriving DecidableEq, Repr

structure VringAvail where
  vaIdx : UInt16
  vaRing : Nat → UInt16

structure VringUsed where
  vuIdx : UInt16
  vuRing : Nat → VirtioUsed

structure VqueueInfo where
  vqQsize : UInt16
  vqFlags : UInt16
  vqLastAvail : UInt16
  /- Host address of the descriptor table. -/
  vqDesc : Nat
  vqAvail : VringAvail
  vqUsed : VringUsed

/-- What a call sees of the guest's memory: the host address of a guest range, when
it is mapped, and the descriptor stored at a host address. -/
structure GuestMem where
  paddrGuest2host : UInt64 → UInt32 → Option Nat
  descAt : Nat → VirtioDesc

/-- `&table[i]` for a table of sixteen-byte descriptors. -/
def descSlot (table i : Nat) : Nat := table + 16 * i

structure Iovec where
  iovBase : Option Nat
  iovLen : UInt32
deriving DecidableEq, Repr

/-- The caller's output arrays: the slots filled so far, in order. -/
structure ChainOut where
  iov : List Iovec
  flags : List UInt16
deriving DecidableEq, Repr

/-- What the caller and the device class fix for one call: the class name and whether it
offers indirect descriptors, the size of the arrays, and whether flags are wanted. -/
structure ChainArgs where
  name : String
  indirectDesc : Bool
  nIov : Nat
  wantFlags : Bool

inductive Diag
  | ndesc (n : Nat)
  | index (next : Nat)
  | forbidden
  | indirLen (len : Nat)
  | indirFlag
  | indirNext (next n : Nat)
  | loopy (count : Nat)
deriving DecidableEq, Repr

def Diag.text (name : String) : Diag → String
  | ndesc n => s!"{name}: ndesc ({n}) out of range, driver confused?\r\n"
  | index next => s!"{name}: descriptor index {next} out of range, driver confused?\r\n"
  | forbidden => s!"{name}: descriptor has forbidden INDIRECT flag, driver confused?\r\n"
  | indirLen len =>
    name ++ ": invalid indir len 0x" ++ String.ofList (Nat.toDigits 16 len) ++
      ", driver confused?\r\n"
  | indirFlag => s!"{name}: indirect desc has INDIR flag, driver confused?\r\n"
  | indirNext next n => s!"{name}: invalid next {next} > {n}, driver confused?\r\n"
  | loopy count => s!"{name}: descriptor loop? count > {count} - driver confused?\r\n"

/-- Why no count is returned: a diagnostic and -1, or a dereference of an unmapped table. -/
inductive Stop
  | error (d : Diag)
  | fault
deriving DecidableEq, Repr

variable (g : GuestMem) (a : ChainArgs)

/-- Records the `i`th real descriptor, when the arrays have room for it. -/
def vqRecord (i : Nat) (vd : VirtioDesc) (out : ChainOut) : ChainOut :=
  if i ≥ a.nIov then out
  else
    { iov := out.iov ++ [⟨g.paddrGuest2host vd.vdAddr vd.vdLen, vd.vdLen⟩]
      flags := if a.wantFlags then out.flags ++ [vd.vdFlags] else out.flags }

/-- The loop over one indirect table. Each turn records a descriptor, so a bound of
`vqMaxDescriptors + 1 - i` turns never cuts it short. -/
def indirectChain (vindir nIndir : Nat) :
    Nat → Nat → Nat → ChainOut → ChainOut × Except Stop Nat
  | 0, i, _, out => (out, .error (.error (.loopy i)))
  | fuel + 1, i, next, out =>
    let vp := g.descAt (descSlot vindir next)
    if vp.vdFlags &&& vringDescFIndirect ≠ 0 then (out, .error (.error .indirFlag))
    else
      let out := vqRecord g a i vp out
      let i := i + 1
      if i > vqMaxDescriptors then (out, .error (.error (.loopy i)))
      else if vp.vdFlags &&& vringDescFNext = 0 then (out, .ok i)
      else if vp.vdNext.toNat ≥ nIndir then
        (out, .error (.error (.indirNext vp.vdNext.toNat nIndir)))
      else indirectChain vindir nIndir fuel i vp.vdNext.toNat out

/-- One direct descriptor: itself, or the indirect table it names. -/
def directDesc (vdir : VirtioDesc) (i : Nat) (out : ChainOut) : ChainOut × Except Stop Nat :=
  if vdir.vdFlags &&& vringDescFIndirect = 0 then (vqRecord g a i vdir out, .ok (i + 1))
  else if a.indirectDesc = false then (out, .error (.error .forbidden))
  else
    let nIndir := vdir.vdLen.toNat / 16
    if vdir.vdLen &&& 0xf ≠ 0 ∨ nIndir = 0 then
      (out, .error (.error (.indirLen vdir.vdLen.toNat)))
    else
      match g.paddrGuest2host vdir.vdAddr vdir.vdLen with
      | none => (out, .error .fault)
      | some vindir => indirectChain g a vindir nIndir (vqMaxDescriptors + 1 - i) i 0 out

/-- The loop over the direct descriptors. Each turn raises the count, so a bound of
`vqMaxDescriptors` turns never cuts it short. -/
def directChain (vq : VqueueInfo) : Nat → Nat → Nat → ChainOut → ChainOut × Except Stop Nat
  | 0, i, _, out => (out, .error (.error (.loopy i)))
  | fuel + 1, i, next, out =>
    if i < vqMaxDescriptors then
      if next ≥ vq.vqQsize.toNat then (out, .error (.error (.index next)))
      else
        let vdir := g.descAt (descSlot vq.vqDesc next)
        match directDesc g a vdir i out with
        | (out, .error e) => (out, .error e)
        | (out, .ok i) =>
          if vdir.vdFlags &&& vringDescFNext = 0 then (out, .ok i)
          else directChain vq fuel i vdir.vdNext.toNat out
    else (out, .error (.error (.loopy i)))

structure Getchain where
  vq : VqueueInfo
  /- The head stored through `pidx`, when the call gets that far. -/
  pidx : Option UInt16
  out : ChainOut
  ret : Except Stop Nat

def vqGetchain (vq : VqueueInfo) : Getchain :=
  let idx := vq.vqLastAvail
  let ndesc := vq.vqAvail.vaIdx - idx
  if ndesc = 0 then ⟨vq, none, ⟨[], []⟩, .ok 0⟩
  else if ndesc > vq.vqQsize then ⟨vq, none, ⟨[], []⟩, .error (.error (.ndesc ndesc.toNat))⟩
  else
    let next := vq.vqAvail.vaRing (idx &&& (vq.vqQsize - 1)).toNat
    let r := directChain g a vq vqMaxDescriptors 0 next.toNat ⟨[], []⟩
    ⟨{ vq with vqLastAvail := idx + 1 }, some next, r.1, r.2⟩

/-- A head within range is stored and counted before its descriptors are looked at. -/
theorem vqGetchain_head {vq : VqueueInfo} (hne : vq.vqAvail.vaIdx - vq.vqLastAvail ≠ 0)
    (hle : ¬ vq.vqAvail.vaIdx - vq.vqLastAvail > vq.vqQsize) :
    (vqGetchain g a vq).pidx =
      some (vq.vqAvail.vaRing (vq.vqLastAvail &&& (vq.vqQsize - 1)).toNat) ∧
    (vqGetchain g a vq).vq = { vq with vqLastAvail := vq.vqLastAvail + 1 } := by
  simp only [vqGetchain, if_neg hne, if_neg hle, and_self]

def vqRetchain (vq : VqueueInfo) : VqueueInfo :=
  { vq with vqLastAvail := vq.vqLastAvail - 1 }

def vqRelchain (vq : VqueueInfo) (idx : UInt16) (iolen : UInt32) : VqueueInfo :=
  let mask := vq.vqQsize - 1
  let uidx := vq.vqUsed.vuIdx
  { vq with
    vqUsed :=
      { vuIdx := uidx + 1
        vuRing := Function.update vq.vqUsed.vuRing (uidx &&& mask).toNat ⟨idx.toUInt32, iolen⟩ } }

def vqRingReady (vq : VqueueInfo) : Bool := vq.vqFlags &&& vqAlloc ≠ 0

def vqHasDescs (vq : VqueueInfo) : Bool :=
  vqRingReady vq && vq.vqLastAvail != vq.vqAvail.vaIdx

end Xhyve.Virtio
