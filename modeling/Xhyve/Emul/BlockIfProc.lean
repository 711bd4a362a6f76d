import Mathlib
import Xhyve.Emul.BlockIf

/-!
# Transfers of the block interface

`blockif_proc` on the backing file, for reads and writes. `preadv` and `pwritev` seek first and assert that they have got to
the offset; how much of the file there is behind it is not asked. Input and output errors of the host are left out, and so
is the path over a buffer, since `bc_isgeom` is always 0.
-/

namespace Xhyve.Emul.BlockIf

/-! ## The backing file -/

/-- A regular file, with the position of its descriptor. -/
structure File where
  bytes : List UInt8
  pos : Nat

/-- `lseek` with `SEEK_SET`. Offsets below zero are refused. -/
def lseek (f : File) (offset : BitVec 64) : Int × File :=
  if 0 ≤ offset.toInt then (offset.toInt, { f with pos := offset.toInt.toNat }) else (-1, f)

def readv (f : File) (n : Nat) : List UInt8 × File :=
  let data := (f.bytes.drop f.pos).take n
  (data, { f with pos := f.pos + data.length })

/-- A write that begins behind the end fills the gap with zeros. -/
def writev (f : File) (data : List UInt8) : File :=
  if data = [] then f
  else
    { bytes := (f.bytes ++ List.replicate (f.pos - f.bytes.length) 0).take f.pos ++ data ++ f.bytes.drop (f.pos + data.length)
      pos := f.pos + data.length }

/-- `none` is the failed assertion. -/
def preadv (f : File) (n : Nat) (offset : BitVec 64) : Option (List UInt8 × File) :=
  let res := lseek f offset
  if res.1 = offset.toInt then some (readv res.2 n) else none

def pwritev (f : File) (data : List UInt8) (offset : BitVec 64) : Option File :=
  let res := lseek f offset
  if res.1 = offset.toInt then some (writev res.2 data) else none

/-! ## One request -/

inductive Transfer
  | read (n : Nat)
  | write (data : List UInt8)

/-- The bytes the vectors of the request have room for. -/
def Transfer.size : Transfer → Nat
  | .read n => n
  | .write data => data.length

/-- What the callback is given. -/
structure Result where
  brResid : Nat
  erofs : Bool
  data : List UInt8

def blockifProc (bcRdonly : Bool) (f : File) (offset : BitVec 64) : Transfer → Option (File × Result)
  | .read n => (preadv f n offset).map fun r => (r.2, ⟨n - r.1.length, false, r.1⟩)
  | .write data =>
    if bcRdonly then some (f, ⟨data.length, true, []⟩)
    else (pwritev f data offset).map fun g => (g, ⟨0, false, []⟩)

/-- One request after the other. -/
def procAll (bcRdonly : Bool) : File → List (BitVec 64 × Transfer) → Option File
  | f, [] => some f
  | f, br :: brs => (blockifProc bcRdonly f br.1 br.2).bind fun r => procAll bcRdonly r.1 brs

/-! ## Requests inside the disk -/

/-- The range is one of a disk of `size` bytes. -/
structure InsideDisk (size : Nat) (offset : BitVec 64) (n : Nat) : Prop where
  nonneg : 0 ≤ offset.toInt
  end_le : offset.toInt + n ≤ size

/-- What becomes of a request on a file of the disk's size: the assertion holds, a read is complete, and a write leaves the
file as long as it is. -/
structure Kept (size : Nat) (f : File) (br : Transfer) (r : File × Result) : Prop where
  size : r.1.bytes.length = size
  read : ∀ n, br = .read n → r.2.data.length = n ∧ r.1.bytes = f.bytes

section Inside
variable {size n : Nat} {offset : BitVec 64} {f : File}

/-- No `off_t` is beyond the disk and below zero. -/
theorem insideDisk_iff (hsize : size < 2 ^ 63) : InsideDisk size offset n ↔ offset.toNat + n ≤ size := by
  have hlt := offset.isLt
  have hint := BitVec.toInt_eq_toNat_cond offset
  constructor
  · rintro ⟨hnonneg, hend⟩
    split at hint
    all_goals omega
  · intro hle
    rw [if_pos (by omega)] at hint
    exact ⟨by omega, by omega⟩

theorem lseek_inside (h : InsideDisk size offset n) :
    lseek f offset = (offset.toInt, { f with pos := offset.toInt.toNat }) := if_pos h.nonneg

/-- An offset below zero fails the assertion, but for the one that `lseek` returns as its error. -/
theorem preadv_below_zero (h : offset.toInt < -1) : preadv f n offset = none := by
  have hseek : lseek f offset = (-1, f) := if_neg (by omega)
  unfold preadv
  rw [hseek]
  exact if_neg (by show ¬ (-1 : Int) = offset.toInt; omega)

theorem readv_length (f : File) (n : Nat) (h : f.pos + n ≤ f.bytes.length) : (readv f n).1.length = n := by
  unfold readv
  rw [List.length_take, List.length_drop]
  omega

theorem writev_length (f : File) (data : List UInt8) (h : f.pos + data.length ≤ f.bytes.length) :
    (writev f data).bytes.length = f.bytes.length := by
  unfold writev
  split
  · rfl
  · dsimp only
    rw [List.length_append, List.length_append, List.length_take, List.length_drop, List.length_append,
      List.length_replicate]
    omega

theorem proc_inside {bcRdonly : Bool} {br : Transfer} (hf : f.bytes.length = size) (h : InsideDisk size offset br.size) :
    ∃ r, blockifProc bcRdonly f offset br = some r ∧ Kept size f br r := by
  have hseek := @lseek_inside _ _ _ f h
  have hnonneg := h.nonneg
  have hend := h.end_le
  cases br with
  | read n =>
    have hread : preadv f n offset = some (readv { f with pos := offset.toInt.toNat } n) := by
      unfold preadv
      rw [hseek]
      exact if_pos rfl
    refine ⟨_, by rw [blockifProc, hread]; rfl, hf, ?_⟩
    rintro k hk
    obtain rfl := Transfer.read.inj hk
    refine ⟨readv_length _ _ ?_, rfl⟩
    change offset.toInt + n ≤ size at hend
    show offset.toInt.toNat + n ≤ f.bytes.length
    omega
  | write data =>
    rw [blockifProc]
    split
    · exact ⟨_, rfl, hf, nofun⟩
    · have hwrite : pwritev f data offset = some (writev { f with pos := offset.toInt.toNat } data) := by
        unfold pwritev
        rw [hseek]
        exact if_pos rfl
      refine ⟨_, by rw [hwrite]; rfl, ?_, nofun⟩
      change offset.toInt + data.length ≤ size at hend
      refine (writev_length _ _ ?_).trans hf
      show offset.toInt.toNat + data.length ≤ f.bytes.length
      omega

/-- Any number of requests, in any order. -/
theorem procAll_inside {bcRdonly : Bool} {brs : List (BitVec 64 × Transfer)} (hf : f.bytes.length = size)
    (h : ∀ br ∈ brs, InsideDisk size br.1 br.2.size) :
    ∃ g, procAll bcRdonly f brs = some g ∧ g.bytes.length = size := by
  induction brs generalizing f with
  | nil => exact ⟨f, rfl, hf⟩
  | cons br brs ih =>
    obtain ⟨r, hr, hkept⟩ := @proc_inside _ _ _ bcRdonly br.2 hf (h br List.mem_cons_self)
    obtain ⟨g, hg, hsize⟩ := ih hkept.size fun b hb => h b (List.mem_cons_of_mem _ hb)
    refine ⟨g, ?_, hsize⟩
    rw [procAll, hr]
    exact hg

end Inside

end Xhyve.Emul.BlockIf
