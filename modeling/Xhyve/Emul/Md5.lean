import Mathlib
import Xhyve.Lib.BlockStream
import Xhyve.Lib.LittleEndian
import Xhyve.Lib.Records

/-!
# MD5

The devices make serial numbers and addresses from MD5 digests. A context takes its input in pieces of any size, keeps what does not
fill a block of 64 bytes, and counts the bits in two words. The digest is that of all the input at once.
-/

namespace Xhyve.Emul.Md5

open Xhyve.Lib

/-! ## The transformation -/

structure Regs where
  a : BitVec 32
  b : BitVec 32
  c : BitVec 32
  d : BitVec 32
deriving DecidableEq, Repr

def F (x y z : BitVec 32) : BitVec 32 := (x &&& y) ||| (~~~x &&& z)
def G (x y z : BitVec 32) : BitVec 32 := (x &&& z) ||| (y &&& ~~~z)
def H (x y z : BitVec 32) : BitVec 32 := x ^^^ y ^^^ z
def I (x y z : BitVec 32) : BitVec 32 := y ^^^ (x ||| ~~~z)

def rotateLeft (x : BitVec 32) (n : Nat) : BitVec 32 := (x <<< n) ||| (x >>> (32 - n))

/-- `FF`, `GG`, `HH` and `II`; the operands of the next one are one register on. -/
def operation (f : BitVec 32 → BitVec 32 → BitVec 32 → BitVec 32) (r : Regs) (x : BitVec 32) (s : Nat) (ac : BitVec 32) :
    Regs :=
  let a := rotateLeft (r.a + (f r.b r.c r.d + x + ac)) s + r.b
  ⟨r.d, a, r.b, r.c⟩

/-- A round: its function, its four shifts in turn, and for each operation the word of the block and the constant. -/
structure Round where
  f : BitVec 32 → BitVec 32 → BitVec 32 → BitVec 32
  shifts : List Nat
  operations : List (Nat × BitVec 32)

def round1 : Round := ⟨F, [7, 12, 17, 22],
  [(0, 0xd76aa478), (1, 0xe8c7b756), (2, 0x242070db), (3, 0xc1bdceee),
   (4, 0xf57c0faf), (5, 0x4787c62a), (6, 0xa8304613), (7, 0xfd469501),
   (8, 0x698098d8), (9, 0x8b44f7af), (10, 0xffff5bb1), (11, 0x895cd7be),
   (12, 0x6b901122), (13, 0xfd987193), (14, 0xa679438e), (15, 0x49b40821)]⟩

def round2 : Round := ⟨G, [5, 9, 14, 20],
  [(1, 0xf61e2562), (6, 0xc040b340), (11, 0x265e5a51), (0, 0xe9b6c7aa),
   (5, 0xd62f105d), (10, 0x2441453), (15, 0xd8a1e681), (4, 0xe7d3fbc8),
   (9, 0x21e1cde6), (14, 0xc33707d6), (3, 0xf4d50d87), (8, 0x455a14ed),
   (13, 0xa9e3e905), (2, 0xfcefa3f8), (7, 0x676f02d9), (12, 0x8d2a4c8a)]⟩

def round3 : Round := ⟨H, [4, 11, 16, 23],
  [(5, 0xfffa3942), (8, 0x8771f681), (11, 0x6d9d6122), (14, 0xfde5380c),
   (1, 0xa4beea44), (4, 0x4bdecfa9), (7, 0xf6bb4b60), (10, 0xbebfbc70),
   (13, 0x289b7ec6), (0, 0xeaa127fa), (3, 0xd4ef3085), (6, 0x4881d05),
   (9, 0xd9d4d039), (12, 0xe6db99e5), (15, 0x1fa27cf8), (2, 0xc4ac5665)]⟩

def round4 : Round := ⟨I, [6, 10, 15, 21],
  [(0, 0xf4292244), (7, 0x432aff97), (14, 0xab9423a7), (5, 0xfc93a039),
   (12, 0x655b59c3), (3, 0x8f0ccc92), (10, 0xffeff47d), (1, 0x85845dd1),
   (8, 0x6fa87e4f), (15, 0xfe2ce6e0), (6, 0xa3014314), (13, 0x4e0811a1),
   (4, 0xf7537e82), (11, 0xbd3af235), (2, 0x2ad7d2bb), (9, 0xeb86d391)]⟩

def Round.run (round : Round) (x : Nat → BitVec 32) (r : Regs) : Regs :=
  (round.operations.zipIdx).foldl
    (fun r op => operation round.f r (x op.1.1) (round.shifts.getD (op.2 % 4) 0) op.1.2) r

/-- The words of a block, on a little-endian host. -/
def word (block : List UInt8) (k : Nat) : BitVec 32 := BitVec.ofNat 32 (LittleEndian.toNat ((block.drop (4 * k)).take 4))

def md5Transform (state : Regs) (block : List UInt8) : Regs :=
  let x := word block
  let r := round4.run x (round3.run x (round2.run x (round1.run x state)))
  ⟨state.a + r.a, state.b + r.b, state.c + r.c, state.d + r.d⟩

/-! ## The context -/

structure Md5Ctx where
  state : Regs
  count0 : BitVec 32
  count1 : BitVec 32
  /-- 64 bytes. -/
  buffer : List UInt8
deriving DecidableEq

def initialState : Regs := ⟨0x67452301, 0xefcdab89, 0x98badcfe, 0x10325476⟩

def md5Init (context : Md5Ctx) : Md5Ctx := { context with count0 := 0, count1 := 0, state := initialState }

/-- `memcpy` into the buffer, without a result where it would run over its end. -/
def memcpyBuffer (buffer : List UInt8) (index : Nat) (input : List UInt8) : Option (List UInt8) :=
  if index + input.length ≤ buffer.length then some (Mem.patch index input buffer) else none

/-- The loop over whole blocks of the input; `i` is an `unsigned int`. -/
def transformBlocks (input : List UInt8) : Nat → Nat → Regs → Option (Nat × Regs)
  | 0, _, _ => none
  | fuel + 1, i, state =>
    if (i + 63) % 2 ^ 32 < input.length then
      transformBlocks input fuel ((i + 64) % 2 ^ 32) (md5Transform state ((input.drop i).take 64))
    else some (i, state)

def bufferIndex (context : Md5Ctx) : Nat := ((context.count0 >>> 3) &&& 0x3f).toNat

/-- The number of bits with `inputLen` more bytes. -/
def countBits (context : Md5Ctx) (inputLen : BitVec 32) : BitVec 32 × BitVec 32 :=
  let count0 := context.count0 + inputLen <<< 3
  let count1 := if count0 < inputLen <<< 3 then context.count1 + 1 else context.count1
  (count0, count1 + inputLen >>> 29)

def md5Update (context : Md5Ctx) (input : List UInt8) : Option Md5Ctx := do
  let index := bufferIndex context
  let (count0, count1) := countBits context (BitVec.ofNat 32 input.length)
  let partLen := 64 - index
  if partLen ≤ input.length then
    let buffer ← memcpyBuffer context.buffer index (input.take partLen)
    let (i, state) ← transformBlocks input (input.length / 64 + 1) partLen (md5Transform context.state buffer)
    let buffer ← memcpyBuffer buffer 0 (input.drop i)
    return ⟨state, count0, count1, buffer⟩
  else
    let buffer ← memcpyBuffer context.buffer index input
    return ⟨context.state, count0, count1, buffer⟩

def md5Padding : List UInt8 := 0x80 :: List.replicate 63 0

def md5Pad (context : Md5Ctx) : Option Md5Ctx := do
  let bits := LittleEndian.bytes 4 context.count0.toNat ++ LittleEndian.bytes 4 context.count1.toNat
  let index := bufferIndex context
  let padLen := if index < 56 then 56 - index else 120 - index
  let context ← md5Update context (md5Padding.take padLen)
  md5Update context bits

def digestOf (state : Regs) : List UInt8 :=
  LittleEndian.bytes 4 state.a.toNat ++ LittleEndian.bytes 4 state.b.toNat ++ LittleEndian.bytes 4 state.c.toNat ++
    LittleEndian.bytes 4 state.d.toNat

def cleared : Md5Ctx := ⟨⟨0, 0, 0, 0⟩, 0, 0, List.replicate 64 0⟩

/-- The digest, and the context behind it. -/
def md5Final (context : Md5Ctx) : Option (List UInt8 × Md5Ctx) :=
  (md5Pad context).map fun context => (digestOf context.state, cleared)

/-! ## All at once -/

/-- What is put behind a message of `len` bytes: a bit, zeros up to eight bytes before the end of a block, and the number of bits. -/
def padding (len : Nat) : List UInt8 :=
  0x80 :: List.replicate ((119 - len % 64) % 64) 0 ++ LittleEndian.bytes 8 (8 * len)

/-- The digest of a message, block after block. -/
def md5 (message : List UInt8) : List UInt8 :=
  digestOf (BlockStream.feed 64 md5Transform initialState (message ++ padding message.length)).1

/-- A context that has taken a message. -/
structure Holds (context : Md5Ctx) (message : List UInt8) : Prop where
  state : context.state = (BlockStream.feed 64 md5Transform initialState message).1
  length : context.buffer.length = 64
  buffer : context.buffer.take (message.length % 64) = (BlockStream.feed 64 md5Transform initialState message).2
  count0 : context.count0.toNat = 8 * message.length % 2 ^ 32
  count1 : context.count1.toNat = 8 * message.length / 2 ^ 32 % 2 ^ 32

section Update
variable {context : Md5Ctx} {message input : List UInt8}

theorem Holds.index (h : Holds context message) : bufferIndex context = message.length % 64 := by
  have hmask : (63 : Nat) = 2 ^ 6 - 1 := rfl
  rw [bufferIndex, BitVec.toNat_and, BitVec.toNat_ushiftRight, h.count0, show (0x3f : BitVec 32).toNat = 2 ^ 6 - 1 from rfl,
    Nat.and_two_pow_sub_one_eq_mod, Nat.shiftRight_eq_div_pow]
  omega

theorem Holds.count (h : Holds context message) (hlen : input.length < 2 ^ 32) :
    (countBits context (BitVec.ofNat 32 input.length)).1.toNat = 8 * (message ++ input).length % 2 ^ 32 ∧
      (countBits context (BitVec.ofNat 32 input.length)).2.toNat = 8 * (message ++ input).length / 2 ^ 32 % 2 ^ 32 := by
  have h0 := h.count0
  have h1 := h.count1
  rw [List.length_append]
  have hshift : (BitVec.ofNat 32 input.length <<< 3).toNat = 8 * input.length % 2 ^ 32 := by
    rw [BitVec.toNat_shiftLeft, BitVec.toNat_ofNat, Nat.shiftLeft_eq]
    omega
  have hhigh : (BitVec.ofNat 32 input.length >>> 29).toNat = 8 * input.length / 2 ^ 32 := by
    rw [BitVec.toNat_ushiftRight, BitVec.toNat_ofNat, Nat.shiftRight_eq_div_pow]
    omega
  have hsum : (context.count0 + BitVec.ofNat 32 input.length <<< 3).toNat =
      (8 * message.length + 8 * input.length) % 2 ^ 32 := by
    rw [BitVec.toNat_add, hshift, h0]
    omega
  refine ⟨?_, ?_⟩
  · simp only [countBits]
    rw [hsum]
    omega
  · simp only [countBits]
    rw [BitVec.toNat_add, hhigh]
    split
    · rename_i hlt
      rw [BitVec.lt_def, hsum, hshift] at hlt
      rw [BitVec.toNat_add, h1]
      have hone : (1 : BitVec 32).toNat = 1 := rfl
      omega
    · rename_i hge
      rw [BitVec.lt_def, hsum, hshift] at hge
      rw [h1]
      omega

/-- The loop hands on the whole blocks that are left. -/
theorem transformBlocks_eq (hlen : input.length + 63 < 2 ^ 32) :
    ∀ {fuel i : Nat} {state : Regs}, i ≤ input.length → input.length < 64 * fuel + i →
      ∃ j, transformBlocks input fuel i state = some (j, (BlockStream.feed 64 md5Transform state (input.drop i)).1) ∧
        j ≤ input.length ∧ input.drop j = (BlockStream.feed 64 md5Transform state (input.drop i)).2 := by
  intro fuel
  induction fuel with
  | zero =>
    intro i state hi hfuel
    omega
  | succ fuel ih =>
    intro i state hi hfuel
    have hdrop : (input.drop i).length = input.length - i := List.length_drop
    rw [transformBlocks, Nat.mod_eq_of_lt (show i + 63 < 2 ^ 32 by omega)]
    split
    · rename_i hmore
      rw [Nat.mod_eq_of_lt (show i + 64 < 2 ^ 32 by omega),
        BlockStream.feed_step (by decide) (show 64 ≤ (input.drop i).length by omega), List.drop_drop]
      exact ih (by omega) (by omega)
    · rw [BlockStream.feed_of_lt (show (input.drop i).length < 64 by omega)]
      exact ⟨i, rfl, hi, rfl⟩

theorem memcpyBuffer_eq {buffer : List UInt8} {index : Nat} (h : index + input.length ≤ buffer.length) :
    ∃ buffer', memcpyBuffer buffer index input = some buffer' ∧ buffer'.length = buffer.length ∧
      buffer'.take (index + input.length) = buffer.take index ++ input := by
  refine ⟨Mem.patch index input buffer, if_pos h, Mem.length_patch h, ?_⟩
  exact List.take_left' (by rw [List.length_append, List.length_take_of_le (by omega)])

theorem Holds.update (h : Holds context message) (hlen : input.length + 63 < 2 ^ 32) :
    ∃ context', md5Update context input = some context' ∧ Holds context' (message ++ input) := by
  have hbuffer := h.length
  obtain ⟨hcount0, hcount1⟩ := h.count (show input.length < 2 ^ 32 by omega)
  have hindex : message.length % 64 < 64 := Nat.mod_lt _ (by decide)
  have hfeed := BlockStream.feed_append (n := 64) (f := md5Transform) (by decide) initialState message input
  rw [← h.state, ← h.buffer] at hfeed
  by_cases hpart : 64 - message.length % 64 ≤ input.length
  · have htake : (input.take (64 - message.length % 64)).length = 64 - message.length % 64 :=
      List.length_take_of_le hpart
    obtain ⟨full, hfull, hfulllen, hblock⟩ := @memcpyBuffer_eq (input.take (64 - message.length % 64)) context.buffer
      (message.length % 64) (by omega)
    obtain ⟨j, hloop, hj, hrest⟩ := @transformBlocks_eq input hlen (input.length / 64 + 1) (64 - message.length % 64)
      (md5Transform context.state full) hpart (by omega)
    -- the block that the buffer held the front of
    have hwhole : full = context.buffer.take (message.length % 64) ++ input.take (64 - message.length % 64) := by
      rw [← hblock, List.take_of_length_le (by omega)]
    have hsplit : context.buffer.take (message.length % 64) ++ input =
        full ++ input.drop (64 - message.length % 64) := by
      rw [hwhole, List.append_assoc, List.take_append_drop]
    have hfull64 : full.length = 64 := hfulllen.trans hbuffer
    rw [hsplit, BlockStream.feed_block (by decide) hfull64] at hfeed
    have hlast : (input.drop j).length = (message ++ input).length % 64 := by
      rw [hrest, ← hfeed]
      exact BlockStream.length_rest (by decide) _ _
    obtain ⟨last, hcopy, hlastlen, hkept⟩ := @memcpyBuffer_eq (input.drop j) full 0 (by omega)
    refine ⟨⟨(BlockStream.feed 64 md5Transform (md5Transform context.state full)
      (input.drop (64 - message.length % 64))).1, (countBits context (BitVec.ofNat 32 input.length)).1,
      (countBits context (BitVec.ofNat 32 input.length)).2, last⟩, ?_, ⟨?_, ?_, ?_, hcount0, hcount1⟩⟩
    · simp only [md5Update, h.index, if_pos hpart, hfull, hloop, hcopy, Option.bind_eq_bind, Option.bind_some]
      rfl
    · rw [hfeed]
    · exact hlastlen.trans hfull64
    · rw [hfeed, ← hrest, ← hlast]
      simpa using hkept
  · obtain ⟨kept, hcopy, hkeptlen, hkept⟩ := @memcpyBuffer_eq input context.buffer (message.length % 64) (by omega)
    have hshort : (context.buffer.take (message.length % 64) ++ input).length < 64 := by
      rw [List.length_append, List.length_take_of_le (by omega)]
      omega
    rw [BlockStream.feed_of_lt hshort] at hfeed
    refine ⟨⟨context.state, (countBits context (BitVec.ofNat 32 input.length)).1,
      (countBits context (BitVec.ofNat 32 input.length)).2, kept⟩, ?_, ⟨?_, ?_, ?_, hcount0, hcount1⟩⟩
    · simp only [md5Update, h.index, if_neg hpart, hcopy, Option.bind_eq_bind, Option.bind_some]
      rfl
    · rw [hfeed]
    · exact hkeptlen.trans hbuffer
    · have hmod : (message ++ input).length % 64 = message.length % 64 + input.length := by
        rw [List.length_append]
        omega
      rw [hfeed, hmod]
      exact hkept

theorem holds_init (hbuffer : context.buffer.length = 64) : Holds (md5Init context) [] where
  state := by
    rw [BlockStream.feed_of_lt (by decide)]
    rfl
  length := hbuffer
  buffer := by
    rw [BlockStream.feed_of_lt (by decide)]
    rfl
  count0 := rfl
  count1 := rfl

theorem holds_updates {chunks : List (List UInt8)} :
    ∀ {context : Md5Ctx} {message : List UInt8}, Holds context message →
      (∀ chunk ∈ chunks, chunk.length + 63 < 2 ^ 32) →
      ∃ context', chunks.foldlM md5Update context = some context' ∧ Holds context' (message ++ chunks.flatten) := by
  induction chunks with
  | nil =>
    intro context message h _
    exact ⟨context, rfl, by rwa [List.flatten_nil, List.append_nil]⟩
  | cons chunk chunks ih =>
    intro context message h hall
    obtain ⟨context', hstep, h'⟩ := h.update (hall chunk List.mem_cons_self)
    obtain ⟨context'', hrest, h''⟩ := ih h' fun c hc => hall c (List.mem_cons_of_mem _ hc)
    refine ⟨context'', ?_, ?_⟩
    · rw [List.foldlM_cons, hstep]
      exact hrest
    · rwa [List.flatten_cons, ← List.append_assoc]

theorem bytes_split (n : Nat) : LittleEndian.bytes 4 (n % 2 ^ 32) ++ LittleEndian.bytes 4 (n / 2 ^ 32 % 2 ^ 32) =
    LittleEndian.bytes 8 n := by
  have hword : (2 : Nat) ^ 32 = 256 ^ 4 := by decide
  rw [hword, LittleEndian.bytes_mod, LittleEndian.bytes_mod, ← LittleEndian.bytes_add]

theorem take_md5Padding {k : Nat} (hpos : 0 < k) (hk : k ≤ 64) : md5Padding.take k = 0x80 :: List.replicate (k - 1) 0 := by
  obtain ⟨k, rfl⟩ := Nat.exists_eq_succ_of_ne_zero hpos.ne'
  rw [md5Padding, List.take_succ_cons, List.take_replicate, Nat.min_eq_left (by omega)]
  rfl

/-- The padding fills the last block. -/
theorem Holds.pad (h : Holds context message) :
    ∃ context', md5Pad context = some context' ∧ Holds context' (message ++ padding message.length) := by
  have hindex : message.length % 64 < 64 := Nat.mod_lt _ (by decide)
  have hpad : md5Padding.take (if message.length % 64 < 56 then 56 - message.length % 64 else 120 - message.length % 64) =
      0x80 :: List.replicate ((119 - message.length % 64) % 64) 0 := by
    split
    · rw [take_md5Padding (by omega) (by omega)]
      congr 2
      omega
    · rw [take_md5Padding (by omega) (by omega)]
      congr 2
      omega
  obtain ⟨padded, hstep, hpadded⟩ := @Holds.update context message
    (0x80 :: List.replicate ((119 - message.length % 64) % 64) 0) h (by
      rw [List.length_cons, List.length_replicate]
      omega)
  obtain ⟨final, hlast, hfinal⟩ := @Holds.update padded _ (LittleEndian.bytes 8 (8 * message.length)) hpadded (by
    rw [LittleEndian.length_bytes]
    decide)
  refine ⟨final, ?_, ?_⟩
  · simp only [md5Pad, h.index, hpad, hstep, h.count0, h.count1, bytes_split, Option.bind_eq_bind, Option.bind_some, hlast]
  · rwa [padding, ← List.append_assoc]

end Update

/-- In whatever pieces a message comes, the digest is that of the message, and the context is cleared. A piece is so long that the
`unsigned int` of the loop does not wrap around. -/
theorem md5_stream {context : Md5Ctx} (hbuffer : context.buffer.length = 64) {chunks : List (List UInt8)}
    (hlen : ∀ chunk ∈ chunks, chunk.length + 63 < 2 ^ 32) :
    (chunks.foldlM md5Update (md5Init context)).bind md5Final = some (md5 chunks.flatten, cleared) := by
  obtain ⟨taken, htaken, hholds⟩ := holds_updates (holds_init hbuffer) hlen
  obtain ⟨padded, hpad, hpadded⟩ := hholds.pad
  rw [htaken, Option.bind_some, md5Final, hpad, Option.map_some, hpadded.state]
  rfl

/-- Two pieces. -/
theorem md5_stream_two : ([[0x61], [0x62, 0x63]].foldlM md5Update (md5Init cleared)).bind md5Final =
    some (md5 [0x61, 0x62, 0x63], cleared) :=
  md5_stream (by decide) (by decide)

example : (([[0x61], [0x62, 0x63]].foldlM md5Update (md5Init cleared)).bind md5Final).map Prod.fst =
    some [0x90, 0x01, 0x50, 0x98, 0x3c, 0xd2, 0x4f, 0xb0, 0xd6, 0x96, 0x3f, 0x7d, 0x28, 0xe1, 0x7f, 0x72] := by
  decide +kernel

end Xhyve.Emul.Md5
