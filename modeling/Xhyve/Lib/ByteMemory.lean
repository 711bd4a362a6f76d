import Xhyve.Lib.LittleEndian

/-!
# Byte-addressed memory

Little-endian words of any width in a byte-addressed memory. Two aligned words are the
same or disjoint, so words can be read and written like array cells, and a memory is
determined by its aligned words.
-/

namespace Xhyve.Lib

/-- A memory: the byte at each address. -/
abbrev Mem := Nat → UInt8

namespace Mem

variable {n : Nat} {m m' : Mem} {a b v : Nat}

/-- The `n`-byte word at `a`. -/
def load (n : Nat) (m : Mem) (a : Nat) : Nat :=
  LittleEndian.toNat ((List.range n).map fun i => m (a + i))

def store (n : Nat) (m : Mem) (a v : Nat) : Mem := fun x =>
  if a ≤ x ∧ x < a + n then (LittleEndian.bytes n v).getD (x - a) 0 else m x

/-- Compare-and-set: the new memory, or failure when the word is not `old`. -/
def cmpset (n : Nat) (m : Mem) (a old new : Nat) : Option Mem :=
  if load n m a = old then some (store n m a new) else none

theorem load_lt (n : Nat) (m : Mem) (a : Nat) : load n m a < 256 ^ n := by
  have h := Nat.ofDigits_lt_base_pow_length (b := 256)
    (l := ((List.range n).map fun i => m (a + i)).map UInt8.toNat) (by decide)
    (fun x hx => by
      obtain ⟨y, -, rfl⟩ := List.mem_map.mp hx
      exact y.toNat_lt)
  simpa [load, LittleEndian.toNat] using h

theorem load_store (hv : v < 256 ^ n) : load n (store n m a v) a = v := by
  have hbytes : (List.range n).map (fun i => store n m a v (a + i)) = LittleEndian.bytes n v := by
    refine List.ext_getElem (by simp) fun i h1 h2 => ?_
    rw [List.length_map, List.length_range] at h1
    have hin : a ≤ a + i ∧ a + i < a + n := ⟨Nat.le_add_right a i, Nat.add_lt_add_left h1 a⟩
    rw [List.getElem_map, List.getElem_range, store, if_pos hin, Nat.add_sub_cancel_left]
    simp [List.getD, List.getElem?_eq_getElem h2]
  rw [load, hbytes, LittleEndian.toNat_bytes_of_lt hv]

theorem load_congr (h : ∀ i < n, m' (a + i) = m (a + i)) : load n m' a = load n m a :=
  congrArg LittleEndian.toNat (List.map_congr_left fun i hi => h i (List.mem_range.mp hi))

theorem getD_bytes {n i : Nat} (hi : i < n) (v : Nat) :
    ((LittleEndian.bytes n v).getD i 0).toNat = v / 256 ^ i % 256 := by
  induction n generalizing i v with
  | zero => omega
  | succ n ih =>
    cases i with
    | zero => simp [LittleEndian.bytes]
    | succ i =>
      rw [LittleEndian.bytes, List.getD_cons_succ, ih (by omega), Nat.div_div_eq_div_mul, pow_succ']

theorem toNat_byte {bs : List UInt8} {i : Nat} (hi : i < bs.length) :
    LittleEndian.toNat bs / 256 ^ i % 256 = (bs.getD i 0).toNat := by
  induction bs generalizing i with
  | nil => cases hi
  | cons b bs ih =>
    have hcons : LittleEndian.toNat (b :: bs) = b.toNat + 256 * LittleEndian.toNat bs := by
      simp [LittleEndian.toNat, Nat.ofDigits_cons]
    have hb := b.toNat_lt
    rw [hcons]
    cases i with
    | zero =>
      rw [pow_zero, Nat.div_one, List.getD_cons_zero]
      omega
    | succ i =>
      rw [List.getD_cons_succ, ← ih (by simpa using hi), pow_succ', ← Nat.div_div_eq_div_mul]
      congr 2
      omega

/-- The bytes of a word that is stored. -/
theorem store_byte {x : Nat} (hlo : a ≤ x) (hhi : x < a + n) :
    (store n m a v x).toNat = v / 256 ^ (x - a) % 256 := by
  rw [store, if_pos ⟨hlo, hhi⟩]
  exact getD_bytes (by omega) v

/-- The bytes of a word that is loaded. -/
theorem load_byte {i : Nat} (hi : i < n) : load n m a / 256 ^ i % 256 = (m (a + i)).toNat := by
  rw [load, toNat_byte (by simpa using hi)]
  simp [List.getD, hi]

/-- A word is not changed by a store beside it. -/
theorem load_store_of_disjoint {k : Nat} (h : a + n ≤ b ∨ b + k ≤ a) :
    load n (store k m b v) a = load n m a := by
  refine load_congr fun i hi => if_neg ?_
  omega

theorem load_store_of_ne (ha : n ∣ a) (hb : n ∣ b) (hne : a ≠ b) :
    load n (store n m b v) a = load n m a := by
  rcases Nat.eq_zero_or_pos n with rfl | hn
  · rfl
  have hdisj : a + n ≤ b ∨ b + n ≤ a := by
    obtain ⟨i, rfl⟩ := ha
    obtain ⟨j, rfl⟩ := hb
    rcases Nat.lt_or_gt_of_ne (show i ≠ j from fun h => hne (h ▸ rfl)) with h | h
    · exact .inl (by rw [← Nat.mul_succ]; exact Nat.mul_le_mul_left n h)
    · exact .inr (by rw [← Nat.mul_succ]; exact Nat.mul_le_mul_left n h)
  exact load_store_of_disjoint hdisj

/-- A memory is determined by its aligned words. -/
theorem ext_load (hn : 0 < n) (h : ∀ a, n ∣ a → load n m a = load n m' a) : m = m' := by
  funext x
  have hword := h (n * (x / n)) (Nat.dvd_mul_right ..)
  have hlist := Nat.ofDigits_inj_of_len_eq (b := 256) (by decide) (by simp)
    (fun y hy => by
      obtain ⟨z, -, rfl⟩ := List.mem_map.mp hy
      exact z.toNat_lt)
    (fun y hy => by
      obtain ⟨z, -, rfl⟩ := List.mem_map.mp hy
      exact z.toNat_lt) hword
  have hmod : x % n < n := Nat.mod_lt x hn
  have hget := congrArg (·[x % n]?) hlist
  simp only [List.map_map, List.getElem?_map, List.getElem?_range hmod, Option.map_some,
    Function.comp_apply, Nat.div_add_mod, Option.some.injEq, UInt8.toNat_inj] at hget
  exact hget

theorem store_load (hn : 0 < n) (ha : n ∣ a) : store n m a (load n m a) = m := by
  refine ext_load hn fun b hb => ?_
  by_cases h : b = a
  · rw [h, load_store (load_lt n m a)]
  · exact load_store_of_ne hb ha h

/-- Sets bits of one word. -/
def orAt (n : Nat) (m : Mem) (a bits : Nat) : Mem := store n m a (load n m a ||| bits)

theorem load_orAt {bits : Nat} (hbits : bits < 256 ^ n) (ha : n ∣ a) (hb : n ∣ b) :
    load n (orAt n m b bits) a = load n m a ||| (if a = b then bits else 0) := by
  by_cases h : a = b
  · subst h
    have hpow : (256 : Nat) ^ n = 2 ^ (8 * n) := by rw [pow_mul]; norm_num
    have hlt : load n m a ||| bits < 256 ^ n := by
      have hload := load_lt n m a
      rw [hpow] at hbits hload ⊢
      exact Nat.or_lt_two_pow hload hbits
    rw [orAt, load_store hlt, if_pos rfl]
  · rw [orAt, load_store_of_ne ha hb h, if_neg h, Nat.or_zero]

end Mem
end Xhyve.Lib
