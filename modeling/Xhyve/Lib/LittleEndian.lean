import Mathlib.Data.Nat.Digits.Lemmas
import Mathlib.Tactic

/-!
# Little-endian integers

Fixed-width little-endian byte strings, read back as unsigned numbers and as
two's-complement integers.
-/

namespace Xhyve.Lib.LittleEndian

/-- The `n` low bytes of `x`, least significant first. -/
def bytes : Nat → Nat → List UInt8
  | 0, _ => []
  | n + 1, x => UInt8.ofNat x :: bytes n (x / 256)

def toNat (bs : List UInt8) : Nat := Nat.ofDigits 256 (bs.map UInt8.toNat)

/-- The two's-complement value of a byte string. -/
def toInt (bs : List UInt8) : Int := Int.bmod (toNat bs) (256 ^ bs.length)

@[simp] theorem length_bytes (n x : Nat) : (bytes n x).length = n := by
  induction n generalizing x with
  | zero => rfl
  | succ n ih => simp [bytes, ih]

theorem toNat_bytes (n x : Nat) : toNat (bytes n x) = x % 256 ^ n := by
  induction n generalizing x with
  | zero => simp [bytes, toNat, Nat.mod_one]
  | succ n ih =>
    have hcons : toNat (bytes (n + 1) x) = x % 256 + 256 * toNat (bytes n (x / 256)) := by
      simp [bytes, toNat, Nat.ofDigits_cons]
    rw [hcons, ih, pow_succ', Nat.mod_mul]

theorem toNat_bytes_of_lt {n x : Nat} (h : x < 256 ^ n) : toNat (bytes n x) = x := by
  rw [toNat_bytes, Nat.mod_eq_of_lt h]

/-- The integers an `n`-byte two's-complement field holds. -/
def Fits (n : Nat) (d : Int) : Prop := -(256 ^ n : Int) ≤ 2 * d ∧ 2 * d < 256 ^ n

instance (n : Nat) (d : Int) : Decidable (Fits n d) := inferInstanceAs (Decidable (_ ∧ _))

/-- The bytes of an integer in two's complement. -/
def ofInt (n : Nat) (d : Int) : List UInt8 := bytes n (d % 256 ^ n).toNat

@[simp] theorem length_ofInt (n : Nat) (d : Int) : (ofInt n d).length = n := length_bytes ..

theorem toInt_ofInt {n : Nat} {d : Int} (h : Fits n d) : toInt (ofInt n d) = d := by
  have hpos : (0 : Int) < 256 ^ n := by positivity
  have hnn : 0 ≤ d % 256 ^ n := Int.emod_nonneg _ hpos.ne'
  have hlt : (d % 256 ^ n).toNat < 256 ^ n := by
    have := Int.emod_lt_of_pos d hpos
    zify
    rw [Int.toNat_of_nonneg hnn]
    exact this
  have hcast : ((256 ^ n : Nat) : Int) = 256 ^ n := by push_cast; rfl
  rw [toInt, length_ofInt, ofInt, toNat_bytes_of_lt hlt, Int.toNat_of_nonneg hnn, ← hcast,
    Int.emod_bmod]
  obtain ⟨h1, h2⟩ := h
  apply Int.bmod_eq_of_le
  · omega
  · omega

/-- The low bytes first, and then the high ones. -/
theorem bytes_add (m n x : Nat) : bytes (m + n) x = bytes m x ++ bytes n (x / 256 ^ m) := by
  induction m generalizing x with
  | zero => rw [Nat.zero_add, pow_zero, Nat.div_one, bytes, List.nil_append]
  | succ m ih =>
    rw [Nat.succ_add, bytes, ih, bytes, List.cons_append, Nat.div_div_eq_div_mul, ← pow_succ']

theorem bytes_mod (n x : Nat) : bytes n (x % 256 ^ n) = bytes n x := by
  induction n generalizing x with
  | zero => rfl
  | succ n ih =>
    have hlow : UInt8.ofNat (x % 256 ^ (n + 1)) = UInt8.ofNat x := by
      refine UInt8.toNat_inj.mp ?_
      rw [UInt8.toNat_ofNat', UInt8.toNat_ofNat']
      exact Nat.mod_mod_of_dvd x (dvd_pow_self 256 (Nat.succ_ne_zero n))
    have hhigh : x % 256 ^ (n + 1) / 256 = x / 256 % 256 ^ n := by
      rw [pow_succ', Nat.mod_mul_right_div_self]
    rw [bytes, bytes, hlow, hhigh, ih]

end Xhyve.Lib.LittleEndian
