import Xhyve.Lib.Numeral
import Xhyve.Manager.Ini

/-!
# The size of memory

`parse_memsize` takes a number for megabytes or bytes, and gives `expand_number` what is more than a number. Neither looks at
what `strtoul` has skipped or could not represent, or at what follows the unit.
-/

namespace Xhyve.Manager.Memsize

open Xhyve.Lib.Numeral
open Xhyve.Manager.Ini (Str isspace lskip)

def mb : BitVec 64 := 0x100000

inductive Errno
  | einval
  | erange
deriving DecidableEq, Repr

/-- Behind the sign there may be. -/
def unsign (t : Str) : Str := if t.head? = some '-' ∨ t.head? = some '+' then t.tail else t

/-- `strtoul` and `strtoumax` with base 0: the value, `*endptr` and what `errno` is set to. -/
def strtoul (s : Str) : BitVec 64 × Str × Option Errno :=
  let t := lskip s
  let r := reading (unsign t)
  if r.1 = [] then (0, s, some .einval)
  else if r.2.1 ≥ 2 ^ 64 then (BitVec.allOnes 64, r.2.2, some .erange)
  else (if t.head? = some '-' then -BitVec.ofNat 64 r.2.1 else BitVec.ofNat 64 r.2.1, r.2.2, none)

/-- The shift of a unit. -/
def shiftOf : Char → Option Nat
  | 'e' => some 60
  | 'p' => some 50
  | 't' => some 40
  | 'g' => some 30
  | 'm' => some 20
  | 'k' => some 10
  | _ => none

def expandNumber (buf : Str) : Option (BitVec 64) :=
  let r := strtoul buf
  if r.2.2 ≠ none then none
  else
    match r.2.1.head? with
    | none => some r.1
    | some c =>
      if c.toLower = 'b' then some r.1
      else (shiftOf c.toLower).bind fun shift =>
        if (r.1 <<< shift) >>> shift ≠ r.1 then none else some (r.1 <<< shift)

/-- `none` when the error is not 0. -/
def parseMemsize (opt : Str) : Option (BitVec 64) :=
  let r := strtoul opt
  if opt ≠ [] ∧ r.2.1 = [] then some (if r.1 < mb then r.1 * mb else r.1) else expandNumber opt

/-! ## What a size is -/

/-- A unit letter, in either case, with the power of two it stands for. -/
def IsUnit (u : Char) (k : Nat) : Prop :=
  (u.toLower, k) ∈ [('b', 0), ('k', 10), ('m', 20), ('g', 30), ('t', 40), ('p', 50), ('e', 60)]

/-- A text that is a size, and the size. Letters that are digits of the number are no unit. -/
inductive IsSize : Str → Nat → Prop
  | bare {s : Str} {v : Nat} : IsNumeral s v → v < 2 ^ 64 → IsSize s (if v < 2 ^ 20 then v * 2 ^ 20 else v)
  | unit {num : Str} {u : Char} {v k : Nat} : IsNumeral num v → IsUnit u k → Longest num [u] → v * 2 ^ k < 2 ^ 64 →
      IsSize (num ++ [u]) (v * 2 ^ k)

/-- The sizes that are accepted are the sizes there are. -/
def Parses (s : Str) : Prop := ∀ n, (parseMemsize s).map BitVec.toNat = some n ↔ IsSize s n

/-- A text as a number with blanks and a sign before it, and something behind. -/
structure Reads (s blanks sign num : Str) (v : Nat) (rest : Str) : Prop where
  text : s = blanks ++ sign ++ num ++ rest
  blanks : ∀ c ∈ blanks, isspace c = true
  sign : sign = [] ∨ sign = ['+'] ∨ sign = ['-']
  numeral : IsNumeral num v
  longest : Longest num rest

/-- The value with its sign, of 64 bits. -/
def signed (sign : Str) (v : Nat) : Nat := if sign = ['-'] then (2 ^ 64 - v) % 2 ^ 64 else v

/-- A text that is read for a size it is not: a number without a unit that has something before it or is too large, or a
number that fits its unit and has something before it or behind the unit. -/
inductive Misread : Str → Prop
  | bare {s blanks sign num : Str} {v : Nat} : Reads s blanks sign num v [] → blanks ++ sign ≠ [] ∨ 2 ^ 64 ≤ v → Misread s
  | unit {s blanks sign num tail : Str} {u : Char} {v k : Nat} : Reads s blanks sign num v (u :: tail) → IsUnit u k →
      v < 2 ^ 64 → signed sign v * 2 ^ k < 2 ^ 64 → blanks ++ sign ++ tail ≠ [] → Misread s

/-! ## What `strtoul` reads -/

section Strtoul

variable {s t blanks blanks' sign sign' num num' rest rest' : Str} {c : Char} {v v' : Nat}

theorem isDigit_of_decimal (h : isDigit 10 c = true) : c.isDigit = true := by
  unfold isDigit digitVal at h
  split at h
  · assumption
  · exfalso
    split at h
    · rename_i ha
      have hlow : 97 ≤ c.toNat := ha.1
      simp only [Option.any_some, decide_eq_true_eq] at h
      omega
    · split at h
      · rename_i hA
        have hlow : 65 ≤ c.toNat := hA.1
        simp only [Option.any_some, decide_eq_true_eq] at h
        omega
      · cases h

/-- A digit is no blank and no sign. -/
theorem digit_head (h : isDigit 10 c = true) : isspace c = false ∧ c ≠ '-' ∧ c ≠ '+' := by
  have hdigit := isDigit_of_decimal h
  refine ⟨?_, ?_, ?_⟩
  · cases hspace : isspace c with
    | false => rfl
    | true =>
      have hmem := of_decide_eq_true hspace
      simp only [List.mem_cons, List.not_mem_nil, or_false] at hmem
      rcases hmem with rfl | rfl | rfl | rfl | rfl | rfl <;> exact absurd hdigit (by decide)
  · rintro rfl
    exact absurd hdigit (by decide)
  · rintro rfl
    exact absurd hdigit (by decide)

theorem numeral_head (h : IsNumeral num v) : ∃ c t, num = c :: t ∧ isDigit 10 c = true := by
  cases h with
  | decimal hc => exact ⟨_, _, rfl, hc⟩
  | octal => exact ⟨_, _, rfl, by decide⟩
  | hex => exact ⟨_, _, rfl, by decide⟩

theorem lskip_append (hblanks : ∀ c ∈ blanks, isspace c = true) (ht : ∀ c ∈ t.head?, isspace c = false) :
    lskip (blanks ++ t) = t := by
  unfold lskip
  rw [List.dropWhile_append_of_pos hblanks]
  cases t with
  | nil => rfl
  | cons c t => exact List.dropWhile_cons_of_neg (by rw [ht c rfl]; decide)

theorem Reads.lskip_eq (h : Reads s blanks sign num v rest) : lskip s = sign ++ num ++ rest := by
  obtain ⟨c, t, rfl, hc⟩ := numeral_head h.numeral
  have htext : s = blanks ++ (sign ++ (c :: t) ++ rest) := by
    rw [h.text, List.append_assoc, List.append_assoc, List.append_assoc]
  rw [htext]
  refine lskip_append h.blanks fun d hd => ?_
  rcases h.sign with hs | hs | hs <;> rw [hs] at hd <;> obtain rfl := Option.some.inj hd
  · exact (digit_head hc).1
  · decide
  · decide

theorem Reads.unsign_eq (h : Reads s blanks sign num v rest) :
    unsign (lskip s) = num ++ rest ∧ ((lskip s).head? = some '-' ↔ sign = ['-']) := by
  obtain ⟨c, t, rfl, hc⟩ := numeral_head h.numeral
  obtain ⟨-, hminus, hplus⟩ := digit_head hc
  rw [h.lskip_eq]
  rcases h.sign with rfl | rfl | rfl
  · have hne : ∀ d, c ≠ d → ¬ ([] ++ c :: t ++ rest).head? = some d := fun d hd he => hd (Option.some.inj he)
    refine ⟨if_neg fun he => he.elim (hne _ hminus) (hne _ hplus), iff_of_false (hne _ hminus) ?_⟩
    exact (List.cons_ne_nil _ _).symm
  · exact ⟨rfl, iff_of_false (fun he => absurd (Option.some.inj he) (by decide)) (by decide)⟩
  · exact ⟨rfl, iff_of_true rfl rfl⟩

theorem Reads.strtoul_eq (h : Reads s blanks sign num v rest) :
    strtoul s = if v ≥ 2 ^ 64 then (BitVec.allOnes 64, rest, some .erange)
      else (if sign = ['-'] then -BitVec.ofNat 64 v else BitVec.ofNat 64 v, rest, none) := by
  obtain ⟨hunsign, hneg⟩ := h.unsign_eq
  obtain ⟨ds, hne, hreading⟩ := reading_numeral h.numeral h.longest
  unfold strtoul
  dsimp only
  rw [hunsign, hreading, if_neg hne]
  simp only [hneg]

/-- A text is read in one way. -/
theorem Reads.unique (h : Reads s blanks sign num v rest) (h' : Reads s blanks' sign' num' v' rest') :
    blanks = blanks' ∧ sign = sign' ∧ num = num' ∧ v = v' ∧ rest = rest' := by
  have hskip := h.lskip_eq.symm.trans h'.lskip_eq
  obtain ⟨hunsign, hneg⟩ := h.unsign_eq
  obtain ⟨hunsign', hneg'⟩ := h'.unsign_eq
  obtain ⟨rfl, rfl, rfl⟩ := longest_unique h.numeral h.longest h'.numeral h'.longest (hunsign.symm.trans hunsign')
  rw [List.append_assoc, List.append_assoc] at hskip
  obtain rfl := List.append_cancel_right hskip
  have htext := h.text.symm.trans h'.text
  rw [List.append_assoc, List.append_assoc, List.append_assoc, List.append_assoc] at htext
  exact ⟨List.append_cancel_right htext, rfl, rfl, rfl, rfl⟩

/-- What cannot be read begins with no number. -/
theorem strtoul_of_not_reads (h : ∀ blanks sign num v rest, ¬ Reads s blanks sign num v rest) :
    strtoul s = (0, s, some .einval) := by
  by_cases hne : (reading (unsign (lskip s))).1 = []
  · exact if_pos hne
  · exfalso
    obtain ⟨num, rest, v, htext, hnum, hlong⟩ := numeral_of_reading hne
    have hblanks : ∀ c ∈ s.takeWhile isspace, isspace c = true := fun c hc => List.mem_takeWhile_imp hc
    have hs : s = s.takeWhile isspace ++ lskip s := (List.takeWhile_append_dropWhile ..).symm
    unfold unsign at htext
    split at htext
    · rename_i hsign
      have hcons : ∃ d, (d = '-' ∨ d = '+') ∧ lskip s = [d] ++ (num ++ rest) := by
        rcases hsign with hd | hd
        · obtain ⟨t, ht⟩ := List.head?_eq_some_iff.mp hd
          exact ⟨_, .inl rfl, by rw [← htext, ht]; rfl⟩
        · obtain ⟨t, ht⟩ := List.head?_eq_some_iff.mp hd
          exact ⟨_, .inr rfl, by rw [← htext, ht]; rfl⟩
      obtain ⟨d, hd, hcons⟩ := hcons
      refine h (s.takeWhile isspace) [d] num v rest ⟨?_, hblanks, ?_, hnum, hlong⟩
      · rw [List.append_assoc, List.append_assoc, ← hcons]
        exact hs
      · rcases hd with rfl | rfl
        · exact .inr (.inr rfl)
        · exact .inr (.inl rfl)
    · refine h (s.takeWhile isspace) [] num v rest ⟨?_, hblanks, .inl rfl, hnum, hlong⟩
      rw [List.append_nil, List.append_assoc, ← htext]
      exact hs

end Strtoul

/-! ## What the two parsers make of it -/

section Parsers

variable {s blanks sign num rest tail : Str} {u : Char} {x : BitVec 64} {n v k k' : Nat}

theorem isUnit_iff : IsUnit u k ↔ u.toLower = 'b' ∧ k = 0 ∨ shiftOf u.toLower = some k := by
  unfold IsUnit shiftOf
  generalize u.toLower = c
  constructor
  · intro h
    simp only [List.mem_cons, List.not_mem_nil, or_false, Prod.mk.injEq] at h
    rcases h with ⟨rfl, rfl⟩ | ⟨rfl, rfl⟩ | ⟨rfl, rfl⟩ | ⟨rfl, rfl⟩ | ⟨rfl, rfl⟩ | ⟨rfl, rfl⟩ | ⟨rfl, rfl⟩ <;> decide
  · rintro (⟨rfl, rfl⟩ | h)
    · decide
    · split at h <;> first | (obtain rfl := Option.some.inj h; decide) | cases h

theorem IsUnit.unique (h : IsUnit u k) (h' : IsUnit u k') : k = k' := by
  rcases isUnit_iff.mp h with ⟨hb, rfl⟩ | h
  · rcases isUnit_iff.mp h' with ⟨-, rfl⟩ | h'
    · rfl
    · rw [hb] at h'
      exact absurd h' (by simp [shiftOf])
  · rcases isUnit_iff.mp h' with ⟨hb, rfl⟩ | h'
    · rw [hb] at h
      exact absurd h (by simp [shiftOf])
    · exact Option.some.inj (h.symm.trans h')

theorem signed_toNat (hv : v < 2 ^ 64) :
    (if sign = ['-'] then -BitVec.ofNat 64 v else BitVec.ofNat 64 v).toNat = signed sign v := by
  unfold signed
  split
  · rw [BitVec.toNat_neg, BitVec.toNat_ofNat, Nat.mod_eq_of_lt hv]
  · rw [BitVec.toNat_ofNat, Nat.mod_eq_of_lt hv]

/-- The test for a shift that loses bits. -/
theorem shift_back_iff (x : BitVec 64) (k : Nat) : (x <<< k) >>> k = x ↔ x.toNat * 2 ^ k < 2 ^ 64 := by
  have hpos : 0 < 2 ^ k := Nat.two_pow_pos k
  rw [← BitVec.toNat_inj, BitVec.toNat_ushiftRight, BitVec.toNat_shiftLeft, Nat.shiftLeft_eq, Nat.shiftRight_eq_div_pow]
  constructor
  · intro h
    have hmul : x.toNat * 2 ^ k ≤ x.toNat * 2 ^ k % 2 ^ 64 := by
      conv_lhs => rw [← h]
      exact Nat.div_mul_le_self ..
    exact lt_of_le_of_lt hmul (Nat.mod_lt _ (by decide))
  · intro h
    rw [Nat.mod_eq_of_lt h, Nat.mul_div_cancel _ hpos]

theorem shiftLeft_toNat (h : x.toNat * 2 ^ k < 2 ^ 64) : (x <<< k).toNat = x.toNat * 2 ^ k := by
  rw [BitVec.toNat_shiftLeft, Nat.shiftLeft_eq, Nat.mod_eq_of_lt h]

theorem parseMemsize_of_not_reads (h : ∀ blanks sign num v rest, ¬ Reads s blanks sign num v rest) :
    parseMemsize s = none := by
  have hstrtoul := strtoul_of_not_reads h
  have hexpand : expandNumber s = none := by
    unfold expandNumber
    rw [hstrtoul]
    rfl
  unfold parseMemsize
  rw [hstrtoul]
  exact (if_neg fun he => he.1 he.2).trans hexpand

theorem Reads.ne_nil (h : Reads s blanks sign num v rest) : s ≠ [] := by
  rintro rfl
  have htext := h.text.symm
  rw [List.append_eq_nil_iff, List.append_eq_nil_iff] at htext
  exact h.numeral.ne_nil htext.1.2

/-- A number with nothing behind it is always accepted, -/
theorem Reads.parse_bare (h : Reads s blanks sign num v []) : ∃ x, parseMemsize s = some x := by
  have hrest : (strtoul s).2.1 = [] := by
    rw [h.strtoul_eq]
    split
    · rfl
    · rfl
  exact ⟨_, if_pos ⟨h.ne_nil, hrest⟩⟩

/-- for megabytes when there is less than one. -/
theorem Reads.parse_plain (h : Reads s blanks [] num v []) (hv : v < 2 ^ 64) :
    (parseMemsize s).map BitVec.toNat = some (if v < 2 ^ 20 then v * 2 ^ 20 else v) := by
  have hstrtoul := h.strtoul_eq
  rw [if_neg (by omega), if_neg (by decide)] at hstrtoul
  unfold parseMemsize
  rw [hstrtoul, if_pos ⟨h.ne_nil, rfl⟩, Option.map_some]
  have hvalue : (BitVec.ofNat 64 v).toNat = v := by
    rw [BitVec.toNat_ofNat, Nat.mod_eq_of_lt hv]
  have hmb : BitVec.ofNat 64 v < mb ↔ v < 2 ^ 20 := by
    rw [BitVec.lt_def, hvalue]
    rfl
  refine congrArg some ?_
  by_cases hlt : v < 2 ^ 20
  · rw [if_pos hlt, if_pos (hmb.mpr hlt), BitVec.toNat_mul, hvalue]
    change v * 2 ^ 20 % 2 ^ 64 = _
    omega
  · rw [if_neg hlt, if_neg (fun he => hlt (hmb.mp he)), hvalue]

/-- With something behind it a number is accepted exactly when that begins with a unit and the number fits it. -/
theorem Reads.parse_unit (h : Reads s blanks sign num v (u :: tail)) :
    (parseMemsize s).map BitVec.toNat = some n ↔
      ∃ k, IsUnit u k ∧ v < 2 ^ 64 ∧ signed sign v * 2 ^ k < 2 ^ 64 ∧ n = signed sign v * 2 ^ k := by
  have hrest : (strtoul s).2.1 ≠ [] := by
    rw [h.strtoul_eq]
    split
    · exact List.cons_ne_nil _ _
    · exact List.cons_ne_nil _ _
  have hexpand : parseMemsize s = expandNumber s := if_neg fun he => hrest he.2
  rw [hexpand]
  unfold expandNumber
  rw [h.strtoul_eq]
  by_cases hv : v < 2 ^ 64
  · rw [if_neg (Nat.not_le.mpr hv)]
    have hvalue := @signed_toNat sign _ hv
    generalize (if sign = ['-'] then -BitVec.ofNat 64 v else BitVec.ofNat 64 v) = x at hvalue
    dsimp only [List.head?_cons]
    rw [if_neg (not_not.mpr rfl), ← hvalue]
    by_cases hb : u.toLower = 'b'
    · have hunit : IsUnit u 0 := isUnit_iff.mpr (.inl ⟨hb, rfl⟩)
      rw [if_pos hb, Option.map_some]
      constructor
      · intro he
        exact ⟨0, hunit, hv, by rw [pow_zero, Nat.mul_one]; exact x.isLt, by rw [pow_zero, Nat.mul_one, Option.some.inj he]⟩
      · rintro ⟨k, hk, -, -, rfl⟩
        rw [hk.unique hunit, pow_zero, Nat.mul_one]
    · rw [if_neg hb]
      cases hshift : shiftOf u.toLower with
      | none =>
        refine iff_of_false (fun he => nomatch he) ?_
        rintro ⟨k, hk, -⟩
        rcases isUnit_iff.mp hk with ⟨he, -⟩ | he
        · exact hb he
        · rw [hshift] at he
          cases he
      | some shift =>
        have hunit : IsUnit u shift := isUnit_iff.mpr (.inr hshift)
        rw [Option.bind_some]
        by_cases hfits : x.toNat * 2 ^ shift < 2 ^ 64
        · rw [if_neg (not_not.mpr ((shift_back_iff x shift).mpr hfits)), Option.map_some, shiftLeft_toNat hfits]
          constructor
          · intro he
            exact ⟨shift, hunit, hv, hfits, (Option.some.inj he).symm⟩
          · rintro ⟨k, hk, -, -, rfl⟩
            rw [hk.unique hunit]
        · rw [if_pos fun he => hfits ((shift_back_iff x shift).mp he)]
          refine iff_of_false (fun he => nomatch he) ?_
          rintro ⟨k, hk, -, hlt, -⟩
          rw [hk.unique hunit] at hlt
          exact hfits hlt
  · rw [if_pos (Nat.not_lt.mp hv), if_pos (Option.some_ne_none _)]
    refine iff_of_false (fun he => nomatch he) ?_
    rintro ⟨k, -, hlt, -⟩
    exact hv hlt

end Parsers

/-! ## Sizes and what is accepted -/

section Sizes

variable {s blanks sign num rest tail : Str} {n v k : Nat}

theorem longest_nil (num : Str) : Longest num [] := fun _ hp hprefix _ _ => hp (List.prefix_nil.mp hprefix)

/-- A size is read as a number with nothing before it, and nothing or a unit behind. -/
theorem IsSize.reads (h : IsSize s n) :
    (∃ v, Reads s [] [] s v [] ∧ v < 2 ^ 64 ∧ n = if v < 2 ^ 20 then v * 2 ^ 20 else v) ∨
      ∃ num u v k, Reads s [] [] num v [u] ∧ IsUnit u k ∧ v * 2 ^ k < 2 ^ 64 ∧ n = v * 2 ^ k := by
  cases h with
  | bare hnum hv =>
    exact .inl ⟨_, ⟨(List.append_nil _).symm, (fun c hc => nomatch hc), .inl rfl, hnum, longest_nil _⟩, hv, rfl⟩
  | unit hnum hunit hlong hlt =>
    exact .inr ⟨_, _, _, _, ⟨rfl, (fun c hc => nomatch hc), .inl rfl, hnum, hlong⟩, hunit, hlt, rfl⟩

theorem signed_nil (v : Nat) : signed [] v = v := rfl

theorem parses_bare_iff (h : Reads s blanks sign num v []) : Parses s ↔ ¬ Misread s := by
  by_cases hplain : blanks ++ sign = [] ∧ v < 2 ^ 64
  · obtain ⟨hpre, hv⟩ := hplain
    obtain ⟨rfl, rfl⟩ := List.append_eq_nil_iff.mp hpre
    have hnum : s = num := h.text.trans (List.append_nil _)
    refine iff_of_true (fun n => ?_) ?_
    · rw [h.parse_plain hv]
      constructor
      · intro he
        rw [← Option.some.inj he, hnum]
        exact .bare h.numeral hv
      · intro hsize
        rcases hsize.reads with ⟨w, hw, -, rfl⟩ | ⟨num', u, w, k, hw, -⟩
        · obtain ⟨-, -, -, rfl, -⟩ := h.unique hw
          rfl
        · obtain ⟨-, -, -, -, hrest⟩ := h.unique hw
          cases hrest
    · intro hmis
      cases hmis with
      | bare hw hbad =>
        obtain ⟨rfl, rfl, -, rfl, -⟩ := h.unique hw
        rcases hbad with hne | hle
        · exact hne rfl
        · omega
      | unit hw =>
        obtain ⟨-, -, -, -, hrest⟩ := h.unique hw
        cases hrest
  · have hbad : blanks ++ sign ≠ [] ∨ 2 ^ 64 ≤ v := (not_and_or.mp hplain).imp_right Nat.not_lt.mp
    refine iff_of_false (fun hparses => ?_) (not_not.mpr (.bare h hbad))
    obtain ⟨x, hx⟩ := h.parse_bare
    rcases ((hparses x.toNat).mp (by rw [hx]; rfl)).reads with ⟨w, hw, hlt, -⟩ | ⟨num', u, w, k, hw, -⟩
    · obtain ⟨rfl, rfl, -, rfl, -⟩ := h.unique hw
      exact hplain ⟨rfl, hlt⟩
    · obtain ⟨-, -, -, -, hrest⟩ := h.unique hw
      cases hrest

theorem parses_unit_iff {u : Char} (h : Reads s blanks sign num v (u :: tail)) : Parses s ↔ ¬ Misread s := by
  by_cases hclean : blanks ++ sign ++ tail = []
  · rw [List.append_eq_nil_iff, List.append_eq_nil_iff] at hclean
    obtain ⟨⟨rfl, rfl⟩, rfl⟩ := hclean
    refine iff_of_true (fun n => ?_) ?_
    · rw [h.parse_unit, signed_nil]
      constructor
      · rintro ⟨k, hunit, -, hfits, rfl⟩
        have htext : s = num ++ [u] := h.text
        rw [htext]
        exact .unit h.numeral hunit h.longest hfits
      · intro hsize
        rcases hsize.reads with ⟨w, hw, -⟩ | ⟨num', u', w, k, hw, hunit, hfits, rfl⟩
        · obtain ⟨-, -, -, -, hrest⟩ := h.unique hw
          cases hrest
        · obtain ⟨-, -, rfl, rfl, hrest⟩ := h.unique hw
          obtain ⟨rfl, -⟩ := List.cons.inj hrest
          exact ⟨k, hunit, lt_of_le_of_lt (Nat.le_mul_of_pos_right v (Nat.two_pow_pos k)) hfits, hfits, rfl⟩
    · intro hmis
      cases hmis with
      | bare hw =>
        obtain ⟨-, -, -, -, hrest⟩ := h.unique hw
        cases hrest
      | unit hw _ _ _ hne =>
        obtain ⟨rfl, rfl, -, -, hrest⟩ := h.unique hw
        obtain ⟨-, rfl⟩ := List.cons.inj hrest
        exact hne rfl
  · -- Something is there that no size has, so the text is none.
    have hnone : ∀ n, ¬ IsSize s n := by
      intro n hsize
      rcases hsize.reads with ⟨w, hw, -⟩ | ⟨num', u', w, k, hw, -⟩
      · obtain ⟨-, -, -, -, hrest⟩ := h.unique hw
        cases hrest
      · obtain ⟨rfl, rfl, -, -, hrest⟩ := h.unique hw
        obtain ⟨-, rfl⟩ := List.cons.inj hrest
        exact hclean rfl
    have hmisread : Misread s ↔ ∃ k, IsUnit u k ∧ v < 2 ^ 64 ∧ signed sign v * 2 ^ k < 2 ^ 64 := by
      constructor
      · intro hmis
        cases hmis with
        | bare hw =>
          obtain ⟨-, -, -, -, hrest⟩ := h.unique hw
          cases hrest
        | unit hw hunit hv hfits _ =>
          obtain ⟨rfl, rfl, -, rfl, hrest⟩ := h.unique hw
          obtain ⟨rfl, -⟩ := List.cons.inj hrest
          exact ⟨_, hunit, hv, hfits⟩
      · rintro ⟨k, hunit, hv, hfits⟩
        exact .unit h hunit hv hfits hclean
    rw [hmisread]
    constructor
    · rintro hparses ⟨k, hunit, hv, hfits⟩
      exact hnone _ ((hparses _).mp (h.parse_unit.mpr ⟨k, hunit, hv, hfits, rfl⟩))
    · intro hno n
      refine iff_of_false (fun he => ?_) (hnone n)
      obtain ⟨k, hunit, hv, hfits, -⟩ := h.parse_unit.mp he
      exact hno ⟨k, hunit, hv, hfits⟩

/-- The sizes accepted are those there are, but for the texts that are misread. -/
theorem memsize_parses_iff (s : Str) : Parses s ↔ ¬ Misread s := by
  by_cases hreads : ∃ blanks sign num v rest, Reads s blanks sign num v rest
  · obtain ⟨blanks, sign, num, v, rest, h⟩ := hreads
    cases rest with
    | nil => exact parses_bare_iff h
    | cons u tail => exact parses_unit_iff h
  · have hno : ∀ blanks sign num v rest, ¬ Reads s blanks sign num v rest :=
      fun blanks sign num v rest h => hreads ⟨blanks, sign, num, v, rest, h⟩
    refine iff_of_true (fun n => ?_) fun hmis => ?_
    · rw [parseMemsize_of_not_reads hno]
      refine iff_of_false (fun he => nomatch he) fun hsize => ?_
      rcases hsize.reads with ⟨w, hw, -⟩ | ⟨num, u, w, k, hw, -⟩
      · exact hno _ _ _ _ _ hw
      · exact hno _ _ _ _ _ hw
    · cases hmis with
      | bare hw => exact hno _ _ _ _ _ hw
      | unit hw => exact hno _ _ _ _ _ hw

/-- Text behind a unit is accepted. -/
theorem memsize_trailing :
    (parseMemsize ['1', 'g', 'b']).map BitVec.toNat = some (2 ^ 30) ∧ ¬ Parses ['1', 'g', 'b'] := by
  have hread : reading ['1', 'g', 'b'] = (['1'], 1, ['g', 'b']) := by decide +kernel
  refine ⟨by decide +kernel, fun hparses => ?_⟩
  obtain ⟨num, rest, v, htext, hnum, hlong⟩ := numeral_of_reading (by rw [hread]; decide)
  obtain ⟨ds, -, hds⟩ := reading_numeral hnum hlong
  rw [← htext, hread] at hds
  obtain ⟨rfl, rfl⟩ := Prod.mk.inj (Prod.mk.inj hds).2
  have h : Reads ['1', 'g', 'b'] [] [] num 1 ['g', 'b'] := ⟨htext, (fun c hc => nomatch hc), .inl rfl, hnum, hlong⟩
  have hunit : IsUnit 'g' 30 := by unfold IsUnit; decide
  exact (parses_unit_iff h).mp hparses (.unit h hunit (by decide) (by decide) (by decide))

end Sizes

end Xhyve.Manager.Memsize
