import Mathlib.Data.List.Basic
import Mathlib.Data.List.Infix
import Mathlib.Data.List.TakeWhile
import Mathlib.Tactic

/-!
# Numerals with a prefix for their base

Decimal, octal with a leading zero, hexadecimal behind `0x`: the numerals of C. The front of a text is read as the longest
numeral there is, so a text has at most one reading.
-/

namespace Xhyve.Lib.Numeral

def digitVal (c : Char) : Option Nat :=
  if c.isDigit then some (c.toNat - 48)
  else if 'a' ≤ c ∧ c ≤ 'z' then some (c.toNat - 87)
  else if 'A' ≤ c ∧ c ≤ 'Z' then some (c.toNat - 55)
  else none

def isDigit (base : Nat) (c : Char) : Bool := (digitVal c).any (· < base)

def ofDigits (base : Nat) (ds : List Char) : Nat := ds.foldl (fun v c => base * v + (digitVal c).getD 0) 0

inductive IsNumeral : List Char → Nat → Prop
  | decimal {c : Char} {ds : List Char} : isDigit 10 c → c ≠ '0' → (∀ d ∈ ds, isDigit 10 d) →
      IsNumeral (c :: ds) (ofDigits 10 (c :: ds))
  | octal {ds : List Char} : (∀ d ∈ ds, isDigit 8 d) → IsNumeral ('0' :: ds) (ofDigits 8 ('0' :: ds))
  | hex {x : Char} {ds : List Char} : x = 'x' ∨ x = 'X' → ds ≠ [] → (∀ d ∈ ds, isDigit 16 d) →
      IsNumeral ('0' :: x :: ds) (ofDigits 16 ds)

/-- No longer front of the text is a numeral. -/
def Longest (num rest : List Char) : Prop := ∀ p, p ≠ [] → p <+: rest → ∀ v, ¬ IsNumeral (num ++ p) v

/-- What follows a hexadecimal prefix, if a digit does. -/
def afterHexPrefix : List Char → Option (List Char)
  | '0' :: x :: c :: s => if (x = 'x' ∨ x = 'X') ∧ isDigit 16 c then some (c :: s) else none
  | _ => none

/-- The base at the front of a text, and the text from the digits on. -/
def radix (s : List Char) : Nat × List Char :=
  match afterHexPrefix s with
  | some digits => (16, digits)
  | none => (if s.head? = some '0' then 8 else 10, s)

variable {s num num' rest rest' p ds : List Char} {c x : Char} {v v' base : Nat}

theorem x_not_digit (hx : x = 'x' ∨ x = 'X') : isDigit 8 x = false := by
  rcases hx with rfl | rfl
  · decide
  · decide

theorem IsNumeral.ne_nil (h : IsNumeral num v) : num ≠ [] := by
  cases h with
  | decimal => exact List.cons_ne_nil _ _
  | octal => exact List.cons_ne_nil _ _
  | hex => exact List.cons_ne_nil _ _

theorem IsNumeral.value_unique (h : IsNumeral num v) (h' : IsNumeral num v') : v = v' := by
  cases h with
  | decimal _ h0 =>
    cases h' with
    | decimal => rfl
    | octal => exact absurd rfl h0
    | hex => exact absurd rfl h0
  | octal hds =>
    cases h' with
    | decimal _ h0 => exact absurd rfl h0
    | octal => rfl
    | hex hx =>
      have hdigit := hds _ (List.mem_cons_self ..)
      rw [x_not_digit hx] at hdigit
      exact absurd hdigit (by decide)
  | hex hx =>
    cases h' with
    | decimal _ h0 => exact absurd rfl h0
    | octal hds =>
      have hdigit := hds _ (List.mem_cons_self ..)
      rw [x_not_digit hx] at hdigit
      exact absurd hdigit (by decide)
    | hex => rfl

/-- The front of a text is a numeral in one way. -/
theorem longest_unique (h : IsNumeral num v) (hl : Longest num rest) (h' : IsNumeral num' v') (hl' : Longest num' rest')
    (he : num ++ rest = num' ++ rest') : num = num' ∧ v = v' ∧ rest = rest' := by
  have hnum : num = num' := by
    rcases List.append_eq_append_iff.mp he with ⟨p, rfl, hrest⟩ | ⟨p, rfl, hrest⟩
    · by_cases hp : p = []
      · rw [hp, List.append_nil]
      · exact absurd h' (hl p hp ⟨rest', hrest.symm⟩ v')
    · by_cases hp : p = []
      · rw [hp, List.append_nil]
      · exact absurd h (hl' p hp ⟨rest, hrest.symm⟩ v)
  subst hnum
  exact ⟨rfl, h.value_unique h', List.append_cancel_left he⟩

/-! ## Reading -/

theorem takeWhile_digits (hds : ∀ d ∈ ds, isDigit base d) (hrest : ∀ c ∈ rest.head?, isDigit base c = false) :
    (ds ++ rest).takeWhile (isDigit base) = ds ∧ (ds ++ rest).dropWhile (isDigit base) = rest := by
  induction ds with
  | nil =>
    cases rest with
    | nil => exact ⟨rfl, rfl⟩
    | cons c rest =>
      have hc := hrest c rfl
      exact ⟨List.takeWhile_cons_of_neg (by rw [hc]; decide), List.dropWhile_cons_of_neg (by rw [hc]; decide)⟩
  | cons d ds ih =>
    have hd := hds d (List.mem_cons_self ..)
    obtain ⟨htake, hdrop⟩ := ih fun e he => hds e (List.mem_cons_of_mem _ he)
    rw [List.cons_append, List.takeWhile_cons_of_pos hd, List.dropWhile_cons_of_pos hd, htake, hdrop]
    exact ⟨rfl, rfl⟩

/-- A digit behind a numeral makes it longer. -/
theorem Longest.head_not_digit (hl : Longest num rest)
    (hlonger : ∀ c, isDigit base c = true → ∃ w, IsNumeral (num ++ [c]) w) : ∀ c ∈ rest.head?, isDigit base c = false := by
  intro c hc
  cases hdigit : isDigit base c with
  | false => rfl
  | true =>
    obtain ⟨t, rfl⟩ := List.head?_eq_some_iff.mp hc
    obtain ⟨w, hw⟩ := hlonger c hdigit
    exact absurd hw (hl [c] (List.cons_ne_nil _ _) ⟨t, rfl⟩ w)

theorem forall_mem_append_digit (hds : ∀ d ∈ ds, isDigit base d) (hc : isDigit base c = true) :
    ∀ d ∈ ds ++ [c], isDigit base d := by
  intro d hd
  rcases List.mem_append.mp hd with hd | hd
  · exact hds d hd
  · rw [List.mem_singleton.mp hd]
    exact hc

theorem afterHexPrefix_eq_none (h : ∀ x c t, s = '0' :: x :: c :: t → x = 'x' ∨ x = 'X' → isDigit 16 c = false) :
    afterHexPrefix s = none := by
  unfold afterHexPrefix
  split
  · rename_i x c t
    refine if_neg fun hpre => ?_
    have hno := h x c t rfl hpre.1
    rw [hpre.2] at hno
    exact Bool.noConfusion hno
  · rfl

/-- What is read of a text. -/
def reading (s : List Char) : List Char × Nat × List Char :=
  let r := radix s
  (r.2.takeWhile (isDigit r.1), ofDigits r.1 (r.2.takeWhile (isDigit r.1)), r.2.dropWhile (isDigit r.1))

theorem reading_of_radix {digits : List Char} (hr : radix s = (base, digits)) (hd : digits = ds ++ rest)
    (hds : ∀ d ∈ ds, isDigit base d) (hrest : ∀ c ∈ rest.head?, isDigit base c = false) :
    reading s = (ds, ofDigits base ds, rest) := by
  obtain ⟨htake, hdrop⟩ := takeWhile_digits hds hrest
  unfold reading
  rw [hr, hd]
  dsimp only
  rw [htake, hdrop]

/-- The longest numeral at the front is what is read. -/
theorem reading_numeral (h : IsNumeral num v) (hl : Longest num rest) :
    ∃ ds, ds ≠ [] ∧ reading (num ++ rest) = (ds, v, rest) := by
  cases h with
  | decimal hc h0 hds =>
    rename_i c ds
    have hall : ∀ d ∈ c :: ds, isDigit 10 d := List.forall_mem_cons.mpr ⟨hc, hds⟩
    have hnone : afterHexPrefix (c :: ds ++ rest) = none :=
      afterHexPrefix_eq_none fun x d t he => absurd (List.cons.inj he).1 h0
    have hradix : radix (c :: ds ++ rest) = (10, c :: ds ++ rest) := by
      unfold radix
      rw [hnone]
      exact congrArg (·, _) (if_neg fun he => h0 (Option.some.inj he))
    refine ⟨c :: ds, List.cons_ne_nil _ _, reading_of_radix hradix rfl hall (hl.head_not_digit fun d hd => ?_)⟩
    exact ⟨_, .decimal hc h0 (forall_mem_append_digit hds hd)⟩
  | octal hds =>
    rename_i ds
    have hall : ∀ d ∈ '0' :: ds, isDigit 8 d := List.forall_mem_cons.mpr ⟨by decide, hds⟩
    have hnone : afterHexPrefix ('0' :: ds ++ rest) = none := by
      refine afterHexPrefix_eq_none fun x c t he hx => ?_
      obtain ⟨-, he⟩ := List.cons.inj he
      cases ds with
      | nil =>
        -- A digit after the prefix would make a longer numeral of it.
        cases hdigit : isDigit 16 c with
        | false => rfl
        | true =>
          have hlonger : IsNumeral (['0'] ++ [x, c]) (ofDigits 16 [c]) :=
            .hex hx (List.cons_ne_nil _ _) (@forall_mem_append_digit [] _ _ (fun d hd => nomatch hd) hdigit)
          exact absurd hlonger (hl [x, c] (List.cons_ne_nil _ _) ⟨t, he.symm⟩ _)
      | cons d ds =>
        obtain ⟨rfl, -⟩ := List.cons.inj he
        have hdigit := hds d (List.mem_cons_self ..)
        rw [x_not_digit hx] at hdigit
        exact Bool.noConfusion hdigit
    have hradix : radix ('0' :: ds ++ rest) = (8, '0' :: ds ++ rest) := by
      unfold radix
      rw [hnone]
      rfl
    refine ⟨'0' :: ds, List.cons_ne_nil _ _, reading_of_radix hradix rfl hall (hl.head_not_digit fun d hd => ?_)⟩
    exact ⟨_, .octal (forall_mem_append_digit hds hd)⟩
  | hex hx hne hds =>
    rename_i x ds
    obtain ⟨c, ds, rfl⟩ := List.exists_cons_of_ne_nil hne
    have hsome : afterHexPrefix ('0' :: x :: (c :: ds) ++ rest) = some (c :: ds ++ rest) :=
      if_pos ⟨hx, hds c (List.mem_cons_self ..)⟩
    have hradix : radix ('0' :: x :: (c :: ds) ++ rest) = (16, c :: ds ++ rest) := by
      unfold radix
      rw [hsome]
    refine ⟨c :: ds, hne, reading_of_radix hradix rfl hds (hl.head_not_digit fun d hd => ?_)⟩
    exact ⟨_, .hex hx (List.cons_ne_nil _ _) (forall_mem_append_digit hds hd)⟩

theorem head_dropWhile_not (s : List Char) : ∀ c ∈ (s.dropWhile (isDigit base)).head?, isDigit base c = false := by
  intro c hc
  have hnot := List.head?_dropWhile_not (isDigit base) s
  rw [Option.mem_def.mp hc] at hnot
  exact hnot

theorem mem_takeWhile_digit (s : List Char) : ∀ d ∈ s.takeWhile (isDigit base), isDigit base d :=
  fun _ hd => List.mem_takeWhile_imp hd

/-- A numeral in the base of its prefix cannot be made longer but by a digit. -/
theorem longest_of_head (hrest : ∀ c ∈ rest.head?, isDigit base c = false)
    (hdigit : ∀ c p w, IsNumeral (num ++ c :: p) w → c :: p <+: rest → isDigit base c = true) : Longest num rest := by
  intro p hp hprefix w hw
  obtain ⟨c, p, rfl⟩ := List.exists_cons_of_ne_nil hp
  have hhead : c ∈ rest.head? := by
    obtain ⟨t, rfl⟩ := hprefix
    rfl
  have htrue := hdigit c p w hw hprefix
  rw [hrest c hhead] at htrue
  exact Bool.noConfusion htrue

/-- What is read is the longest numeral at the front. -/
theorem numeral_of_reading (h : (reading s).1 ≠ []) : ∃ num rest v, s = num ++ rest ∧ IsNumeral num v ∧ Longest num rest := by
  unfold reading radix at h
  cases hhex : afterHexPrefix s with
  | some digits =>
    rw [hhex] at h
    unfold afterHexPrefix at hhex
    split at hhex
    · rename_i x c t
      by_cases hpre : (x = 'x' ∨ x = 'X') ∧ isDigit 16 c = true
      · rw [if_pos hpre] at hhex
        obtain rfl := Option.some.inj hhex
        refine ⟨'0' :: x :: (c :: t).takeWhile (isDigit 16), (c :: t).dropWhile (isDigit 16), _, ?_,
          .hex hpre.1 h (mem_takeWhile_digit _), longest_of_head (head_dropWhile_not _) fun d p w hw _ => ?_⟩
        · rw [List.cons_append, List.cons_append, List.takeWhile_append_dropWhile]
        · cases hw with
          | decimal _ h0 => exact absurd rfl h0
          | octal hds =>
            have hdigit := hds x (List.mem_cons_self ..)
            rw [x_not_digit hpre.1] at hdigit
            exact Bool.noConfusion hdigit
          | hex _ _ hds => exact hds d (List.mem_append_right _ (List.mem_cons_self ..))
      · rw [if_neg hpre] at hhex
        cases hhex
    · cases hhex
  | none =>
    rw [hhex] at h
    dsimp only at h
    by_cases hzero : s.head? = some '0'
    · rw [if_pos hzero] at h
      obtain ⟨t, rfl⟩ := List.head?_eq_some_iff.mp hzero
      have htake : ('0' :: t).takeWhile (isDigit 8) = '0' :: t.takeWhile (isDigit 8) := List.takeWhile_cons_of_pos (by decide)
      refine ⟨'0' :: t.takeWhile (isDigit 8), t.dropWhile (isDigit 8), _, ?_, .octal (mem_takeWhile_digit _),
        longest_of_head (head_dropWhile_not _) fun d p w hw hp => ?_⟩
      · rw [List.cons_append, List.takeWhile_append_dropWhile]
      · cases hes : t.takeWhile (isDigit 8) with
        | nil =>
          rw [hes] at hw
          have hdrop : t.dropWhile (isDigit 8) = t := by
            have happend := List.takeWhile_append_dropWhile (p := isDigit 8) (l := t)
            rw [hes] at happend
            exact happend
          rw [hdrop] at hp
          cases hw with
          | decimal _ h0 => exact absurd rfl h0
          | octal hds => exact hds d (List.mem_cons_self ..)
          | hex hx hne hds =>
            obtain ⟨c, q, rfl⟩ := List.exists_cons_of_ne_nil hne
            obtain ⟨u, rfl⟩ := hp
            have hsome : afterHexPrefix ('0' :: (d :: c :: q ++ u)) = some (c :: (q ++ u)) :=
              if_pos ⟨hx, hds c (List.mem_cons_self ..)⟩
            rw [hhex] at hsome
            cases hsome
        | cons e es =>
          rw [hes] at hw
          have he : isDigit 8 e = true := mem_takeWhile_digit t e (by rw [hes]; exact List.mem_cons_self ..)
          cases hw with
          | decimal _ h0 => exact absurd rfl h0
          | octal hds => exact hds d (List.mem_cons_of_mem _ (List.mem_append_right _ (List.mem_cons_self ..)))
          | hex hx =>
            rw [x_not_digit hx] at he
            exact Bool.noConfusion he
    · rw [if_neg hzero] at h
      obtain ⟨c, ds, hds⟩ := List.exists_cons_of_ne_nil h
      have happend : c :: ds ++ s.dropWhile (isDigit 10) = s := by
        rw [← hds]
        exact List.takeWhile_append_dropWhile
      have hall : ∀ d ∈ c :: ds, isDigit 10 d := by
        rw [← hds]
        exact mem_takeWhile_digit s
      have h0 : c ≠ '0' := by
        rintro rfl
        rw [← happend] at hzero
        exact hzero rfl
      refine ⟨c :: ds, s.dropWhile (isDigit 10), _, happend.symm,
        .decimal (hall c (List.mem_cons_self ..)) h0 fun d hd => hall d (List.mem_cons_of_mem _ hd),
        longest_of_head (head_dropWhile_not _) fun d p w hw _ => ?_⟩
      have hmem : d ∈ ds ++ d :: p := List.mem_append_right _ (List.mem_cons_self ..)
      change IsNumeral (c :: (ds ++ d :: p)) w at hw
      generalize ds ++ d :: p = q at hw hmem
      cases hw with
      | decimal _ _ hds => exact hds d hmem
      | octal => exact absurd rfl h0
      | hex => exact absurd rfl h0

end Xhyve.Lib.Numeral
