import Xhyve.Lib.BitWords
import Xhyve.Vmm.PageWalk

/-!
# The page walk against the architecture

The processor's own walk, as the architecture manual states it: entry addresses, permission
checks and page sizes over one fixed memory, with the list of entries whose accessed flag
it sets. `vm_gla2gpa` changes memory while it walks, and may meet its own changes again
when tables point back at themselves, but only in flags that no part of the walk depends
on. So every pass sees the walk of the initial memory, and a second pass finds all
accessed flags set and cannot restart.
-/

namespace Xhyve.Vmm.PageWalk

open Xhyve.Lib Xhyve.Lib.Mem
open Xhyve.Vmm.Decode (CpuMode)

namespace Sdm

/-- Bits `hi:lo` of `x`. -/
def bits (hi lo x : Nat) : Nat := x / 2 ^ lo % 2 ^ (hi + 1 - lo)

inductive Outcome
  | page (gpa : Nat)
  /-- A page fault, with the P and RSVD bits of its error code. -/
  | pageFault (p rsvd : Bool)
  | generalProtection
  /-- A table lies outside guest memory. -/
  | outside
deriving DecidableEq, Repr

structure Walk where
  outcome : Outcome
  /-- The entries used at the levels that have an accessed flag, root first. -/
  used : List Nat
  /-- The entry that maps the page. -/
  leaf : Option Nat
  /-- The page-directory-pointer-table entry of PAE paging, which has no accessed flag. -/
  pdpte : Option Nat
deriving DecidableEq, Repr

/-- Every entry the translation uses. -/
def Walk.entries (w : Walk) : List Nat := w.pdpte.toList ++ w.used

/-- A hierarchy of paging structures. -/
structure Hierarchy where
  entrySize : Nat
  indexBits : Nat
  /-- The highest physical-address bit an entry holds. -/
  top : Nat
  /-- The shift of the largest page. -/
  largest : Nat
  /-- Whether bits 20:13 of a large page's entry are bits 39:32 of its address. -/
  pse36 : Bool

def hierarchy32 (pse36 : Bool) : Hierarchy := ⟨4, 10, 31, 22, pse36⟩
def hierarchy64 : Hierarchy := ⟨8, 9, 51, 30, false⟩

section Walk
variable (H : Hierarchy) (segs : List MemSeg) (user write : Bool) (gla : Nat) (m : Mem)

def faults (e : Nat) : Bool := !e.testBit 0 || user && !e.testBit 2 || write && !e.testBit 1

/-- The address an entry of the given shift maps the linear address to. -/
def mapped (shift e : Nat) : Nat :=
  (if H.pse36 ∧ pageShift < shift then bits 20 13 e * 2 ^ 32 else 0) +
    bits H.top shift e * 2 ^ shift + gla % 2 ^ shift

/-- Where the table at `base` holds the entry for the linear address. -/
def entryAddr (level base : Nat) : Nat :=
  base + H.entrySize * (gla / 2 ^ (pageShift + level * H.indexBits) % 2 ^ H.indexBits)

/-- The walk from the table at `base`, with `level` levels below it. -/
def walkFrom : Nat → Nat → Walk
  | level, base =>
    if vmGpa2hva segs base pageSize = none then ⟨.outside, [], none, none⟩
    else
      let shift := pageShift + level * H.indexBits
      let a := entryAddr H gla level base
      let e := load H.entrySize m a
      if faults user write e then ⟨.pageFault (e.testBit 0) false, [], none, none⟩
      else
        match level with
        | 0 => ⟨.page (mapped H gla shift e), [a], some a, none⟩
        | level + 1 =>
          if e.testBit 7 then
            if H.largest < shift then ⟨.pageFault true true, [a], none, none⟩
            else ⟨.page (mapped H gla shift e), [a], some a, none⟩
          else
            let w := walkFrom level (bits H.top 12 e * 2 ^ 12)
            { w with used := a :: w.used }

end Walk

def canonical (gla : Nat) : Bool := gla / 2 ^ 47 = 0 ∨ gla / 2 ^ 47 = 2 ^ 17 - 1

/-- The walk of a linear address. -/
def translate (pse36 : Bool) (segs : List MemSeg) (paging : GuestPaging) (gla : Nat)
    (user write : Bool) (m : Mem) : Walk :=
  let cr3 := paging.cr3.toNat
  if paging.cpuMode = .mode64 ∧ ¬ canonical gla then ⟨.generalProtection, [], none, none⟩
  else match paging.pagingMode with
    | .flat => ⟨.page gla, [], none, none⟩
    | .bits32 =>
      walkFrom (hierarchy32 pse36) segs user write gla m 1 (bits 31 12 cr3 * 2 ^ 12)
    | .pae =>
      let base := bits 31 5 cr3 * 2 ^ 5
      if vmGpa2hva segs base 32 = none then ⟨.outside, [], none, none⟩
      else
        let a := base + 8 * (gla / 2 ^ 30 % 4)
        let e := load 8 m a
        if e.testBit 0 then
          { walkFrom hierarchy64 segs user write gla m 1 (bits 51 12 e * 2 ^ 12) with
            pdpte := some a }
        else ⟨.pageFault false false, [], none, none⟩
    | .bits64 => walkFrom hierarchy64 segs user write gla m 3 (bits 51 12 cr3 * 2 ^ 12)

end Sdm

open Sdm

/-- How the caller of `vm_gla2gpa` sees an outcome. -/
def result (user : Bool) (prot : Nat) : Outcome → Result
  | .page gpa => .ok gpa
  | .pageFault p rsvd => .pf (pfErrorCode user prot rsvd (if p then pgV else 0))
  | .generalProtection => .gp
  | .outside => .efault

/-! ## Accessed and dirty flags -/

/-- Sets the accessed flag of each listed entry. -/
def accessed (n : Nat) (m : Mem) (used : List Nat) : Mem :=
  used.foldl (fun m a => orAt n m a pgA) m

/-- The memory a finished walk leaves. -/
def marked (n : Nat) (write : Bool) (m : Mem) (w : Walk) : Mem :=
  match w.leaf with
  | some a => if write then orAt n (accessed n m w.used) a pgM else accessed n m w.used
  | none => accessed n m w.used

theorem and_pgV (x : Nat) : x &&& pgV = 0 ↔ x.testBit 0 = false := and_two_pow_eq_zero x 0
theorem and_pgRW (x : Nat) : x &&& pgRW = 0 ↔ x.testBit 1 = false := and_two_pow_eq_zero x 1
theorem and_pgU (x : Nat) : x &&& pgU = 0 ↔ x.testBit 2 = false := and_two_pow_eq_zero x 2
theorem and_pgA (x : Nat) : x &&& pgA = 0 ↔ x.testBit 5 = false := and_two_pow_eq_zero x 5
theorem and_pgM (x : Nat) : x &&& pgM = 0 ↔ x.testBit 6 = false := and_two_pow_eq_zero x 6
theorem and_pgPS (x : Nat) : x &&& pgPS = 0 ↔ x.testBit 7 = false := and_two_pow_eq_zero x 7

theorem testBit_pgA (i : Nat) : pgA.testBit i = decide (5 = i) := Nat.testBit_two_pow (n := 5)
theorem testBit_pgM (i : Nat) : pgM.testBit i = decide (6 = i) := Nat.testBit_two_pow (n := 6)

/-- Two entries agree outside the accessed and dirty flags. -/
def EntryEq (e e' : Nat) : Prop := ∀ i, i ≠ 5 → i ≠ 6 → e'.testBit i = e.testBit i

/-- Two memories agree outside the accessed and dirty flags of their entries. -/
def FlagEq (n : Nat) (m m' : Mem) : Prop := ∀ a, n ∣ a → EntryEq (load n m a) (load n m' a)

section Flags
variable {n : Nat} {m m' : Mem} {used : List Nat} {a b : Nat} {w : Walk} {write : Bool}

theorem flags_lt (hn : 0 < n) : pgA < 256 ^ n ∧ pgM < 256 ^ n := by
  have h : 256 ^ 1 ≤ 256 ^ n := Nat.pow_le_pow_right (by decide) hn
  exact ⟨lt_of_lt_of_le (by decide) h, lt_of_lt_of_le (by decide) h⟩

theorem load_accessed (hn : 0 < n) (hu : ∀ b ∈ used, n ∣ b) (ha : n ∣ a) :
    load n (accessed n m used) a = load n m a ||| (if a ∈ used then pgA else 0) := by
  induction used generalizing m with
  | nil => simp [accessed]
  | cons b used ih =>
    have hb : n ∣ b := hu b (List.mem_cons_self ..)
    have hstep : accessed n m (b :: used) = accessed n (orAt n m b pgA) used := rfl
    rw [hstep, ih (fun c hc => hu c (List.mem_cons_of_mem b hc)),
      load_orAt (flags_lt hn).1 ha hb, Nat.or_assoc]
    congr 1
    by_cases hab : a = b
    · subst hab
      by_cases hmem : a ∈ used <;> simp [hmem]
    · simp [hab]

theorem load_marked (hn : 0 < n) (hu : ∀ b ∈ w.used, n ∣ b) (hl : ∀ b ∈ w.leaf, n ∣ b)
    (ha : n ∣ a) :
    load n (marked n write m w) a =
      load n m a ||| (if a ∈ w.used then pgA else 0) |||
        (if write ∧ w.leaf = some a then pgM else 0) := by
  unfold marked
  cases hleaf : w.leaf with
  | none => simp [load_accessed hn hu ha]
  | some b =>
    have hb : n ∣ b := hl b hleaf
    cases write with
    | false => simp [load_accessed hn hu ha]
    | true =>
      simp only [if_true, load_orAt (flags_lt hn).2 ha hb, load_accessed hn hu ha, true_and,
        Option.some.injEq, eq_comm]

theorem flagEq_marked (hn : 0 < n) (hu : ∀ b ∈ w.used, n ∣ b) (hl : ∀ b ∈ w.leaf, n ∣ b) :
    FlagEq n m (marked n write m w) := by
  intro a ha i h5 h6
  have hA : (if a ∈ w.used then pgA else 0).testBit i = false := by
    split
    · rw [testBit_pgA, decide_eq_false h5.symm]
    · exact Nat.zero_testBit i
  have hM : (if write ∧ w.leaf = some a then pgM else 0).testBit i = false := by
    split
    · rw [testBit_pgM, decide_eq_false h6.symm]
    · exact Nat.zero_testBit i
  rw [load_marked hn hu hl ha, Nat.testBit_or, Nat.testBit_or, hA, hM, Bool.or_false,
    Bool.or_false]

theorem flagEq_accessed (hn : 0 < n) (hu : ∀ b ∈ used, n ∣ b) :
    FlagEq n m (accessed n m used) := by
  have h : FlagEq n m (marked n false m ⟨.outside, used, none, none⟩) :=
    flagEq_marked hn hu (by simp)
  exact h

theorem flagEq_orAt (hn : 0 < n) (ha : n ∣ a) : FlagEq n m (orAt n m a pgA) := by
  have h : FlagEq n m (accessed n m [a]) := flagEq_accessed hn (by simpa using ha)
  exact h

end Flags

/-! ## The architecture's walk does not read the flags -/

theorem bits_congr {hi lo e e' : Nat} (hlo : 7 ≤ lo) (h : EntryEq e e') :
    bits hi lo e' = bits hi lo e := by
  refine Nat.eq_of_testBit_eq fun i => ?_
  simp only [bits, Nat.testBit_mod_two_pow, Nat.testBit_div_two_pow]
  rw [h (i + lo) (by omega) (by omega)]

theorem faults_congr {user write : Bool} {e e' : Nat} (h : EntryEq e e') :
    faults user write e' = faults user write e := by
  simp only [faults, h 0 (by decide) (by decide), h 1 (by decide) (by decide),
    h 2 (by decide) (by decide)]

theorem mapped_congr {H : Hierarchy} {gla shift e e' : Nat} (hs : 7 ≤ shift)
    (h : EntryEq e e') : mapped H gla shift e' = mapped H gla shift e := by
  rw [mapped, mapped, bits_congr (by decide) h, bits_congr hs h]

section Congr
variable {H : Hierarchy} {segs : List MemSeg} {user write : Bool} {gla : Nat} {m m' : Mem}

theorem dvd_tableAddr (hH : H.entrySize ∣ 2 ^ 12) (x : Nat) : H.entrySize ∣ x * 2 ^ 12 :=
  hH.mul_left x

theorem dvd_entryAddr {base : Nat} (hb : H.entrySize ∣ base) (level : Nat) :
    H.entrySize ∣ entryAddr H gla level base := Nat.dvd_add hb (Nat.dvd_mul_right ..)

theorem le_pageShift_add (k : Nat) : 7 ≤ pageShift + k := by
  unfold pageShift
  omega

theorem walkFrom_congr (hH : H.entrySize ∣ 2 ^ 12) (h : FlagEq H.entrySize m m')
    (level base : Nat) (hb : H.entrySize ∣ base) :
    walkFrom H segs user write gla m' level base =
      walkFrom H segs user write gla m level base := by
  induction level generalizing base with
  | zero =>
    have he := h (entryAddr H gla 0 base) (dvd_entryAddr hb 0)
    unfold walkFrom
    simp only [faults_congr he, he 0 (by decide) (by decide),
      mapped_congr (le_pageShift_add _) he]
  | succ level ih =>
    have he := h (entryAddr H gla (level + 1) base) (dvd_entryAddr hb (level + 1))
    unfold walkFrom
    simp only [faults_congr he, he 0 (by decide) (by decide), he 7 (by decide) (by decide),
      mapped_congr (le_pageShift_add _) he,
      bits_congr (show 7 ≤ 12 by decide) he, ih _ (dvd_tableAddr hH _)]

/-- The entries a walk uses are aligned, and the leaf is one of them. -/
theorem walkFrom_aligned (hH : H.entrySize ∣ 2 ^ 12) (level base : Nat)
    (hb : H.entrySize ∣ base) :
    (∀ a ∈ (walkFrom H segs user write gla m level base).used, H.entrySize ∣ a) ∧
    ∀ a ∈ (walkFrom H segs user write gla m level base).leaf,
      a ∈ (walkFrom H segs user write gla m level base).used := by
  induction level generalizing base with
  | zero =>
    unfold walkFrom
    simp only
    split_ifs <;> simp [dvd_entryAddr hb]
  | succ level ih =>
    obtain ⟨hused, hleaf⟩ := ih _ (dvd_tableAddr hH (bits H.top 12 (load H.entrySize m
      (entryAddr H gla (level + 1) base))))
    unfold walkFrom
    simp only
    split_ifs
    · simp
    · simp
    · simp [dvd_entryAddr hb]
    · simp [dvd_entryAddr hb]
    · refine ⟨?_, fun a ha => List.mem_cons_of_mem _ (hleaf a ha)⟩
      rintro a (_ | ⟨_, ha⟩)
      · exact dvd_entryAddr hb _
      · exact hused a ha

end Congr

/-! ## The code's walk -/

/-- The arithmetic of a format is the hierarchy's, for tables up to `levels` above a page. -/
structure Agrees (F : Format) (H : Hierarchy) (levels : Nat) : Prop where
  entrySize : F.entrySize = H.entrySize
  indexBits : F.indexBits = H.indexBits
  pos : 0 < H.entrySize
  dvd : H.entrySize ∣ 2 ^ 12
  noPse36 : H.pse36 = false
  table : ∀ p < 256 ^ H.entrySize, F.table p = bits H.top 12 p * 2 ^ 12
  page : ∀ l ≤ levels, ∀ e < 256 ^ H.entrySize,
    F.page (pageShift + l * H.indexBits) e =
      bits H.top (pageShift + l * H.indexBits) e * 2 ^ (pageShift + l * H.indexBits)
  refused : ∀ l ≤ levels, F.refused (1 <<< (pageShift + l * H.indexBits)) =
    decide (H.largest < pageShift + l * H.indexBits)

theorem Agrees.dvd_table {F : Format} {H : Hierarchy} {levels p : Nat} (hA : Agrees F H levels)
    (hp : p < 256 ^ H.entrySize) : H.entrySize ∣ F.table p := by
  rw [hA.table p hp]
  exact dvd_tableAddr hA.dvd _

theorem shiftRight_shiftLeft_mod {e s k w : Nat} (hs : s + k ≤ w) :
    (((e >>> s) <<< (s + k)) % 2 ^ w) >>> k = e / 2 ^ s % 2 ^ (w - (s + k)) * 2 ^ s := by
  have hw : 2 ^ w = 2 ^ (w - (s + k)) * 2 ^ (s + k) := by rw [← pow_add, Nat.sub_add_cancel hs]
  rw [Nat.shiftRight_eq_div_pow, Nat.shiftLeft_eq, Nat.shiftRight_eq_div_pow, hw,
    Nat.mul_mod_mul_right, pow_add, ← Nat.mul_assoc, Nat.mul_div_cancel _ (by positivity)]

theorem agrees32 : Agrees format32 (hierarchy32 false) 1 where
  entrySize := rfl
  indexBits := rfl
  pos := by decide
  dvd := by decide
  noPse36 := rfl
  table := by
    intro p hp
    have hp32 : p < 2 ^ 32 := hp
    have hbits : p / 2 ^ 12 % 2 ^ 52 = p / 2 ^ 12 % 2 ^ 20 := by omega
    have h := and_mask_eq p 12 52
    rw [hbits] at h
    exact h
  page := by
    intro l hl e _
    have h := shiftRight_shiftLeft_mod (e := e) (s := pageShift + l * 10) (k := 0) (w := 32)
      (by unfold pageShift; omega)
    rw [Nat.shiftRight_zero, Nat.add_zero] at h
    exact h
  refused := by
    intro l hl
    interval_cases l <;> rfl

theorem agrees64 : Agrees format64 hierarchy64 3 where
  entrySize := rfl
  indexBits := rfl
  pos := by decide
  dvd := by decide
  noPse36 := rfl
  table := by
    intro p _
    exact shiftRight_shiftLeft_mod (e := p) (s := 12) (k := 12) (w := 64) (by decide)
  page := by
    intro l hl e _
    have h := shiftRight_shiftLeft_mod (e := e) (s := pageShift + l * 9) (k := 12) (w := 64)
      (by unfold pageShift; omega)
    have hexp : 64 - (pageShift + l * 9 + 12) = 51 + 1 - (pageShift + l * 9) := by
      unfold pageShift
      omega
    rw [hexp] at h
    exact h
  refused := by
    intro l hl
    interval_cases l <;> rfl

section Spec
variable {F : Format} {H : Hierarchy} {levels : Nat} {segs : List MemSeg} {user : Bool}
  {prot gla : Nat} {m : Mem}

/-- Whether the access writes. -/
def writes (prot : Nat) : Bool := prot &&& protWrite ≠ 0

theorem orAt_of_testBit {n a i : Nat} (hn : 0 < n) (ha : n ∣ a)
    (h : (load n m a).testBit i = true) : orAt n m a (2 ^ i) = m := by
  rw [orAt, or_two_pow_of_testBit h, store_load hn ha]

/-- Without a concurrent writer the accessed bit is always set at the first attempt. -/
theorem setAccessed_eq {n a : Nat} (hn : 0 < n) (ha : n ∣ a) :
    (if load n m a &&& pgA = 0 then cmpset n m a (load n m a) (load n m a ||| pgA)
      else some m) = some (orAt n m a pgA) := by
  split
  · rw [cmpset, if_pos rfl, orAt]
  · rename_i h
    rw [and_pgA, Bool.not_eq_false] at h
    exact congrArg some (orAt_of_testBit hn ha h).symm

/-- The dirty bit is set, or the walk starts over because it has just set the accessed bit
of the leaf itself. -/
theorem finish_spec (prot gla shift : Nat) (m : Mem) {a : Nat} (hn : 0 < F.entrySize)
    (ha : F.entrySize ∣ a) :
    finish F prot gla shift a (load F.entrySize m a) (orAt F.entrySize m a pgA) =
      .done (.ok (F.page shift (load F.entrySize m a) ||| (gla &&& (1 <<< shift - 1))))
        (if writes prot then orAt F.entrySize (orAt F.entrySize m a pgA) a pgM
          else orAt F.entrySize m a pgA) ∨
    finish F prot gla shift a (load F.entrySize m a) (orAt F.entrySize m a pgA) =
      .restart (orAt F.entrySize m a pgA) ∧ (load F.entrySize m a).testBit 5 = false := by
  have hload : load F.entrySize (orAt F.entrySize m a pgA) a = load F.entrySize m a ||| pgA := by
    rw [load_orAt (flags_lt hn).1 ha ha, if_pos rfl]
  unfold finish
  by_cases hw : prot &&& protWrite ≠ 0
  · by_cases hM : load F.entrySize m a &&& pgM = 0
    · by_cases hA : (load F.entrySize m a).testBit 5 = true
      · left
        have hkeep : load F.entrySize m a ||| pgA = load F.entrySize m a :=
          or_two_pow_of_testBit hA
        rw [hkeep] at hload
        have hdirty : orAt F.entrySize (orAt F.entrySize m a pgA) a pgM =
            store F.entrySize (orAt F.entrySize m a pgA) a (load F.entrySize m a ||| pgM) := by
          conv_lhs => rw [orAt, hload]
        simp [hw, hM, writes, cmpset, hload, hdirty]
      · right
        have hne : load F.entrySize m a ||| pgA ≠ load F.entrySize m a := by
          intro h
          have hbit := congrArg (·.testBit 5) h
          simp [Nat.testBit_or, testBit_pgA] at hbit
          exact hA hbit
        simp [hw, hM, cmpset, hload, hne, Bool.eq_false_iff.mpr hA]
    · left
      have hbit : (load F.entrySize (orAt F.entrySize m a pgA) a).testBit 6 = true := by
        rw [and_pgM, Bool.not_eq_false] at hM
        rw [hload, Nat.testBit_or, hM, Bool.true_or]
      have hsame : orAt F.entrySize (orAt F.entrySize m a pgA) a pgM =
          orAt F.entrySize m a pgA := orAt_of_testBit hn ha hbit
      simp [hM, writes, hsame]
  · left
    simp [hw, writes]

theorem index_eq (gla shift k : Nat) :
    (gla >>> shift) &&& (2 ^ k - 1) = gla / 2 ^ shift % 2 ^ k := by
  rw [Nat.and_two_pow_sub_one_eq_mod, Nat.shiftRight_eq_div_pow]

theorem page_eq_mapped (hA : Agrees F H levels) {l e : Nat} (hl : l ≤ levels)
    (he : e < 256 ^ H.entrySize) :
    F.page (pageShift + l * H.indexBits) e |||
        (gla &&& (1 <<< (pageShift + l * H.indexBits) - 1)) =
      mapped H gla (pageShift + l * H.indexBits) e := by
  have hlt := Nat.mod_lt gla (Nat.two_pow_pos (pageShift + l * H.indexBits))
  rw [hA.page l hl e he, Nat.one_shiftLeft, Nat.and_two_pow_sub_one_eq_mod, Nat.mul_comm,
    ← Nat.two_pow_add_eq_or_of_lt hlt, mapped]
  simp [hA.noPse36, Nat.mul_comm]

theorem refusedEntry_iff (e : Nat) :
    (e &&& pgV = 0 ∨ (user = true ∧ e &&& pgU = 0) ∨
      (prot &&& protWrite ≠ 0 ∧ e &&& pgRW = 0)) ↔ faults user (writes prot) e = true := by
  simp [and_pgV, and_pgU, and_pgRW, faults, writes, or_assoc]

theorem pfErrorCode_eq (user : Bool) (prot : Nat) (rsvd : Bool) (e : Nat) :
    pfErrorCode user prot rsvd (if e.testBit 0 then pgV else 0) =
      pfErrorCode user prot rsvd e := by
  have h : (if e.testBit 0 then pgV else 0) &&& pgV ≠ 0 ↔ e &&& pgV ≠ 0 := by
    rw [Ne, Ne, and_pgV, and_pgV]
    cases e.testBit 0 <;> decide
  simp only [pfErrorCode, h]

theorem vmGpa2hva_cases (segs : List MemSeg) (gpa len : Nat) :
    vmGpa2hva segs gpa len = none ∨ vmGpa2hva segs gpa len = some gpa := by
  unfold vmGpa2hva
  split
  · exact .inr rfl
  · exact .inl rfl

/-- One level of the code's walk, in the architecture's terms. -/
theorem walk_step (hA : Agrees F H levels) {l : Nat} (hl : l ≤ levels) {p : Nat}
    (hp : p < 256 ^ H.entrySize) (m : Mem) :
    walk F segs user prot gla l p m =
      let a := entryAddr H gla l (F.table p)
      let e := load H.entrySize m a
      let shift := pageShift + l * H.indexBits
      if vmGpa2hva segs (F.table p) pageSize = none then .done .efault m
      else if faults user (writes prot) e then .done (.pf (pfErrorCode user prot false e)) m
      else match l with
        | 0 => finish F prot gla shift a e (orAt H.entrySize m a pgA)
        | l + 1 =>
          if e.testBit 7 then
            if H.largest < shift then
              .done (.pf (pfErrorCode user prot true e)) (orAt H.entrySize m a pgA)
            else finish F prot gla shift a e (orAt H.entrySize m a pgA)
          else walk F segs user prot gla l e (orAt H.entrySize m a pgA) := by
  have haddr : F.table p + H.entrySize *
      ((gla >>> (pageShift + l * H.indexBits)) &&& (2 ^ H.indexBits - 1)) =
        entryAddr H gla l (F.table p) := by
    rw [index_eq, entryAddr]
  conv_lhs => unfold walk
  rcases vmGpa2hva_cases segs (F.table p) pageSize with hnone | hsome
  · simp [hnone]
  · simp only [hsome, hA.entrySize, hA.indexBits, haddr, refusedEntry_iff,
      setAccessed_eq hA.pos (dvd_entryAddr (hA.dvd_table hp) l), hA.refused l hl, reduceCtorEq,
      if_false]
    cases l with
    | zero => rfl
    | succ l =>
      simp only [Ne, and_pgPS, Bool.not_eq_false, decide_eq_true_eq]

theorem finish_mapped (hA : Agrees F H levels) {l a : Nat} (hl : l ≤ levels)
    (ha : H.entrySize ∣ a) (m : Mem) :
    let shift := pageShift + l * H.indexBits
    let e := load H.entrySize m a
    let m' := orAt H.entrySize m a pgA
    finish F prot gla shift a e m' =
      .done (.ok (mapped H gla shift e)) (if writes prot then orAt H.entrySize m' a pgM else m') ∨
    finish F prot gla shift a e m' = .restart m' ∧ e.testBit 5 = false := by
  intro shift e m'
  have h := finish_spec (F := F) prot gla shift m (hA.entrySize ▸ hA.pos) (hA.entrySize ▸ ha)
  rw [hA.entrySize, page_eq_mapped hA hl (load_lt ..)] at h
  exact h

/-- One walk of the code, from any memory: it finishes as the architecture's walk of that
memory does, or restarts because some accessed flag was still clear. -/
theorem walk_spec (segs : List MemSeg) (user : Bool) (prot gla : Nat) (hA : Agrees F H levels)
    (l : Nat) (hl : l ≤ levels) (p : Nat) (hp : p < 256 ^ H.entrySize) (m : Mem) :
    let w := walkFrom H segs user (writes prot) gla m l (F.table p)
    walk F segs user prot gla l p m =
      .done (result user prot w.outcome) (marked H.entrySize (writes prot) m w) ∨
    walk F segs user prot gla l p m = .restart (accessed H.entrySize m w.used) ∧
      ∃ a ∈ w.used, (load H.entrySize m a).testBit 5 = false := by
  induction l generalizing p m with
  | zero =>
    have ha : H.entrySize ∣ entryAddr H gla 0 (F.table p) :=
      dvd_entryAddr (hA.dvd_table hp) 0
    rw [walk_step hA hl hp]
    unfold walkFrom
    simp only
    split_ifs with hmap hfault
    · exact .inl rfl
    · exact .inl (by rw [result, pfErrorCode_eq]; rfl)
    · rcases finish_mapped hA hl ha m with h | ⟨h, hbit⟩
      · exact .inl h
      · exact .inr ⟨h, _, List.mem_singleton_self _, hbit⟩
  | succ l ih =>
    have ha : H.entrySize ∣ entryAddr H gla (l + 1) (F.table p) :=
      dvd_entryAddr (hA.dvd_table hp) (l + 1)
    have hnext := ih (Nat.le_of_succ_le hl)
      (load H.entrySize m (entryAddr H gla (l + 1) (F.table p))) (load_lt ..)
      (orAt H.entrySize m (entryAddr H gla (l + 1) (F.table p)) pgA)
    rw [walkFrom_congr hA.dvd (flagEq_orAt hA.pos ha) l _ (hA.dvd_table (load_lt ..)),
      hA.table _ (load_lt ..)] at hnext
    rw [walk_step hA hl hp]
    unfold walkFrom
    simp only
    split_ifs with hmap hfault hps hlarge
    · exact .inl rfl
    · exact .inl (by rw [result, pfErrorCode_eq]; rfl)
    · have hp0 : (load H.entrySize m (entryAddr H gla (l + 1) (F.table p))).testBit 0 = true := by
        by_contra h
        exact hfault (by simp [faults, h])
      have hcode := pfErrorCode_eq user prot true
        (load H.entrySize m (entryAddr H gla (l + 1) (F.table p)))
      rw [hp0] at hcode
      exact .inl (by rw [← hcode]; rfl)
    · rcases finish_mapped hA hl ha m with h | ⟨h, hbit⟩
      · exact .inl h
      · exact .inr ⟨h, _, List.mem_singleton_self _, hbit⟩
    · rcases hnext with h | ⟨h, b, hb, hbit⟩
      · exact .inl h
      · have hb8 : H.entrySize ∣ b :=
          (walkFrom_aligned hA.dvd l _ (dvd_tableAddr hA.dvd _)).1 b hb
        rw [load_orAt (flags_lt hA.pos).1 hb8 ha, Nat.testBit_or, Bool.or_eq_false_iff] at hbit
        exact .inr ⟨h, b, List.mem_cons_of_mem _ hb, hbit.1⟩

end Spec

/-! ## A whole call -/

def entrySize : PagingMode → Nat
  | .bits32 => 4
  | .flat | .pae | .bits64 => 8

section Call
variable {segs : List MemSeg} {paging : GuestPaging} {gla prot : Nat} {user write : Bool}
  {m m' : Mem}

theorem entrySize_pos (mode : PagingMode) : 0 < entrySize mode := by
  cases mode <;> decide

theorem vieCanonicalCheck_eq (cpuMode : CpuMode) (hgla : gla < 2 ^ 64) :
    vieCanonicalCheck cpuMode gla = true ↔ cpuMode = .mode64 ∧ ¬ canonical gla := by
  have hmask : gla &&& 0xffff000000000000 = gla / 2 ^ 48 % 2 ^ 16 * 2 ^ 48 := and_mask_eq gla 48 16
  have hbit : gla &&& (1 <<< 47) = 0 ↔ gla / 2 ^ 47 % 2 = 0 := by
    have h := and_two_pow_eq_zero gla 47
    rw [Nat.testBit_eq_decide_div_mod_eq] at h
    rw [show (1 <<< 47 : Nat) = 2 ^ 47 by decide, h, decide_eq_false_iff_not]
    omega
  unfold vieCanonicalCheck
  by_cases hmode : cpuMode = .mode64
  · simp only [hmode, ne_eq, not_true_eq_false, if_false, true_and, hmask, hbit, canonical,
      decide_eq_true_eq]
    split
    · simp only [decide_eq_true_eq]
      omega
    · simp only [decide_eq_true_eq]
      omega
  · simp [hmode]

theorem translate_congr (h : FlagEq (entrySize paging.pagingMode) m m') :
    translate false segs paging gla user write m' =
      translate false segs paging gla user write m := by
  unfold Sdm.translate
  cases hmode : paging.pagingMode with
  | flat => rfl
  | bits32 =>
    rw [hmode] at h
    simp only [walkFrom_congr agrees32.dvd h 1 _ (dvd_tableAddr agrees32.dvd _)]
  | pae =>
    rw [hmode] at h
    have he := h (bits 31 5 paging.cr3.toNat * 2 ^ 5 + 8 * (gla / 2 ^ 30 % 4)) (by
      change 8 ∣ _
      omega)
    have h0 := he 0 (by decide) (by decide)
    have hbits : bits 51 12 _ = bits 51 12 _ := bits_congr (by decide) he
    simp only [entrySize] at h0 hbits
    simp only [h0, hbits, walkFrom_congr agrees64.dvd h 1 _ (dvd_tableAddr agrees64.dvd _)]
  | bits64 =>
    rw [hmode] at h
    simp only [walkFrom_congr agrees64.dvd h 3 _ (dvd_tableAddr agrees64.dvd _)]

theorem translate_aligned (w : Walk) (hw : w = translate false segs paging gla user write m) :
    (∀ a ∈ w.used, entrySize paging.pagingMode ∣ a) ∧ ∀ a ∈ w.leaf, a ∈ w.used := by
  subst hw
  unfold Sdm.translate
  cases hmode : paging.pagingMode with
  | flat => simp only; split <;> simp
  | bits32 =>
    simp only
    split
    · simp
    · exact walkFrom_aligned agrees32.dvd 1 _ (dvd_tableAddr agrees32.dvd _)
  | pae =>
    simp only
    split_ifs
    · simp
    · simp
    · exact walkFrom_aligned agrees64.dvd 1 _ (dvd_tableAddr agrees64.dvd _)
    · simp
  | bits64 =>
    simp only
    split
    · simp
    · exact walkFrom_aligned agrees64.dvd 3 _ (dvd_tableAddr agrees64.dvd _)

/-- One pass of `vm_gla2gpa`, from any memory. -/
theorem pass_spec (hcr3 : paging.pagingMode = .bits32 → paging.cr3.toNat < 2 ^ 32)
    (hgla : gla < 2 ^ 64) (w : Walk)
    (hw : w = translate false segs paging gla (paging.cpl = 3) (writes prot) m) :
    pass segs paging gla prot m = .done (result (paging.cpl = 3) prot w.outcome)
      (marked (entrySize paging.pagingMode) (writes prot) m w) ∨
    pass segs paging gla prot m = .restart (accessed (entrySize paging.pagingMode) m w.used) ∧
      ∃ a ∈ w.used, (load (entrySize paging.pagingMode) m a).testBit 5 = false := by
  subst hw
  unfold pass Sdm.translate
  simp only [vieCanonicalCheck_eq _ hgla]
  split
  · exact .inl rfl
  cases hmode : paging.pagingMode with
  | flat => exact .inl rfl
  | bits32 =>
    have h := walk_spec segs (paging.cpl = 3) prot gla agrees32 1 le_rfl paging.cr3.toNat
      (hcr3 hmode) m
    rw [agrees32.table _ (hcr3 hmode)] at h
    exact h
  | pae =>
    have hroot : paging.cr3.toNat &&& 0xffffffe0 = bits 31 5 paging.cr3.toNat * 2 ^ 5 :=
      and_mask_eq paging.cr3.toNat 5 27
    have hindex : (gla >>> 30) &&& 0x3 = gla / 2 ^ 30 % 4 := index_eq gla 30 2
    simp only [hroot, hindex, Nat.reduceMul, and_pgV]
    generalize bits 31 5 paging.cr3.toNat * 2 ^ 5 = base
    rcases vmGpa2hva_cases segs base 32 with hnone | hsome
    · simp only [hnone, if_true]
      exact .inl rfl
    · simp only [hsome, reduceCtorEq, if_false]
      have he := load_lt 8 m (base + 8 * (gla / 2 ^ 30 % 4))
      have h := walk_spec segs (paging.cpl = 3) prot gla agrees64 1 (by decide) _ he m
      rw [agrees64.table _ he] at h
      have hcode := pfErrorCode_eq (paging.cpl = 3) prot false
        (load 8 m (base + 8 * (gla / 2 ^ 30 % 4)))
      cases hbit : (load 8 m (base + 8 * (gla / 2 ^ 30 % 4))).testBit 0 with
      | true =>
        simp only [Bool.true_eq_false, if_false, if_true]
        exact h
      | false =>
        rw [hbit] at hcode
        simp only [if_true, ← hcode]
        exact .inl rfl
  | bits64 =>
    have hcr64 : paging.cr3.toNat < 256 ^ hierarchy64.entrySize := paging.cr3.isLt
    have h := walk_spec segs (paging.cpl = 3) prot gla agrees64 3 le_rfl paging.cr3.toNat hcr64 m
    rw [agrees64.table _ hcr64] at h
    exact h

/-- A pass that finds every accessed flag set does not restart. -/
theorem pass_of_accessed (hcr3 : paging.pagingMode = .bits32 → paging.cr3.toNat < 2 ^ 32)
    (hgla : gla < 2 ^ 64) (w : Walk)
    (hw : w = translate false segs paging gla (paging.cpl = 3) (writes prot) m)
    (hacc : ∀ a ∈ w.used, (load (entrySize paging.pagingMode) m a).testBit 5 = true) :
    pass segs paging gla prot m = .done (result (paging.cpl = 3) prot w.outcome)
      (marked (entrySize paging.pagingMode) (writes prot) m w) := by
  rcases pass_spec hcr3 hgla w hw with h | ⟨-, a, ha, hbit⟩
  · exact h
  · rw [hacc a ha] at hbit
    contradiction

theorem testBit_marked {n : Nat} {w : Walk} {a : Nat} (hn : 0 < n) (hu : ∀ b ∈ w.used, n ∣ b)
    (hl : ∀ b ∈ w.leaf, b ∈ w.used) (ha : a ∈ w.used) :
    (load n (marked n write m w) a).testBit 5 = true := by
  rw [load_marked hn hu (fun b hb => hu b (hl b hb)) (hu a ha), if_pos ha, Nat.testBit_or,
    Nat.testBit_or, testBit_pgA]
  simp

/-- Marking memory again changes nothing more. -/
theorem marked_marked {n : Nat} {w : Walk} {write' : Bool} (hn : 0 < n)
    (hu : ∀ b ∈ w.used, n ∣ b) (hl : ∀ b ∈ w.leaf, b ∈ w.used) (hw : write' → write) :
    marked n write (marked n write' m w) w = marked n write m w := by
  have hl' : ∀ b ∈ w.leaf, n ∣ b := fun b hb => hu b (hl b hb)
  refine ext_load hn fun a ha => ?_
  rw [load_marked hn hu hl' ha, load_marked hn hu hl' ha, load_marked hn hu hl' ha]
  refine Nat.eq_of_testBit_eq fun i => ?_
  have habsorb : (if write' ∧ w.leaf = some a then pgM else 0).testBit i = true →
      (if write ∧ w.leaf = some a then pgM else 0).testBit i = true := by
    by_cases h : write' = true ∧ w.leaf = some a
    · rw [if_pos h, if_pos ⟨hw h.1, h.2⟩]
      exact id
    · simp [h]
  simp only [Nat.testBit_or]
  grind

theorem vmGla2gpa_of_done {r : Result} {g : BitVec 64}
    (h : pass segs paging g.toNat prot m = .done r m') (fuel : Nat) (hf : 1 ≤ fuel) :
    vmGla2gpa segs paging g prot fuel m = some (r, m') := by
  obtain ⟨f, rfl⟩ := Nat.exists_eq_add_of_le' hf
  rw [vmGla2gpa, h]

/-- The walk is the same from any memory with these flags set, and finds them all set. -/
theorem pass_marked {g : BitVec 64} (hcr3 : paging.pagingMode = .bits32 → paging.cr3.toNat < 2 ^ 32)
    {write' : Bool} (hw : write' = true → writes prot = true) :
    let w := translate false segs paging g.toNat (paging.cpl = 3) (writes prot) m
    pass segs paging g.toNat prot (marked (entrySize paging.pagingMode) write' m w) =
      .done (result (paging.cpl = 3) prot w.outcome)
        (marked (entrySize paging.pagingMode) (writes prot) m w) := by
  intro w
  have hn := entrySize_pos paging.pagingMode
  obtain ⟨hu, hl⟩ := translate_aligned w rfl
  have hl' : ∀ b ∈ w.leaf, entrySize paging.pagingMode ∣ b := fun b hb => hu b (hl b hb)
  rw [pass_of_accessed hcr3 g.isLt w (translate_congr (flagEq_marked hn hu hl')).symm
    (fun a ha => testBit_marked hn hu hl ha)]
  exact congrArg (Pass.done _) (marked_marked hn hu hl hw)

/-- Two passes are enough. -/
theorem vmGla2gpa_marked {g : BitVec 64}
    (hcr3 : paging.pagingMode = .bits32 → paging.cr3.toNat < 2 ^ 32) {fuel : Nat} (hf : 2 ≤ fuel) :
    let w := translate false segs paging g.toNat (paging.cpl = 3) (writes prot) m
    vmGla2gpa segs paging g prot fuel m = some (result (paging.cpl = 3) prot w.outcome,
      marked (entrySize paging.pagingMode) (writes prot) m w) := by
  intro w
  rcases pass_spec hcr3 g.isLt w rfl with hdone | ⟨hrestart, -⟩
  · exact vmGla2gpa_of_done hdone fuel (by omega)
  · have hfirst : accessed (entrySize paging.pagingMode) m w.used =
        marked (entrySize paging.pagingMode) false m w := by
      unfold marked
      split <;> rfl
    obtain ⟨f, rfl⟩ := Nat.exists_eq_add_of_le' hf
    rw [vmGla2gpa, hrestart, hfirst]
    exact vmGla2gpa_of_done (pass_marked hcr3 (by simp)) (f + 1) (by omega)

end Call

end Xhyve.Vmm.PageWalk
