import Xhyve.Vmm.TaskSwitchAtomic

/-!
# Buffers in guest memory

Where the buffers of a task switch are, and what reading and writing them changes. A region that holds
the page tables is one that translation depends on and that takes all flags; bytes outside of it change
only where a buffer is written.
-/

namespace Xhyve.Vmm.TaskSwitch

open Xhyve.Lib Xhyve.Lib.Mem Xhyve.Lib.Fallible
open Xhyve.Vmm.PageWalk
open Xhyve.Vmm.PageWalk.Sdm (translate walkFrom faults hierarchy32 hierarchy64)

/-! ## Page tables -/

/-- On the region, only the accessed and the dirty flag of entries of `n` bytes have changed. -/
def SameBitsOn (n : Nat) (region : Set Nat) (m m' : Mem) : Prop :=
  ∀ a ∈ region, ∀ i, (n ∣ a → i ≠ 5 ∧ i ≠ 6) → (m' a).toNat.testBit i = (m a).toNat.testBit i

/-- The region holds the page tables: as long as nothing but flags changes in it, translation stays the
same, and the entries that are marked lie in it. -/
structure Tables (segs : List MemSeg) (pg : GuestPaging) (m : Mem) (region : Set Nat) : Prop where
  same : ∀ m', SameBitsOn (entrySize pg.pagingMode) region m m' → ∀ gla user write,
    translate false segs pg gla user write m' = translate false segs pg gla user write m
  inside : ∀ gla user write, ∀ e ∈ (translate false segs pg gla user write m).used,
    ∀ i < entrySize pg.pagingMode, e + i ∈ region

/-- Walks under one CR3, one after the other. -/
inductive Walks (segs : List MemSeg) (pg : GuestPaging) (m : Mem) : Mem → Prop
  | refl : Walks segs pg m m
  | walk {m' : Mem} (gla : Nat) (user write : Bool) : Walks segs pg m m' →
      Walks segs pg m (marked (entrySize pg.pagingMode) write m'
        (translate false segs pg gla user write m'))

section Walks
variable {segs : List MemSeg} {pg : GuestPaging} {m m' m'' : Mem} {n : Nat} {region : Set Nat}

theorem SameBitsOn.symm (h : SameBitsOn n region m m') : SameBitsOn n region m' m :=
  fun a ha i hi => (h a ha i hi).symm

theorem SameBitsOn.trans (h : SameBitsOn n region m m') (h' : SameBitsOn n region m' m'') :
    SameBitsOn n region m m'' :=
  fun a ha i hi => (h' a ha i hi).trans (h a ha i hi)

theorem Walks.trans (h : Walks segs pg m m') (h' : Walks segs pg m' m'') : Walks segs pg m m'' := by
  induction h' with
  | refl => exact h
  | walk gla user write _ ih => exact ih.walk gla user write

theorem Walks.flagEq (h : Walks segs pg m m') : FlagEq (entrySize pg.pagingMode) m m' := by
  induction h with
  | refl => exact fun _ _ _ _ _ => rfl
  | walk gla user write _ ih =>
    obtain ⟨hu, hl⟩ := translate_aligned _ rfl
    have hn := entrySize_pos pg.pagingMode
    intro a ha i h5 h6
    rw [flagEq_marked hn hu (fun b hb => hu b (hl b hb)) a ha i h5 h6, ih a ha i h5 h6]

theorem Walks.sameBits (h : Walks segs pg m m') : SameBits m m' :=
  sameBits_of_flagEq (entrySize_pos pg.pagingMode) h.flagEq

/-- Only the first byte of an entry has the flags. -/
theorem Walks.sameBitsOn (h : Walks segs pg m m') (region : Set Nat) :
    SameBitsOn (entrySize pg.pagingMode) region m m' := by
  intro a _ i hi
  have hn := entrySize_pos pg.pagingMode
  rw [testBit_byte hn, testBit_byte hn]
  by_cases h8 : i < 8
  · have hbit : 8 * (a % entrySize pg.pagingMode) + i ≠ 5 ∧ 8 * (a % entrySize pg.pagingMode) + i ≠ 6 := by
      by_cases hdvd : entrySize pg.pagingMode ∣ a
      · rw [Nat.mod_eq_zero_of_dvd hdvd, Nat.mul_zero, Nat.zero_add]
        exact hi hdvd
      · have hpos : a % entrySize pg.pagingMode ≠ 0 := fun h0 => hdvd (Nat.dvd_of_mod_eq_zero h0)
        omega
    rw [h.flagEq _ (Nat.dvd_mul_right ..) _ hbit.1 hbit.2]
  · simp [h8]

theorem orAt_outside {e bits a : Nat} (h : ∀ i < n, e + i ≠ a) : orAt n m e bits a = m a := by
  rw [orAt, store, if_neg]
  rintro ⟨hlo, hhi⟩
  exact h (a - e) (by omega) (by omega)

theorem accessed_outside {a : Nat} {used : List Nat} (h : ∀ e ∈ used, ∀ i < n, e + i ≠ a) (m : Mem) :
    accessed n m used a = m a := by
  induction used generalizing m with
  | nil => rfl
  | cons e used ih =>
    have hrest := ih (fun e' he' => h e' (List.mem_cons_of_mem e he')) (orAt n m e pgA)
    rw [orAt_outside (h e List.mem_cons_self)] at hrest
    exact hrest

theorem marked_outside {a : Nat} {w : Sdm.Walk} (hl : ∀ e ∈ w.leaf, e ∈ w.used)
    (h : ∀ e ∈ w.used, ∀ i < n, e + i ≠ a) (write : Bool) : marked n write m w a = m a := by
  have hacc := accessed_outside h m
  unfold marked
  cases hleaf : w.leaf with
  | none => exact hacc
  | some e =>
    have he : e ∈ w.used := hl e hleaf
    cases write with
    | false => exact hacc
    | true =>
      simp only [if_true]
      rw [orAt_outside (h e he), hacc]

theorem Tables.of_sameBitsOn (ht : Tables segs pg m region)
    (h : SameBitsOn (entrySize pg.pagingMode) region m m') : Tables segs pg m' region where
  same m'' h' gla user write :=
    (ht.same m'' (h.trans h') gla user write).trans (ht.same m' h gla user write).symm
  inside gla user write := by
    rw [ht.same m' h]
    exact ht.inside gla user write

/-- Walks leave the bytes outside the tables alone. -/
theorem Tables.walks (ht : Tables segs pg m region) (h : Walks segs pg m m') {a : Nat}
    (ha : a ∉ region) : m' a = m a := by
  induction h with
  | refl => rfl
  | walk gla user write h ih =>
    have ht' := ht.of_sameBitsOn (h.sameBitsOn region)
    rw [marked_outside (translate_aligned _ rfl).2 ?_ write, ih]
    intro e he i hi heq
    exact ha (heq ▸ ht'.inside gla user write e he i hi)

end Walks

section Directory
variable {segs : List MemSeg} {pg : GuestPaging} {m m' : Mem} {user write : Bool} {gla base : Nat}

theorem SameBitsOn.entryEq {n a : Nat} {region : Set Nat} (hn : 0 < n) (h : SameBitsOn n region m m')
    (ha : n ∣ a) (hin : ∀ i < n, a + i ∈ region) : EntryEq (load n m a) (load n m' a) := by
  intro i h5 h6
  by_cases hi : i / 8 < n
  · have hword : n * ((a + i / 8) / n) = a := by
      rw [Nat.add_div_of_dvd_right ha, Nat.div_eq_of_lt hi, Nat.add_zero, Nat.mul_div_cancel' ha]
    have hbyte : (a + i / 8) % n = i / 8 := by
      rw [Nat.add_mod, Nat.mod_eq_zero_of_dvd ha, Nat.zero_add, Nat.mod_mod, Nat.mod_eq_of_lt hi]
    have hbit := h (a + i / 8) (hin _ hi) (i % 8) (fun hdvd => ?_)
    · rw [testBit_byte hn, testBit_byte hn, hword, hbyte, Nat.div_add_mod] at hbit
      simpa [Nat.mod_lt] using hbit
    · have h0 := Nat.mod_eq_zero_of_dvd hdvd
      omega
  · have hlarge : ∀ m : Mem, (load n m a).testBit i = false := by
      intro m
      refine Nat.testBit_lt_two_pow (lt_of_lt_of_le (load_lt n m a) ?_)
      rw [show 256 = 2 ^ 8 by decide, ← Nat.pow_mul]
      exact Nat.pow_le_pow_right (by decide) (by omega)
    rw [hlarge, hlarge]

theorem tables_flat (hmode : pg.pagingMode = .flat) (hcpu : pg.cpuMode = .protectedMode) :
    Tables segs pg m ∅ := by
  refine ⟨fun m' _ gla user write => ?_, fun gla user write e he => ?_⟩
  · simp only [Sdm.translate, hmode]
  · simp only [Sdm.translate, hmode, hcpu, reduceCtorEq, false_and, if_false] at he
    cases he

/-- The address of the entry of a page directory for a linear address. -/
def pdeAddr (base gla : Nat) : Nat := base + 4 * (gla / 2 ^ 22 % 1024)

/-- A large page, or none. -/
def largePde (e : Nat) : Bool := !e.testBit 0 || e.testBit 7

theorem walkFrom_large (h : largePde (load 4 m (pdeAddr base gla)) = true) :
    walkFrom (hierarchy32 false) segs user write gla m 1 base =
      if vmGpa2hva segs base pageSize = none then ⟨.outside, [], none, none⟩
      else if faults user write (load 4 m (pdeAddr base gla)) then
        ⟨.pageFault ((load 4 m (pdeAddr base gla)).testBit 0) false, [], none, none⟩
      else ⟨.page (Sdm.mapped (hierarchy32 false) gla 22 (load 4 m (pdeAddr base gla))),
        [pdeAddr base gla], some (pdeAddr base gla), none⟩ := by
  have haddr : Sdm.entryAddr (hierarchy32 false) gla 1 base = pdeAddr base gla := rfl
  have hsize : (hierarchy32 false).entrySize = 4 := rfl
  unfold walkFrom
  simp only [haddr, hsize]
  generalize load 4 m (pdeAddr base gla) = e at h
  by_cases hbase : vmGpa2hva segs base pageSize = none
  · rw [if_pos hbase, if_pos hbase]
  by_cases hfault : faults user write e = true
  · rw [if_neg hbase, if_neg hbase, if_pos hfault, if_pos hfault]
  have hlarge : e.testBit 7 = true := by
    cases h0 : e.testBit 0 with
    | false => exact absurd (by simp [faults, h0]) hfault
    | true => simpa [largePde, h0] using h
  rw [if_neg hbase, if_neg hbase, if_neg hfault, if_neg hfault, if_pos hlarge]
  rfl

theorem pdeAddr_mem (base gla : Nat) :
    ∀ i < 4, pdeAddr base gla + i ∈ {a | base ≤ a ∧ a < base + 4096} := by
  intro i hi
  simp only [pdeAddr, Set.mem_ofPred_eq]
  omega

theorem largePde_congr {e e' : Nat} (h : EntryEq e e') : largePde e' = largePde e := by
  simp only [largePde, h 0 (by decide) (by decide), h 7 (by decide) (by decide)]

/-- A page directory without page tables. -/
theorem tables_directory (hcpu : pg.cpuMode = .protectedMode) (hmode : pg.pagingMode = .bits32)
    (hbase : base = Sdm.bits 31 12 pg.cr3.toNat * 2 ^ 12)
    (h : ∀ i < 1024, largePde (load 4 m (base + 4 * i)) = true) :
    Tables segs pg m {a | base ≤ a ∧ a < base + 4096} := by
  have hwalk : ∀ m gla user write, translate false segs pg gla user write m =
      walkFrom (hierarchy32 false) segs user write gla m 1 base := by
    intro m gla user write
    simp only [Sdm.translate, hmode, hcpu, hbase, reduceCtorEq, false_and, if_false]
  have hlarge : ∀ gla, largePde (load 4 m (pdeAddr base gla)) = true :=
    fun gla => h _ (Nat.mod_lt _ (by decide))
  have hsize : entrySize pg.pagingMode = 4 := by rw [hmode]; rfl
  refine ⟨fun m' hm' gla user write => ?_, fun gla user write e he => ?_⟩
  · rw [hsize] at hm'
    have hdvd : 4 ∣ pdeAddr base gla := by
      rw [pdeAddr, hbase]
      omega
    have he := hm'.entryEq (by decide) hdvd (pdeAddr_mem base gla)
    have hlarge' := (largePde_congr he).trans (hlarge gla)
    rw [hwalk, hwalk, walkFrom_large (hlarge gla), walkFrom_large hlarge', faults_congr he,
      mapped_congr (by decide) he, he 0 (by decide) (by decide)]
  · rw [hwalk, walkFrom_large (hlarge gla)] at he
    rw [hsize]
    have hpde : e = pdeAddr base gla := by
      split_ifs at he
      · cases he
      · cases he
      · exact List.mem_singleton.1 he
    rw [hpde]
    exact pdeAddr_mem base gla
end Directory

/-! ## Where buffers are -/

/-- The pieces of a buffer at a linear address, as the tables place them. -/
def window (vm : Vm) (pg : GuestPaging) (write : Bool) (m : Mem) : Nat → Nat → Nat → Option Iov
  | _, _, 0 => some []
  | 0, _, _ + 1 => none
  | iovcnt + 1, gla, len + 1 =>
    match (translate false vm.segs pg (gla % 2 ^ 64) (pg.cpl = 3) write m).outcome with
    | .page gpa =>
      let n := min (len + 1) (4096 - gpa % 4096)
      (mapGpa vm gpa n).bind fun va =>
        (window vm pg write m iovcnt (gla + n) (len + 1 - n)).map fun rest => (va, n) :: rest
    | _ => none

section Window
variable {vm : Vm} {pg : GuestPaging} {write : Bool} {m m' : Mem} {iovcnt gla len : Nat} {iov : Iov}

theorem window_congr (h : ∀ gla user write, translate false vm.segs pg gla user write m' =
    translate false vm.segs pg gla user write m) :
    window vm pg write m' iovcnt gla len = window vm pg write m iovcnt gla len := by
  induction iovcnt generalizing gla len with
  | zero => cases len <;> rfl
  | succ iovcnt ih =>
    cases len with
    | zero => rfl
    | succ len => simp only [window, h, ih]

theorem faults_read {user : Bool} {e : Nat} (h : faults user true e = false) :
    faults user false e = false := by
  simp only [faults, Bool.or_eq_false_iff, Bool.and_eq_false_iff] at h ⊢
  exact ⟨h.1, Or.inl trivial⟩

/-- What can be written can be read at the same place. -/
theorem walkFrom_read {H : Sdm.Hierarchy} {segs : List MemSeg} {user : Bool} {gla gpa level base : Nat}
    (h : (walkFrom H segs user true gla m level base).outcome = .page gpa) :
    (walkFrom H segs user false gla m level base).outcome = .page gpa := by
  induction level generalizing base with
  | zero =>
    unfold walkFrom at h ⊢
    simp only at h ⊢
    split_ifs at h with hbase hfault
    rw [if_neg hbase, if_neg (by rw [faults_read (Bool.eq_false_iff.2 hfault)]; decide)]
    exact h
  | succ level ih =>
    unfold walkFrom at h ⊢
    simp only at h ⊢
    split_ifs at h with hbase hfault hps hlarge
    · rw [if_neg hbase, if_neg (by rw [faults_read (Bool.eq_false_iff.2 hfault)]; decide), if_pos hps,
        if_neg hlarge]
      exact h
    · rw [if_neg hbase, if_neg (by rw [faults_read (Bool.eq_false_iff.2 hfault)]; decide), if_neg hps]
      exact ih h

theorem translate_read {segs : List MemSeg} {user : Bool} {gpa : Nat}
    (h : (translate false segs pg gla user true m).outcome = .page gpa) :
    (translate false segs pg gla user false m).outcome = .page gpa := by
  unfold Sdm.translate at h ⊢
  simp only at h ⊢
  by_cases hcanon : pg.cpuMode = .mode64 ∧ ¬ Sdm.canonical gla
  · rw [if_pos hcanon] at h
    cases h
  rw [if_neg hcanon] at h ⊢
  cases hmode : pg.pagingMode with
  | flat =>
    rw [hmode] at h
    exact h
  | bits32 =>
    rw [hmode] at h
    exact walkFrom_read h
  | pae =>
    rw [hmode] at h
    simp only at h ⊢
    by_cases hbase : vmGpa2hva segs (Sdm.bits 31 5 pg.cr3.toNat * 2 ^ 5) 32 = none
    · rw [if_pos hbase] at h
      cases h
    rw [if_neg hbase] at h ⊢
    split_ifs at h ⊢
    exact walkFrom_read h
  | bits64 =>
    rw [hmode] at h
    exact walkFrom_read h

theorem window_read (h : window vm pg true m iovcnt gla len = some iov) :
    window vm pg false m iovcnt gla len = some iov := by
  induction iovcnt generalizing gla len iov with
  | zero =>
    cases len with
    | zero => exact h
    | succ len => cases h
  | succ iovcnt ih =>
    cases len with
    | zero => exact h
    | succ len =>
      simp only [window] at h ⊢
      split at h
      · rename_i gpa hgpa
        rw [translate_read hgpa]
        obtain ⟨va, hva, hmap⟩ := Option.bind_eq_some_iff.1 h
        obtain ⟨rest, hrest, rfl⟩ := Option.map_eq_some_iff.1 hmap
        simp only [hva, ih hrest, Option.bind_some, Option.map_some]
      · cases h

theorem mapGpa_eq {gpa n va : Nat} (h : mapGpa vm gpa n = some va) : va = gpa := by
  unfold mapGpa at h
  split_ifs at h
  · exact (Option.some.inj h).symm
  · exact (Option.some.inj h).symm

end Window

/-! ## Setting up a buffer -/

/-- Only page tables have been walked. -/
def Walked (vm : Vm) (pg : GuestPaging) (g t : Guest) : Prop :=
  ∃ m, t = { g with mem := m } ∧ Walks vm.segs pg g.mem m

section Setup
variable {vm : Vm} {pg : GuestPaging} {gla prot iovcnt len sel : Nat} {g t u : Guest}

theorem Walked.refl (vm : Vm) (pg : GuestPaging) (g : Guest) : Walked vm pg g g := ⟨g.mem, rfl, .refl⟩

theorem Walked.trans (h : Walked vm pg g t) (h' : Walked vm pg t u) : Walked vm pg g u := by
  obtain ⟨m, rfl, hm⟩ := h
  obtain ⟨m', rfl, hm'⟩ := h'
  exact ⟨m', rfl, hm.trans hm'⟩

theorem Walks.translate {segs : List MemSeg} {m m' : Mem} (h : Walks segs pg m m') (gla : Nat)
    (user write : Bool) : Sdm.translate false segs pg gla user write m' =
      Sdm.translate false segs pg gla user write m :=
  translate_congr h.flagEq

theorem after_inject {α : Type} {Q : α → Guest → Prop} (e : PendingException) (r : Ret) :
    After (do injectFault e; throw r : TaskM α) Q g :=
  After.bind (Q := fun _ _ => True) (fun _ _ _ => trivial) fun _ _ _ => After.throw

theorem gla2gpa_after (hpg : PagingOk pg) : After (gla2gpa vm pg gla prot)
    (fun gpa t => (translate false vm.segs pg (gla % 2 ^ 64) (pg.cpl = 3) (writes prot) g.mem).outcome =
      .page gpa ∧ Walked vm pg g t) g := by
  refine After.bind_get ?_
  rw [vmGla2gpa_marked hpg (Nat.le_refl 2)]
  simp only [BitVec.toNat_ofNat]
  generalize hw : translate false vm.segs pg (gla % 2 ^ 64) (pg.cpl = 3) (writes prot) g.mem = w
  have hwalked : ∀ m, m = marked (entrySize pg.pagingMode) (writes prot) g.mem w →
      Walked vm pg g { g with mem := m } := by
    rintro m rfl
    rw [← hw]
    exact ⟨_, rfl, Walks.refl.walk _ _ _⟩
  refine After.bind (Q := fun _ t => Walked vm pg g t) (After.modify (hwalked _ rfl)) fun _ t ht => ?_
  cases w.outcome with
  | page gpa => exact After.pure ⟨rfl, ht⟩
  | pageFault p rsvd => exact after_inject _ _
  | generalProtection => exact after_inject _ _
  | outside => exact After.throw

/-- The buffer is where the tables place it. -/
theorem copySetup_after (hpg : PagingOk pg) : After (copySetup vm pg prot iovcnt gla len)
    (fun iov t => window vm pg (writes prot) g.mem iovcnt gla len = some iov ∧ Walked vm pg g t) g := by
  induction iovcnt generalizing gla len g with
  | zero =>
    cases len with
    | zero => exact After.pure ⟨rfl, .refl vm pg g⟩
    | succ len => exact After.throw
  | succ iovcnt ih =>
    cases len with
    | zero => exact After.pure ⟨rfl, .refl vm pg g⟩
    | succ len =>
      rw [copySetup]
      refine After.bind (gla2gpa_after hpg) fun gpa t ht => ?_
      obtain ⟨hgpa, hwalked⟩ := ht
      simp only [window, hgpa]
      cases hmap : mapGpa vm gpa (min (len + 1) (4096 - gpa % 4096)) with
      | none => exact After.throw
      | some va =>
        refine After.bind ih fun rest u hu => After.pure ?_
        obtain ⟨hrest, hwalked'⟩ := hu
        obtain ⟨m, rfl, hm⟩ := hwalked
        rw [window_congr hm.translate] at hrest
        refine ⟨?_, Walked.trans ⟨m, rfl, hm⟩ hwalked'⟩
        rw [Option.bind_some, hrest, Option.map_some]

theorem descTable_gdt (hsel : GdtSel sel) (g : Guest) : descTable g sel = g.gdtr := by
  rw [descTable, if_neg fun h => hsel (Or.inl h)]

theorem descTableSetup_after (hpg : PagingOk pg) (hsel : GdtSel sel) :
    After (descTableSetup vm pg sel prot)
      (fun iov t => window vm pg (writes prot) g.mem 2 (g.gdtr.base + selStart sel) 8 = some iov ∧
        Walked vm pg g t) g := by
  refine After.bind_get (After.check_bind (fun _ => After.throw) fun _ => ?_)
  rw [descTable_gdt hsel]
  exact copySetup_after hpg

end Setup

/-! ## Reading and writing a buffer -/

def iovLen : Iov → Nat
  | [] => 0
  | (_, n) :: iov => n + iovLen iov

/-- No byte of the buffer is at the place of another. -/
def Spread (iov : Iov) : Prop :=
  ∀ i < iovLen iov, ∀ j < iovLen iov, iovAddr iov i = iovAddr iov j → i = j

section Buffer
variable {va n : Nat} {iov : Iov} {m : Mem} {buf : Mem} {a i : Nat}

theorem iovAddr_rest (iov : Iov) (i : Nat) : iovAddr ((va, n) :: iov) (i + n) = iovAddr iov i := by
  rw [iovAddr, if_neg (by omega), Nat.add_sub_cancel]

theorem iovAddr_first (hi : i < n) : iovAddr ((va, n) :: iov) i = va + i := by
  rw [iovAddr, if_pos hi]

theorem Spread.rest (h : Spread ((va, n) :: iov)) : Spread iov := by
  intro i hi j hj heq
  have := h (i + n) (by simp only [iovLen]; omega) (j + n) (by simp only [iovLen]; omega) (by
    rw [iovAddr_rest, iovAddr_rest, heq])
  omega

theorem copyoutMem_outside (h : ∀ i < iovLen iov, iovAddr iov i ≠ a) :
    copyoutMem m iov buf a = m a := by
  induction iov generalizing m buf with
  | nil => rfl
  | cons p iov ih =>
    obtain ⟨va, n⟩ := p
    have hrest : ∀ i < iovLen iov, iovAddr iov i ≠ a := by
      intro i hi
      have := h (i + n) (by simp only [iovLen]; omega)
      rwa [iovAddr_rest] at this
    rw [copyoutMem, ih hrest, if_neg]
    rintro ⟨hlo, hhi⟩
    refine h (a - va) (by simp only [iovLen]; omega) ?_
    rw [iovAddr_first (by omega)]
    omega

theorem copyoutMem_inside (h : Spread iov) (hi : i < iovLen iov) :
    copyoutMem m iov buf (iovAddr iov i) = buf i := by
  induction iov generalizing m buf i with
  | nil => cases hi
  | cons p iov ih =>
    obtain ⟨va, n⟩ := p
    rw [copyoutMem]
    by_cases hin : i < n
    · -- the pieces behind this one do not come back to it
      rw [copyoutMem_outside, iovAddr_first hin, if_pos (by omega), Nat.add_sub_cancel_left]
      intro j hj heq
      rw [← iovAddr_rest iov j] at heq
      have := h (j + n) (by simp only [iovLen]; omega) i hi heq
      omega
    · have haddr : iovAddr ((va, n) :: iov) i = iovAddr iov (i - n) := by
        rw [iovAddr, if_neg hin]
      rw [haddr, ih h.rest (by simp only [iovLen] at hi; omega), Nat.sub_add_cancel (by omega)]

end Buffer

section Pieces
variable {vm : Vm} {pg : GuestPaging} {write : Bool} {m : Mem} {gla len : Nat} {iov : Iov}

/-- What the first piece of a buffer is, and the rest. -/
theorem window_cons {iovcnt : Nat} (hlen : 0 < len)
    (h : window vm pg write m (iovcnt + 1) gla len = some iov) :
    ∃ gpa rest, gpa % 4096 = gla % 4096 ∧ iov = (gpa, min len (4096 - gla % 4096)) :: rest ∧
      window vm pg write m iovcnt (gla + min len (4096 - gla % 4096))
        (len - min len (4096 - gla % 4096)) = some rest := by
  obtain ⟨len, rfl⟩ := Nat.exists_eq_succ_of_ne_zero (Nat.ne_of_gt hlen)
  simp only [window] at h
  split at h
  · rename_i gpa hgpa
    have hoff : gpa % 4096 = gla % 4096 := by
      rw [translate_offset hgpa]
      omega
    obtain ⟨va, hva, hmap⟩ := Option.bind_eq_some_iff.1 h
    obtain ⟨rest, hrest, rfl⟩ := Option.map_eq_some_iff.1 hmap
    obtain rfl := mapGpa_eq hva
    rw [hoff] at hrest
    exact ⟨va, rest, hoff, by rw [hoff], hrest⟩
  · cases h

theorem window_nil {iovcnt : Nat} (h : window vm pg write m iovcnt gla 0 = some iov) : iov = [] := by
  cases iovcnt <;> exact (Option.some.inj h).symm

/-- A buffer of at most a page has its length, and no two of its bytes are at one place. -/
theorem window_spread (hlen : len ≤ 4096) (h : window vm pg write m 2 gla len = some iov) :
    iovLen iov = len ∧ Spread iov := by
  rcases Nat.eq_zero_or_pos len with rfl | hpos
  · obtain rfl := window_nil h
    exact ⟨rfl, fun i hi => absurd hi (Nat.not_lt_zero i)⟩
  obtain ⟨gpa, rest, hoff, rfl, hrest⟩ := window_cons hpos h
  by_cases hone : len ≤ 4096 - gla % 4096
  · rw [Nat.min_eq_left hone, Nat.sub_self] at hrest
    obtain rfl := window_nil hrest
    rw [Nat.min_eq_left hone]
    refine ⟨rfl, fun i hi j hj heq => ?_⟩
    simp only [iovLen, Nat.add_zero] at hi hj
    rw [iovAddr_first hi, iovAddr_first hj] at heq
    omega
  · have hmin : min len (4096 - gla % 4096) = 4096 - gla % 4096 := by omega
    rw [hmin] at hrest ⊢
    obtain ⟨gpa', rest', hoff', rfl, hend⟩ := window_cons (by omega) hrest
    have hmin' : min (len - (4096 - gla % 4096)) (4096 - (gla + (4096 - gla % 4096)) % 4096) =
        len - (4096 - gla % 4096) := by omega
    rw [hmin', Nat.sub_self] at hend
    obtain rfl := window_nil hend
    rw [hmin']
    have hoff0 : gpa' % 4096 = 0 := by omega
    have haddr : ∀ i, i < len → iovAddr [(gpa, 4096 - gla % 4096), (gpa', len - (4096 - gla % 4096))] i =
        if i < 4096 - gla % 4096 then gpa + i else gpa' + (i - (4096 - gla % 4096)) := by
      intro i hi
      rw [iovAddr]
      split_ifs with hin
      · rfl
      · rw [iovAddr_first (by omega)]
    have htotal : iovLen [(gpa, 4096 - gla % 4096), (gpa', len - (4096 - gla % 4096))] = len := by
      simp only [iovLen]
      omega
    refine ⟨htotal, fun i hi j hj heq => ?_⟩
    rw [htotal] at hi hj
    rw [haddr i hi, haddr j hj] at heq
    split_ifs at heq <;> omega

end Pieces

end Xhyve.Vmm.TaskSwitch
