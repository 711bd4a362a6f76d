import Xhyve.Vmm.TaskSwitchMemory

/-!
# Copies to and from guest linear addresses

The kernel part and the user part of the hypervisor each have a function that finds the pieces of a linear
range. `vm_copy_setup` translates every page first and then looks the pieces up in the memory segments;
`xh_vm_copy_setup` looks each piece up in the low and high memory as it goes.
-/

namespace Xhyve.Vmm.TaskSwitch

open Xhyve.Lib Xhyve.Lib.Mem Xhyve.Lib.Fallible
open Xhyve.Vmm.PageWalk
open Xhyve.Vmm.PageWalk.Sdm (translate walkFrom mapped Hierarchy bits hierarchy32 hierarchy64)

/-- Guest memory as `xh_vm_setup_memory` lays it out: below 3 GiB, and from 4 GiB on. `vm_malloc` takes whole pages
only. -/
structure Ram where
  lowmem : Nat
  highmem : Nat
  lowmem_le : lowmem ≤ 3 * 2 ^ 30
  highmem_lt : 2 ^ 32 + highmem < 2 ^ 64
  lowmem_pages : lowmem % 4096 = 0
  highmem_pages : highmem % 4096 = 0

/-- The segments `vm_malloc` was called for. -/
def Ram.segs (ram : Ram) : List MemSeg :=
  (if 0 < ram.lowmem then [⟨0, ram.lowmem⟩] else []) ++ (if 0 < ram.highmem then [⟨2 ^ 32, ram.highmem⟩] else [])

def Ram.vm (ram : Ram) : Vm := ⟨ram.segs, ram.lowmem, ram.highmem⟩

/-- A loop over the pages of a range, with room for `num` pieces: each page is translated, and the piece in it looked
up. -/
def copyLoop (look : Nat → Nat → Option Nat) (vm : Vm) (pg : GuestPaging) (prot : Nat) : Nat → Nat → Nat → TaskM Iov
  | _, _, 0 => return []
  | 0, _, _ + 1 => throw .assertion
  | num + 1, gla, len + 1 => do
    let gpa ← gla2gpa vm pg gla prot
    let n := min (len + 1) (4096 - gpa % 4096)
    match look gpa n with
    | none => throw .efault
    | some va => do
      let rest ← copyLoop look vm pg prot num (gla + n) (len + 1 - n)
      return (va, n) :: rest

/-- The first loop of `vm_copy_setup` looks nothing up. -/
def copyPieces : Vm → GuestPaging → Nat → Nat → Nat → Nat → TaskM Iov := copyLoop fun gpa _ => some gpa

/-- The second loop: every piece has to be in a segment. -/
def backed (vm : Vm) (iov : Iov) : Bool := iov.all fun p => (vmGpa2hva vm.segs p.1 p.2).isSome

def vmCopySetup (vm : Vm) (pg : GuestPaging) (prot num gla len : Nat) : TaskM Iov := do
  let iov ← copyPieces vm pg prot num gla len
  check (backed vm iov = false) (throw .efault)
  return iov

/-- The bytes of a piece. -/
def pieceBytes (m : Mem) (va n : Nat) : List UInt8 := (List.range n).map fun i => m (va + i)

/-- `vm_copyin`: whole pieces, until the length is used up. -/
def vmCopyin (m : Mem) : Iov → Nat → List UInt8
  | _, 0 => []
  | [], _ + 1 => []
  | (hva, n) :: iov, len + 1 => pieceBytes m hva n ++ vmCopyin m iov (len + 1 - n)

/-- `xh_vm_copyin`: no more of a piece than is left of the length. -/
def xhVmCopyin (m : Mem) : Iov → Nat → List UInt8
  | _, 0 => []
  | [], _ + 1 => []
  | (va, n) :: iov, len + 1 => pieceBytes m va (min (len + 1) n) ++ xhVmCopyin m iov (len + 1 - min (len + 1) n)

/-- A piece of the buffer, from its byte `off` on, is written to memory. -/
def writePiece (m buf : Mem) (va n off : Nat) : Mem := fun a => if va ≤ a ∧ a < va + n then buf (off + (a - va)) else m a

def vmCopyout (buf : Mem) : Iov → Nat → Nat → Mem → Mem
  | _, 0, _, m => m
  | [], _ + 1, _, m => m
  | (hva, n) :: iov, len + 1, off, m => vmCopyout buf iov (len + 1 - n) (off + n) (writePiece m buf hva n off)

def xhVmCopyout (buf : Mem) : Iov → Nat → Nat → Mem → Mem
  | _, 0, _, m => m
  | [], _ + 1, _, m => m
  | (va, n) :: iov, len + 1, off, m =>
    xhVmCopyout buf iov (len + 1 - min (len + 1) n) (off + min (len + 1) n) (writePiece m buf va (min (len + 1) n) off)

/-! ## Addresses -/

section Bounds
variable {H : Hierarchy} {segs : List MemSeg} {user write : Bool} {gla gpa : Nat} {m : Mem}

theorem mapped_lt (hp : H.pse36 = false) {shift : Nat} (hs : shift ≤ H.top + 1) (e : Nat) :
    mapped H gla shift e < 2 ^ (H.top + 1) := by
  have hbits : bits H.top shift e < 2 ^ (H.top + 1 - shift) := Nat.mod_lt _ (Nat.two_pow_pos _)
  have hmod : gla % 2 ^ shift < 2 ^ shift := Nat.mod_lt _ (Nat.two_pow_pos _)
  unfold mapped
  rw [hp, if_neg (by simp), Nat.zero_add]
  calc bits H.top shift e * 2 ^ shift + gla % 2 ^ shift
      < bits H.top shift e * 2 ^ shift + 2 ^ shift := Nat.add_lt_add_left hmod _
    _ = (bits H.top shift e + 1) * 2 ^ shift := by rw [Nat.add_mul, Nat.one_mul]
    _ ≤ 2 ^ (H.top + 1 - shift) * 2 ^ shift := Nat.mul_le_mul_right _ hbits
    _ = 2 ^ (H.top + 1) := by rw [← Nat.pow_add, Nat.sub_add_cancel hs]

theorem walkFrom_lt (hp : H.pse36 = false) {level base : Nat} (hs : pageShift + level * H.indexBits ≤ H.top + 1)
    (h : (walkFrom H segs user write gla m level base).outcome = .page gpa) : gpa < 2 ^ (H.top + 1) := by
  induction level generalizing base with
  | zero =>
    unfold walkFrom at h
    simp only at h
    split at h
    · cases h
    · split at h
      · cases h
      · cases h
        exact mapped_lt hp hs _
  | succ level ih =>
    unfold walkFrom at h
    simp only at h
    split at h
    · cases h
    · split at h
      · cases h
      · split at h
        · split at h
          · cases h
          · cases h
            exact mapped_lt hp hs _
        · refine ih ?_ h
          rw [Nat.succ_mul] at hs
          omega

/-- Paging leads to addresses of at most 52 bits. -/
theorem translate_lt {pg : GuestPaging} (hmode : pg.pagingMode ≠ .flat)
    (h : (translate false segs pg gla user write m).outcome = .page gpa) : gpa < 2 ^ 52 := by
  have h32 : (2 : Nat) ^ 32 ≤ 2 ^ 52 := by decide
  unfold Sdm.translate at h
  simp only at h
  split at h
  · cases h
  · split at h
    · rename_i hflat
      exact absurd hflat hmode
    · exact Nat.lt_of_lt_of_le (walkFrom_lt rfl (by decide) h) h32
    · split at h
      · cases h
      · split at h
        · exact walkFrom_lt rfl (by decide) h
        · cases h
    · exact walkFrom_lt rfl (by decide) h

/-- Another address in the same page. -/
theorem mapped_samePage (hp : H.pse36 = false) {gla' : Nat} (hpage : gla' / 4096 = gla / 4096) (k e : Nat) :
    mapped H gla' (pageShift + k) e + gla % 4096 = mapped H gla (pageShift + k) e + gla' % 4096 := by
  have hoff : gla' % 2 ^ (pageShift + k) + gla % 4096 = gla % 2 ^ (pageShift + k) + gla' % 4096 := by
    have hpow : 2 ^ (pageShift + k) = 4096 * 2 ^ k := by rw [pow_add]; rfl
    rw [hpow, Nat.mod_mul, Nat.mod_mul, hpage]
    omega
  unfold mapped
  rw [hp, if_neg (by simp)]
  omega

theorem div_samePage {gla' k : Nat} (hpage : gla' / 4096 = gla / 4096) :
    gla' / 2 ^ (pageShift + k) = gla / 2 ^ (pageShift + k) := by
  have hpow : 2 ^ (pageShift + k) = 4096 * 2 ^ k := by rw [pow_add]; rfl
  rw [hpow, ← Nat.div_div_eq_div_mul, ← Nat.div_div_eq_div_mul, hpage]

theorem walkFrom_samePage (hp : H.pse36 = false) {gla' level base : Nat} (hpage : gla' / 4096 = gla / 4096)
    (h : (walkFrom H segs user write gla m level base).outcome = .page gpa) :
    ∃ gpa', (walkFrom H segs user write gla' m level base).outcome = .page gpa' ∧
      gpa' + gla % 4096 = gpa + gla' % 4096 := by
  have hentry : ∀ level base, Sdm.entryAddr H gla' level base = Sdm.entryAddr H gla level base := by
    intro level base
    unfold Sdm.entryAddr
    rw [div_samePage hpage]
  induction level generalizing base with
  | zero =>
    unfold walkFrom at h ⊢
    simp only [hentry] at h ⊢
    split_ifs at h ⊢ with hbase hfault
    cases h
    exact ⟨_, rfl, mapped_samePage hp hpage _ _⟩
  | succ level ih =>
    unfold walkFrom at h ⊢
    simp only [hentry] at h ⊢
    split_ifs at h ⊢ with hbase hfault hps hlarge
    · cases h
      exact ⟨_, rfl, mapped_samePage hp hpage _ _⟩
    · exact ih h

theorem translate_samePage {pg : GuestPaging} {gla' : Nat} (hpage : gla' / 4096 = gla / 4096)
    (h : (translate false segs pg gla user write m).outcome = .page gpa) :
    ∃ gpa', (translate false segs pg gla' user write m).outcome = .page gpa' ∧
      gpa' + gla % 4096 = gpa + gla' % 4096 := by
  have hcanon : Sdm.canonical gla' = Sdm.canonical gla := by
    have hdiv : gla' / 2 ^ 47 = gla / 2 ^ 47 := div_samePage (k := 35) hpage
    unfold Sdm.canonical
    rw [hdiv]
  have hpdpt : gla' / 2 ^ 30 = gla / 2 ^ 30 := div_samePage (k := 18) hpage
  unfold Sdm.translate at h ⊢
  simp only [hcanon, hpdpt] at h ⊢
  split at h
  · cases h
  · rename_i hc
    rw [if_neg hc]
    cases hmode : pg.pagingMode with
    | flat =>
      rw [hmode] at h
      cases h
      refine ⟨_, rfl, ?_⟩
      omega
    | bits32 =>
      rw [hmode] at h
      exact walkFrom_samePage rfl hpage h
    | pae =>
      rw [hmode] at h
      simp only at h ⊢
      split_ifs at h ⊢
      exact walkFrom_samePage rfl hpage h
    | bits64 =>
      rw [hmode] at h
      exact walkFrom_samePage rfl hpage h

end Bounds

/-! ## The two functions find the same pieces -/

section Agree
variable {ram : Ram} {vm : Vm} {pg : GuestPaging} {prot num gla len gpa n : Nat} {iov : Iov} {g u : Guest}

/-- The segments and the low and high memory are the same memory, for a range that does not wrap. -/
theorem gpa2hva_eq_mapGpa (hn : 0 < n) (hwrap : gpa + n < 2 ^ 64) :
    vmGpa2hva ram.segs gpa n = mapGpa ram.vm gpa n := by
  have hlow := ram.lowmem_le
  have hhigh := ram.highmem_lt
  have hseg : ∀ base size, base + size < 2 ^ 64 →
      ((decide (base ≤ gpa) && decide ((gpa + n) % 2 ^ 64 ≤ (base + size) % 2 ^ 64)) = true ↔
        base ≤ gpa ∧ gpa + n ≤ base + size) := by
    intro base size hsize
    rw [Bool.and_eq_true, decide_eq_true_iff, decide_eq_true_iff, Nat.mod_eq_of_lt hwrap, Nat.mod_eq_of_lt hsize]
  have hmap : mapGpa ram.vm gpa n = if gpa + n ≤ ram.lowmem ∨ 2 ^ 32 ≤ gpa ∧ gpa + n ≤ 2 ^ 32 + ram.highmem then some gpa
      else none := by
    unfold mapGpa Ram.vm
    dsimp only
    split_ifs <;> first | rfl | omega
  have hany : (ram.segs.any fun seg => decide (seg.gpa ≤ gpa) &&
      decide ((gpa + n) % 2 ^ 64 ≤ (seg.gpa + seg.len) % 2 ^ 64)) = true ↔
      gpa + n ≤ ram.lowmem ∨ 2 ^ 32 ≤ gpa ∧ gpa + n ≤ 2 ^ 32 + ram.highmem := by
    unfold Ram.segs
    rw [List.any_append, Bool.or_eq_true]
    refine or_congr ?_ ?_
    · split
      · rw [List.any_cons, List.any_nil, Bool.or_false, hseg 0 ram.lowmem (by omega)]
        omega
      · simp only [List.any_nil, Bool.false_eq_true, false_iff]
        omega
    · split
      · rw [List.any_cons, List.any_nil, Bool.or_false, hseg (2 ^ 32) ram.highmem hhigh]
      · simp only [List.any_nil, Bool.false_eq_true, false_iff]
        omega
  unfold vmGpa2hva
  rw [hmap]
  exact if_congr hany rfl rfl

/-- A translation ends at an offset of its own page, below the end of memory addresses. -/
theorem gla2gpa_page (hpg : PagingOk pg) (hok : gla2gpa vm pg gla prot g = .ok gpa u) :
    gpa % 4096 = gla % 4096 ∧ (pg.pagingMode ≠ .flat → gpa < 2 ^ 52) ∧ (pg.pagingMode = .flat → gpa = gla % 2 ^ 64) := by
  obtain ⟨hgpa, -⟩ := gla2gpa_after hpg gpa u hok
  refine ⟨?_, fun hmode => translate_lt hmode hgpa, fun hflat => ?_⟩
  · rw [translate_offset hgpa]
    omega
  · unfold Sdm.translate at hgpa
    rw [hflat] at hgpa
    dsimp only at hgpa
    split at hgpa
    · cases hgpa
    · cases hgpa
      rfl

/-- `xh_vm_copy_setup` looks each piece up in the low and high memory. -/
theorem copySetup_eq_loop (vm : Vm) (pg : GuestPaging) (prot num gla len : Nat) :
    copySetup vm pg prot num gla len = copyLoop (mapGpa vm) vm pg prot num gla len := by
  induction num generalizing gla len with
  | zero => cases len <;> rfl
  | succ num ih =>
    cases len with
    | zero => rfl
    | succ len =>
      rw [copySetup, copyLoop]
      simp only [ih]
      all_goals rfl

section Loop
variable {look : Nat → Nat → Option Nat}

/-- What a run of the loop for a piece has done. -/
theorem copyLoop_cons (hlook : ∀ {gpa n va}, look gpa n = some va → va = gpa) (hlen : 0 < len) :
    copyLoop look vm pg prot (num + 1) gla len g = .ok iov u ↔
      ∃ gpa t rest, gla2gpa vm pg gla prot g = .ok gpa t ∧ look gpa (min len (4096 - gpa % 4096)) = some gpa ∧
        copyLoop look vm pg prot num (gla + min len (4096 - gpa % 4096)) (len - min len (4096 - gpa % 4096)) t =
          .ok rest u ∧
        iov = (gpa, min len (4096 - gpa % 4096)) :: rest := by
  obtain ⟨len, rfl⟩ := Nat.exists_eq_succ_of_ne_zero (Nat.ne_of_gt hlen)
  rw [copyLoop, bind_ok_iff]
  constructor
  · rintro ⟨gpa, t, hgpa, hrest⟩
    cases hmap : look gpa (min (len + 1) (4096 - gpa % 4096)) with
    | none =>
      rw [hmap] at hrest
      cases hrest
    | some va =>
      rw [hmap] at hrest
      obtain ⟨rest, v, hcopy, hret⟩ := bind_ok_iff.mp hrest
      cases hret
      obtain rfl := hlook hmap
      exact ⟨va, t, rest, hgpa, hmap, hcopy, rfl⟩
  · rintro ⟨gpa, t, rest, hgpa, hmap, hcopy, rfl⟩
    refine ⟨gpa, t, hgpa, ?_⟩
    rw [hmap]
    exact bind_ok_iff.mpr ⟨rest, u, hcopy, rfl⟩

theorem copyLoop_zero (num gla : Nat) : copyLoop look vm pg prot num gla 0 = pure [] := by
  cases num <;> rfl

/-- Room for the pages of a range is enough. -/
theorem copyLoop_enough (hpg : PagingOk pg) (hlen : len ≤ 4096 - gla % 4096 + 4096 * num) (k : Nat) :
    copyLoop look vm pg prot (num + 1 + k) gla len g = copyLoop look vm pg prot (num + 1) gla len g := by
  induction num generalizing gla len g with
  | zero =>
    cases len with
    | zero => rw [copyLoop_zero, copyLoop_zero]
    | succ len =>
      rw [Nat.add_right_comm, copyLoop, copyLoop]
      refine bind_congr_of_ok fun gpa t hgpa => ?_
      obtain ⟨hoff, -⟩ := gla2gpa_page hpg hgpa
      have hall : len + 1 - min (len + 1) (4096 - gpa % 4096) = 0 := by omega
      simp only [hall, copyLoop_zero]
  | succ num ih =>
    cases len with
    | zero => rw [copyLoop_zero, copyLoop_zero]
    | succ len =>
      rw [Nat.add_right_comm, copyLoop, copyLoop]
      refine bind_congr_of_ok fun gpa t hgpa => ?_
      obtain ⟨hoff, -⟩ := gla2gpa_page hpg hgpa
      cases look gpa (min (len + 1) (4096 - gpa % 4096)) with
      | none => rfl
      | some va => exact bind_congr_run (ih (by omega))

/-- Two pieces are enough for a page. -/
theorem copyLoop_pages (hpg : PagingOk pg) (hlen : len ≤ 4096) (k : Nat) :
    copyLoop look vm pg prot (2 + k) gla len g = copyLoop look vm pg prot 2 gla len g := by
  have hfit : len ≤ 4096 - gla % 4096 + 4096 * 1 := by omega
  exact copyLoop_enough hpg hfit k

end Loop

theorem vmCopySetup_ok : vmCopySetup vm pg prot num gla len g = .ok iov u ↔
    copyPieces vm pg prot num gla len g = .ok iov u ∧ backed vm iov = true := by
  unfold vmCopySetup
  rw [bind_ok_iff]
  constructor
  · rintro ⟨pieces, t, hpieces, hrest⟩
    cases hback : backed vm pieces with
    | true =>
      rw [hback] at hrest
      cases hrest
      exact ⟨hpieces, hback⟩
    | false =>
      rw [hback] at hrest
      cases hrest
  · rintro ⟨hpieces, hback⟩
    refine ⟨iov, u, hpieces, ?_⟩
    rw [hback]
    rfl

theorem vmCopySetup_cons (hlen : 0 < len) : vmCopySetup vm pg prot (num + 1) gla len g = .ok iov u ↔
    ∃ gpa t rest, gla2gpa vm pg gla prot g = .ok gpa t ∧
      (vmGpa2hva vm.segs gpa (min len (4096 - gpa % 4096))).isSome = true ∧
      vmCopySetup vm pg prot num (gla + min len (4096 - gpa % 4096)) (len - min len (4096 - gpa % 4096)) t = .ok rest u ∧
      iov = (gpa, min len (4096 - gpa % 4096)) :: rest := by
  simp only [vmCopySetup_ok]
  unfold copyPieces
  rw [copyLoop_cons (fun h => (Option.some.inj h).symm) hlen]
  constructor
  · rintro ⟨⟨gpa, t, rest, hgpa, -, hcopy, rfl⟩, hback⟩
    obtain ⟨hhead, htail⟩ := Bool.and_eq_true_iff.mp hback
    exact ⟨gpa, t, rest, hgpa, hhead, ⟨hcopy, htail⟩, rfl⟩
  · rintro ⟨gpa, t, rest, hgpa, hhead, ⟨hcopy, htail⟩, rfl⟩
    exact ⟨⟨gpa, t, rest, hgpa, rfl, hcopy, rfl⟩, Bool.and_eq_true_iff.mpr ⟨hhead, htail⟩⟩

/-- Outside paging, linear addresses stay clear of the top of the 64 bits. -/
def Unwrapped (pg : GuestPaging) (gla len : Nat) : Prop := pg.pagingMode = .flat → gla + len < 2 ^ 64

theorem vmCopySetup_iff (hpg : PagingOk pg) (hwrap : Unwrapped pg gla len) :
    vmCopySetup ram.vm pg prot num gla len g = .ok iov u ↔ copySetup ram.vm pg prot num gla len g = .ok iov u := by
  rw [copySetup_eq_loop]
  induction num generalizing gla len g iov with
  | zero =>
    cases len with
    | zero => exact Iff.rfl
    | succ len =>
      constructor
      · exact fun h => absurd (vmCopySetup_ok.mp h).1 nofun
      · exact fun h => absurd h nofun
  | succ num ih =>
    rcases Nat.eq_zero_or_pos len with rfl | hlen
    · exact Iff.rfl
    rw [vmCopySetup_cons hlen, copyLoop_cons mapGpa_eq hlen]
    refine exists_congr fun gpa => exists_congr fun t => exists_congr fun rest => and_congr_right fun hgpa => ?_
    obtain ⟨-, hpaged, hflat⟩ := gla2gpa_page hpg hgpa
    have htop : gpa + min len (4096 - gpa % 4096) < 2 ^ 64 := by
      by_cases hmode : pg.pagingMode = .flat
      · have hgla := hwrap hmode
        rw [hflat hmode]
        omega
      · have := hpaged hmode
        omega
    have hpos : 0 < min len (4096 - gpa % 4096) := by omega
    have hmap : (vmGpa2hva ram.vm.segs gpa (min len (4096 - gpa % 4096))).isSome = true ↔
        mapGpa ram.vm gpa (min len (4096 - gpa % 4096)) = some gpa := by
      have heq : vmGpa2hva ram.vm.segs gpa (min len (4096 - gpa % 4096)) = _ := gpa2hva_eq_mapGpa hpos htop
      rw [heq, Option.isSome_iff_exists]
      exact ⟨fun ⟨va, hva⟩ => (mapGpa_eq hva ▸ hva), fun h => ⟨gpa, h⟩⟩
    have hnext : Unwrapped pg (gla + min len (4096 - gpa % 4096)) (len - min len (4096 - gpa % 4096)) := by
      intro hmode
      have := hwrap hmode
      omega
    rw [hmap, ih hnext]

theorem vmCopySetup_room (hpg : PagingOk pg) (hlen : len ≤ 4096) (k : Nat) :
    vmCopySetup vm pg prot (2 + k) gla len g = vmCopySetup vm pg prot 2 gla len g :=
  bind_congr_run (copyLoop_pages hpg hlen k)

theorem copySetup_room (hpg : PagingOk pg) (hlen : len ≤ 4096) (k : Nat) :
    copySetup vm pg prot (2 + k) gla len g = copySetup vm pg prot 2 gla len g := by
  rw [copySetup_eq_loop, copySetup_eq_loop]
  exact copyLoop_pages hpg hlen k

end Agree

/-! ## The bytes of a range -/

section Bytes
variable {vm : Vm} {pg : GuestPaging} {write : Bool} {m buf : Mem} {num gla len off i : Nat} {iov : Iov}

/-- Each byte of a range is where its own address leads. -/
theorem window_addr (h : window vm pg write m num gla len = some iov) (hi : i < len) :
    (translate false vm.segs pg ((gla + i) % 2 ^ 64) (pg.cpl = 3) write m).outcome = .page (iovAddr iov i) := by
  induction num generalizing gla len iov i with
  | zero =>
    cases len with
    | zero => cases hi
    | succ len => cases h
  | succ num ih =>
    obtain ⟨len, rfl⟩ := Nat.exists_eq_succ_of_ne_zero (Nat.ne_zero_of_lt hi)
    simp only [window] at h
    split at h
    · rename_i gpa hgpa
      obtain ⟨va, hva, hmap⟩ := Option.bind_eq_some_iff.1 h
      obtain ⟨rest, hrest, rfl⟩ := Option.map_eq_some_iff.1 hmap
      obtain rfl := mapGpa_eq hva
      have hoff := translate_offset hgpa
      by_cases hin : i < min (len + 1) (4096 - va % 4096)
      · have hpage : (gla + i) % 2 ^ 64 / 4096 = gla % 2 ^ 64 / 4096 := by omega
        obtain ⟨gpa', hgpa', hsum⟩ := translate_samePage hpage hgpa
        rw [iovAddr_first hin, hgpa']
        congr 1
        omega
      · have hrest' := ih (i := i - min (len + 1) (4096 - va % 4096)) hrest (by omega)
        rw [iovAddr, if_neg hin, ← hrest', Nat.add_assoc, Nat.add_sub_cancel' (Nat.le_of_not_lt hin)]
    · cases h

theorem pieceBytes_get {va n : Nat} (hi : i < n) : (pieceBytes m va n)[i]? = some (m (va + i)) := by
  unfold pieceBytes
  rw [List.getElem?_map, List.getElem?_range hi]
  rfl

theorem pieceBytes_length (va n : Nat) : (pieceBytes m va n).length = n := by
  unfold pieceBytes
  rw [List.length_map, List.length_range]

/-- The two ways to copy differ in nothing for a buffer as long as its pieces. -/
theorem copyin_eq (hlen : iovLen iov = len) : xhVmCopyin m iov len = vmCopyin m iov len := by
  induction iov generalizing len with
  | nil => cases len <;> rfl
  | cons p iov ih =>
    obtain ⟨va, n⟩ := p
    cases len with
    | zero => rfl
    | succ len =>
      rw [iovLen] at hlen
      rw [xhVmCopyin, vmCopyin, Nat.min_eq_right (by omega), ih (by omega)]

theorem vmCopyin_get (hlen : iovLen iov = len) (hi : i < len) : (vmCopyin m iov len)[i]? = some (m (iovAddr iov i)) := by
  induction iov generalizing len i with
  | nil =>
    rw [← hlen] at hi
    cases hi
  | cons p iov ih =>
    obtain ⟨va, n⟩ := p
    obtain ⟨len, rfl⟩ := Nat.exists_eq_succ_of_ne_zero (Nat.ne_zero_of_lt hi)
    rw [iovLen] at hlen
    rw [vmCopyin]
    by_cases hin : i < n
    · rw [List.getElem?_append_left (by rw [pieceBytes_length]; exact hin), pieceBytes_get hin, iovAddr_first hin]
    · rw [List.getElem?_append_right (by rw [pieceBytes_length]; omega), pieceBytes_length, ih (by omega) (by omega),
        iovAddr, if_neg hin]

theorem vmCopyin_length (hlen : iovLen iov = len) : (vmCopyin m iov len).length = len := by
  induction iov generalizing len with
  | nil =>
    rw [← hlen]
    rfl
  | cons p iov ih =>
    obtain ⟨va, n⟩ := p
    cases len with
    | zero => rfl
    | succ len =>
      rw [iovLen] at hlen
      rw [vmCopyin, List.length_append, pieceBytes_length, ih (by omega)]
      omega

theorem copyout_eq (hlen : iovLen iov = len) : xhVmCopyout buf iov len off m = vmCopyout buf iov len off m := by
  induction iov generalizing len off m with
  | nil => cases len <;> rfl
  | cons p iov ih =>
    obtain ⟨va, n⟩ := p
    cases len with
    | zero => rfl
    | succ len =>
      rw [iovLen] at hlen
      rw [xhVmCopyout, vmCopyout, Nat.min_eq_right (by omega), ih (by omega)]

/-- The pieces are written one after the other. -/
theorem vmCopyout_eq (hlen : iovLen iov = len) : vmCopyout buf iov len off m = copyoutMem m iov fun i => buf (off + i) := by
  induction iov generalizing len off m with
  | nil => cases len <;> rfl
  | cons p iov ih =>
    obtain ⟨va, n⟩ := p
    rw [iovLen] at hlen
    cases len with
    | zero =>
      have hn : n = 0 := by omega
      have hiov : iovLen iov = 0 := by omega
      have hnone : (fun a => if va ≤ a ∧ a < va + n then buf (off + (a - va)) else m a) = m := by
        funext a
        rw [if_neg (by omega)]
      have hrest : vmCopyout buf iov 0 off m = copyoutMem m iov fun i => buf (off + i) := ih hiov
      rw [copyoutMem, hnone, hn]
      simp only [Nat.add_zero]
      rw [← hrest]
      cases iov <;> rfl
    | succ len =>
      rw [vmCopyout, ih (by omega), copyoutMem]
      have hshift : (fun i => buf (off + n + i)) = fun i => buf (off + (i + n)) := by
        funext i
        rw [Nat.add_assoc, Nat.add_comm n]
      rw [hshift]
      rfl

end Bytes

/-! ## Exact copies -/

/-- The addresses that are guest RAM. -/
def Ram.holds (ram : Ram) (a : Nat) : Prop := a < ram.lowmem ∨ 2 ^ 32 ≤ a ∧ a < 2 ^ 32 + ram.highmem

/-- Where byte `i` of a range is. -/
def Byte (ram : Ram) (pg : GuestPaging) (prot gla : Nat) (m : Mem) (i a : Nat) : Prop :=
  (translate false ram.segs pg ((gla + i) % 2 ^ 64) (pg.cpl = 3) (writes prot) m).outcome = .page a ∧ ram.holds a

/-- The pieces `iov`, found in memory `m`, are the range: through them the bytes of the range are read, and these
and no others are written. -/
structure CopiesRange (ram : Ram) (pg : GuestPaging) (prot gla len : Nat) (m : Mem) (iov : Iov) (m' : Mem) : Prop where
  bytes : ∀ i < len, Byte ram pg prot gla m i (iovAddr iov i)
  length : (vmCopyin m' iov len).length = len
  copyin : ∀ i < len, (vmCopyin m' iov len)[i]? = some (m' (iovAddr iov i))
  copyin_eq : xhVmCopyin m' iov len = vmCopyin m' iov len
  copyout : ∀ buf, ∀ i < len, vmCopyout buf iov len 0 m' (iovAddr iov i) = buf i
  copyout_frame : ∀ buf a, (∀ i < len, iovAddr iov i ≠ a) → vmCopyout buf iov len 0 m' a = m' a
  copyout_eq : ∀ buf, xhVmCopyout buf iov len 0 m' = vmCopyout buf iov len 0 m'

/-- Copies of a range with room for two pieces. -/
structure CopyExact (ram : Ram) (pg : GuestPaging) (prot gla len : Nat) (g : Guest) : Prop where
  vm_room : ∀ k, vmCopySetup ram.vm pg prot (2 + k) gla len g = vmCopySetup ram.vm pg prot 2 gla len g
  xh_room : ∀ k, copySetup ram.vm pg prot (2 + k) gla len g = copySetup ram.vm pg prot 2 gla len g
  agree : ∀ iov u, vmCopySetup ram.vm pg prot 2 gla len g = .ok iov u ↔ copySetup ram.vm pg prot 2 gla len g = .ok iov u
  exact : ∀ iov u, vmCopySetup ram.vm pg prot 2 gla len g = .ok iov u → CopiesRange ram pg prot gla len g.mem iov u.mem

/-- Without paging, a range that goes over the end of the 64-bit addresses into low memory. -/
def WrapsIntoRam (ram : Ram) (pg : GuestPaging) (gla len : Nat) : Prop :=
  pg.pagingMode = .flat ∧ 2 ^ 64 ≤ gla + len ∧ gla + len ≤ 2 ^ 64 + ram.lowmem ∧ 0 < ram.lowmem + ram.highmem

section Exact
variable {ram : Ram} {pg : GuestPaging} {write : Bool} {prot num gla len n gpa i : Nat} {m : Mem} {iov : Iov} {g u : Guest}

theorem mapGpa_holds (h : mapGpa ram.vm gpa n = some gpa) (hi : i < n) : ram.holds (gpa + i) := by
  unfold mapGpa Ram.vm at h
  dsimp only at h
  unfold Ram.holds
  split_ifs at h
  · left
    omega
  · right
    omega

theorem window_holds (h : window ram.vm pg write m num gla len = some iov) (hi : i < len) :
    ram.holds (iovAddr iov i) := by
  induction num generalizing gla len iov i with
  | zero =>
    cases len with
    | zero => cases hi
    | succ len => cases h
  | succ num ih =>
    obtain ⟨len, rfl⟩ := Nat.exists_eq_succ_of_ne_zero (Nat.ne_zero_of_lt hi)
    simp only [window] at h
    split at h
    · rename_i gpa hgpa
      obtain ⟨va, hva, hmap⟩ := Option.bind_eq_some_iff.1 h
      obtain ⟨rest, hrest, rfl⟩ := Option.map_eq_some_iff.1 hmap
      obtain rfl := mapGpa_eq hva
      by_cases hin : i < min (len + 1) (4096 - va % 4096)
      · rw [iovAddr_first hin]
        exact mapGpa_holds hva hin
      · rw [iovAddr, if_neg hin]
        exact ih hrest (by omega)
    · cases h

theorem copiesRange_of_window (hlen : len ≤ 4096) (h : window ram.vm pg (writes prot) m 2 gla len = some iov) (m' : Mem) :
    CopiesRange ram pg prot gla len m iov m' := by
  obtain ⟨htotal, hspread⟩ := window_spread hlen h
  refine ⟨fun i hi => ⟨window_addr h hi, window_holds h hi⟩, vmCopyin_length htotal, fun i hi => vmCopyin_get htotal hi,
    copyin_eq htotal, fun buf i hi => ?_, fun buf a ha => ?_, fun buf => copyout_eq htotal⟩
  · rw [vmCopyout_eq htotal, copyoutMem_inside hspread (htotal ▸ hi), Nat.zero_add]
  · rw [vmCopyout_eq htotal]
    exact copyoutMem_outside (htotal ▸ ha)

/-- Flat addresses are not translated. -/
theorem gla2gpa_flat {vm : Vm} (hmode : pg.pagingMode = .flat) (hcanon : vieCanonicalCheck pg.cpuMode (gla % 2 ^ 64) = false) :
    gla2gpa vm pg gla prot g = .ok (gla % 2 ^ 64) g := by
  have hpass : PageWalk.pass vm.segs pg (BitVec.ofNat 64 gla).toNat prot g.mem = .done (.ok (gla % 2 ^ 64)) g.mem := by
    unfold PageWalk.pass
    rw [BitVec.toNat_ofNat]
    simp only [hcanon, hmode, Bool.false_eq_true, if_false]
  have hcall : vmGla2gpa vm.segs pg (BitVec.ofNat 64 gla) prot 2 g.mem = some (.ok (gla % 2 ^ 64), g.mem) := by
    rw [vmGla2gpa, hpass]
  unfold gla2gpa
  rw [bind_ok_iff]
  refine ⟨g, g, rfl, ?_⟩
  rw [hcall]
  rfl

/-- The last page of the 64-bit addresses, and the first. -/
theorem canonical_ends (mode : Decode.CpuMode) (hgla : gla < 2 ^ 64) (hends : gla < 4096 ∨ 2 ^ 64 ≤ gla + 4096) :
    vieCanonicalCheck mode gla = false := by
  rw [Bool.eq_false_iff]
  intro hcheck
  obtain ⟨-, hcanon⟩ := (vieCanonicalCheck_eq mode hgla).mp hcheck
  apply hcanon
  unfold Sdm.canonical
  rw [decide_eq_true_iff]
  omega

/-- At the end of the 64-bit addresses the sum in the look-up is 0, and every segment seems to hold the piece. -/
theorem gpa2hva_top (hgla : 2 ^ 32 ≤ gla) (htop : gla + n = 2 ^ 64) :
    (vmGpa2hva ram.segs gla n).isSome = true ↔ 0 < ram.lowmem + ram.highmem := by
  have hzero : (gla + n) % 2 ^ 64 = 0 := by rw [htop, Nat.mod_self]
  unfold vmGpa2hva
  simp only [hzero, Nat.zero_le, decide_true, Bool.and_true]
  constructor
  · intro hsome
    by_contra hnone
    have hlow : ¬ 0 < ram.lowmem := by omega
    have hhigh : ¬ 0 < ram.highmem := by omega
    unfold Ram.segs at hsome
    rw [if_neg hlow, if_neg hhigh] at hsome
    cases hsome
  · intro hmem
    have hany : (ram.segs.any fun seg => decide (seg.gpa ≤ gla)) = true := by
      unfold Ram.segs
      rw [List.any_append, Bool.or_eq_true]
      by_cases hlow : 0 < ram.lowmem
      · left
        rw [if_pos hlow]
        exact List.any_eq_true.2 ⟨_, List.mem_cons_self, decide_eq_true (Nat.zero_le gla)⟩
      · right
        rw [if_pos (by omega)]
        exact List.any_eq_true.2 ⟨_, List.mem_cons_self, decide_eq_true hgla⟩
    rw [if_pos hany]
    rfl

section Wrapped
variable (hmode : pg.pagingMode = .flat) (hgla : gla < 2 ^ 64) (hlen : len ≤ 4096) (hwrap : 2 ^ 64 ≤ gla + len)
include hmode hgla hlen hwrap

theorem gla2gpa_wrapped {vm : Vm} : gla2gpa vm pg gla prot g = .ok gla g := by
  have hmod : gla % 2 ^ 64 = gla := Nat.mod_eq_of_lt hgla
  have hcanon : vieCanonicalCheck pg.cpuMode (gla % 2 ^ 64) = false := by
    rw [hmod]
    exact canonical_ends pg.cpuMode hgla (by omega)
  rw [gla2gpa_flat hmode hcanon, hmod]

/-- `vm_copy_setup` takes such a range for one in memory, -/
theorem vmCopySetup_wrapped : (∃ iov u, vmCopySetup ram.vm pg prot 2 gla len g = .ok iov u) ↔
    gla + len ≤ 2 ^ 64 + ram.lowmem ∧ 0 < ram.lowmem + ram.highmem := by
  have hpos : 0 < len := by omega
  have hn : min len (4096 - gla % 4096) = 2 ^ 64 - gla := by omega
  have hgpa : gla2gpa ram.vm pg gla prot g = .ok gla g := gla2gpa_wrapped hmode hgla hlen hwrap
  have htop : (vmGpa2hva ram.vm.segs gla (2 ^ 64 - gla)).isSome = true ↔ 0 < ram.lowmem + ram.highmem :=
    gpa2hva_top (by omega) (by omega)
  -- what is left starts again at address 0
  have hrest : (∃ iov u, vmCopySetup ram.vm pg prot 1 (gla + (2 ^ 64 - gla)) (len - (2 ^ 64 - gla)) g = .ok iov u) ↔
      gla + len ≤ 2 ^ 64 + ram.lowmem := by
    have hnext : gla + (2 ^ 64 - gla) = 2 ^ 64 := by omega
    have hzero : gla2gpa ram.vm pg (2 ^ 64) prot g = .ok 0 g :=
      gla2gpa_flat hmode (canonical_ends pg.cpuMode (Nat.two_pow_pos 64) (Or.inl (by decide)))
    rw [hnext]
    generalize hleft : len - (2 ^ 64 - gla) = left
    rcases Nat.eq_zero_or_pos left with rfl | hleftpos
    · exact ⟨fun _ => by omega, fun _ => ⟨[], g, rfl⟩⟩
    have hmin : min left (4096 - 0 % 4096) = left := by omega
    have hlow : (vmGpa2hva ram.vm.segs 0 left).isSome = true ↔ left ≤ ram.lowmem := by
      have heq : vmGpa2hva ram.vm.segs 0 left = mapGpa ram.vm 0 left := gpa2hva_eq_mapGpa hleftpos (by omega)
      rw [heq]
      unfold mapGpa Ram.vm
      dsimp only
      split_ifs <;> simp <;> omega
    constructor
    · rintro ⟨iov, u, hok⟩
      obtain ⟨gpa, t, rest, hgpa', hback, -, -⟩ := (vmCopySetup_cons hleftpos).mp hok
      rw [hzero] at hgpa'
      cases hgpa'
      rw [hmin, hlow] at hback
      omega
    · intro hfit
      refine ⟨[(0, left)], g, (vmCopySetup_cons hleftpos).mpr ⟨0, g, [], hzero, ?_, ?_, ?_⟩⟩
      · rw [hmin, hlow]
        omega
      · rw [hmin, Nat.sub_self]
        rfl
      · rw [hmin]
  rw [← htop, ← hrest]
  constructor
  · rintro ⟨iov, u, hok⟩
    obtain ⟨gpa, t, rest, hgpa', hback, hrest', -⟩ := (vmCopySetup_cons hpos).mp hok
    rw [hgpa] at hgpa'
    cases hgpa'
    rw [hn] at hback hrest'
    exact ⟨⟨rest, u, hrest'⟩, hback⟩
  · rintro ⟨⟨rest, u, hrest'⟩, hback⟩
    refine ⟨(gla, 2 ^ 64 - gla) :: rest, u, (vmCopySetup_cons hpos).mpr ⟨gla, g, rest, hgpa, ?_, ?_, ?_⟩⟩
    · rwa [hn]
    · rwa [hn]
    · rw [hn]

/-- while `xh_vm_copy_setup` does not. -/
theorem copySetup_wrapped : copySetup ram.vm pg prot 2 gla len g ≠ .ok iov u := by
  have hhigh := ram.highmem_lt
  have hlow := ram.lowmem_le
  rw [copySetup_eq_loop]
  intro hok
  obtain ⟨gpa, t, rest, hgpa, hmap, -, -⟩ := (copyLoop_cons mapGpa_eq (by omega)).mp hok
  rw [gla2gpa_wrapped hmode hgla hlen hwrap] at hgpa
  cases hgpa
  unfold mapGpa Ram.vm at hmap
  dsimp only at hmap
  split_ifs at hmap <;> omega

end Wrapped

theorem vmCopySetup_range (hpg : PagingOk pg) (hlen : len ≤ 4096)
    (hagree : vmCopySetup ram.vm pg prot 2 gla len g = .ok iov u ↔ copySetup ram.vm pg prot 2 gla len g = .ok iov u)
    (hok : vmCopySetup ram.vm pg prot 2 gla len g = .ok iov u) : CopiesRange ram pg prot gla len g.mem iov u.mem := by
  obtain ⟨hwindow, -⟩ := copySetup_after hpg iov u (hagree.mp hok)
  exact copiesRange_of_window hlen hwindow u.mem

end Exact

/-- For a range of at most a page, two pieces are enough for `vm_copy_setup` and for `xh_vm_copy_setup`; they find
the same pieces or none, and through them the bytes at the translations of the range's addresses are copied and no
others, unless the range goes over the end of the 64-bit addresses into memory without paging. -/
theorem copies_exact (ram : Ram) (pg : GuestPaging) (prot : Nat) (gla : BitVec 64) (len : Nat) (g : Guest)
    (hpg : PagingOk pg) (hlen : len ≤ 4096) :
    CopyExact ram pg prot gla.toNat len g ↔ ¬ WrapsIntoRam ram pg gla.toNat len := by
  constructor
  · rintro hexact ⟨hmode, hwrap, hfit, hmem⟩
    have hsetup : ∃ iov u, vmCopySetup ram.vm pg prot 2 gla.toNat len g = .ok iov u :=
      (vmCopySetup_wrapped hmode gla.isLt hlen hwrap).mpr ⟨hfit, hmem⟩
    obtain ⟨iov, u, hok⟩ := hsetup
    exact copySetup_wrapped hmode gla.isLt hlen hwrap ((hexact.agree iov u).mp hok)
  · intro hno
    have hagree : ∀ iov u, vmCopySetup ram.vm pg prot 2 gla.toNat len g = .ok iov u ↔
        copySetup ram.vm pg prot 2 gla.toNat len g = .ok iov u := by
      intro iov u
      by_cases hwrap : pg.pagingMode = .flat ∧ 2 ^ 64 ≤ gla.toNat + len
      · -- a wrapping range that finds no memory
        refine ⟨fun hok => absurd ?_ hno, fun hok => absurd hok (copySetup_wrapped hwrap.1 gla.isLt hlen hwrap.2)⟩
        exact ⟨hwrap.1, hwrap.2, (vmCopySetup_wrapped hwrap.1 gla.isLt hlen hwrap.2).mp ⟨iov, u, hok⟩⟩
      · exact vmCopySetup_iff hpg fun hmode => Nat.lt_of_not_le fun hle => hwrap ⟨hmode, hle⟩
    exact ⟨vmCopySetup_room hpg hlen, copySetup_room hpg hlen, hagree,
      fun iov u hok => vmCopySetup_range hpg hlen (hagree iov u) hok⟩

/-- A machine with 16 MiB of memory. -/
def smallRam : Ram where
  lowmem := 0x1000000
  highmem := 0
  lowmem_le := by decide
  highmem_lt := by decide
  lowmem_pages := rfl
  highmem_pages := rfl

/-- A guest that has the given words in memory. -/
def guestWith (pg : GuestPaging) (words : List (Nat × Nat × Nat)) : Guest where
  regs _ := 0
  descs _ := ⟨0, 0xffffffff, 0xc093⟩
  gdtr := ⟨0, 0, 0⟩
  mem := words.foldl (fun m w => store w.1 m w.2.1 w.2.2) fun _ => 0
  pending := none
  intinfo := 0
  paging := pg

/-- Two pages of linear addresses that are not next to each other in memory. -/
def splitPaging : GuestPaging := ⟨0x4000, 3, .protectedMode, .bits32⟩

def splitGuest : Guest := guestWith splitPaging [(4, 0x4000, 0x5067), (4, 0x5004, 0x9067), (4, 0x5008, 0x3067)]

/-- The pieces that were found. -/
def foundPieces : EStateM.Result Ret Guest Iov → Option Iov
  | .ok iov _ => some iov
  | .error .. => none

theorem copies_exact_split :
    foundPieces (vmCopySetup smallRam.vm splitPaging protRead 2 0x1ffe 4 splitGuest) = some [(0x9ffe, 2), (0x3000, 2)] ∧
    CopyExact smallRam splitPaging protRead 0x1ffe 4 splitGuest := by
  refine ⟨by decide +kernel, (copies_exact smallRam splitPaging protRead 0x1ffe 4 splitGuest (fun _ => by decide)
    (by decide)).mpr ?_⟩
  rintro ⟨hflat, -⟩
  cases hflat

/-- The last byte of the 64-bit addresses, without paging. -/
theorem copies_not_exact : ¬ CopyExact smallRam ⟨0, 0, .protectedMode, .flat⟩ protRead 0xffffffffffffffff 1
    (guestWith ⟨0, 0, .protectedMode, .flat⟩ []) := by
  intro hexact
  have hsetup : ∃ iov u, vmCopySetup smallRam.vm ⟨0, 0, .protectedMode, .flat⟩ protRead 2 0xffffffffffffffff 1
      (guestWith ⟨0, 0, .protectedMode, .flat⟩ []) = .ok iov u :=
    (vmCopySetup_wrapped rfl (by decide) (by decide) (by decide)).mpr (by decide)
  obtain ⟨iov, u, hok⟩ := hsetup
  exact copySetup_wrapped rfl (by decide) (by decide) (by decide) ((hexact.agree iov u).mp hok)

end Xhyve.Vmm.TaskSwitch
