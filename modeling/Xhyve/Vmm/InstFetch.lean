import Xhyve.Vmm.DecodeOperands
import Xhyve.Vmm.GuestCopy

/-!
# Fetching an instruction of unknown length

Where the exit gives no length, `vm_handle_inst_emul` fetches as many bytes as an instruction can have. What is
fetched behind the instruction matters in two places: the bytes may be in the next page, which has to be
readable too, and `verify_gla` counts them when the operand is RIP-relative.
-/

namespace Xhyve.Vmm.InstFetch

open Xhyve.Lib Xhyve.Lib.Mem Xhyve.Lib.Fallible
open Xhyve.Vmm.PageWalk
open Xhyve.Vmm.PageWalk.Sdm (translate)
open Xhyve.Vmm.TaskSwitch
open Xhyve.Vmm.Decode (Vie VmReg vieInit vieInstSize vmmDecodeInstruction decodeFields verifyGla verifyInstLength
  vieInvalidGla decodeFields_streams ripAddress)

/-- What is read of `struct vm_exit`; `inst` are the bytes that are already in `vie`. -/
structure InstExit where
  rip : BitVec 64
  instLength : Nat
  gla : Nat
  gpa : Nat
  csBase : BitVec 64
  csD : Bool
  paging : GuestPaging
  inst : List UInt8

/-- Devices that are emulated in the kernel part. -/
inductive Device
  | lapic | ioapic | hpet
deriving DecidableEq, Repr

def device (gpa : Nat) : Option Device :=
  if 0xfee00000 ≤ gpa ∧ gpa < 0xfee00000 + 4096 then some .lapic
  else if 0xfec00000 ≤ gpa ∧ gpa < 0xfec00000 + 4096 then some .ioapic
  else if 0xfed00000 ≤ gpa ∧ gpa < 0xfed00000 + 1024 then some .hpet
  else none

def vmmFetchInstruction (vm : Vm) (paging : GuestPaging) (rip instLength : Nat) : TaskM (List UInt8) := do
  check (vieInstSize < instLength) (throw .assertion)
  let copyinfo ← vmCopySetup vm paging (protRead ||| protExecute) 2 rip instLength
  let g ← get
  return vmCopyin g.mem copyinfo instLength

/-- What `vm_handle_inst_emul` has found out when it comes to the emulation; no device means that it goes back to
userland. -/
structure Decoded where
  vie : Vie
  instLength : Nat
  nextrip : BitVec 64
  device : Option Device
deriving DecidableEq, Repr

/-- If the instruction length was not specified it is updated now along with `nextrip`. -/
def updateLength (vme : InstExit) (nextrip : BitVec 64) (vie : Vie) : Decoded :=
  if vme.instLength = 0 then ⟨vie, vie.numProcessed, nextrip + BitVec.ofNat 64 vie.numProcessed, device vme.gpa⟩
  else ⟨vie, vme.instLength, nextrip, device vme.gpa⟩

/-- `vm_handle_inst_emul` up to the emulation. It returns nothing where the bytes do not decode. -/
def vmHandleInstEmul (vmGetRegister : VmReg → Option Nat) (vm : Vm) (vme : InstExit) (nextrip : BitVec 64) :
    TaskM (Option Decoded) := do
  let inst ←
    if vme.inst = [] then
      vmmFetchInstruction vm vme.paging (vme.rip + vme.csBase).toNat
        (if vme.instLength ≠ 0 then vme.instLength else vieInstSize)
    else pure vme.inst
  let vie := vmmDecodeInstruction vmGetRegister vme.gla vme.paging.cpuMode vme.csD (vieInit inst)
  return vie.map (updateLength vme nextrip)

/-! ## Translation of two pages -/

section Pages
variable {ram : Ram} {vm : Vm} {pg : GuestPaging} {prot gla len gpa n k : Nat} {iov : Iov} {g u : Guest}

/-- Memory after the walk of an address. -/
def walked (segs : List MemSeg) (pg : GuestPaging) (prot gla : Nat) (m : Mem) : Mem :=
  marked (entrySize pg.pagingMode) (writes prot) m (translate false segs pg (gla % 2 ^ 64) (pg.cpl = 3) (writes prot) m)

theorem gla2gpa_ok (hpg : PagingOk pg) : gla2gpa vm pg gla prot g = .ok gpa u ↔
    (translate false vm.segs pg (gla % 2 ^ 64) (pg.cpl = 3) (writes prot) g.mem).outcome = .page gpa ∧
      u = { g with mem := walked vm.segs pg prot gla g.mem } := by
  have hcall : vmGla2gpa vm.segs pg (BitVec.ofNat 64 gla) prot 2 g.mem =
      some (result (pg.cpl = 3) prot (translate false vm.segs pg (gla % 2 ^ 64) (pg.cpl = 3) (writes prot) g.mem).outcome,
        walked vm.segs pg prot gla g.mem) := by
    have hmarked := @vmGla2gpa_marked vm.segs pg prot g.mem (BitVec.ofNat 64 gla) hpg 2 (Nat.le_refl 2)
    rw [BitVec.toNat_ofNat] at hmarked
    exact hmarked
  constructor
  · intro hok
    obtain ⟨hpage, -⟩ := gla2gpa_after hpg gpa u hok
    refine ⟨hpage, ?_⟩
    unfold gla2gpa at hok
    obtain ⟨g', t, hget, hrest⟩ := bind_ok_iff.mp hok
    cases hget
    rw [hcall, hpage] at hrest
    cases hrest
    rfl
  · rintro ⟨hpage, rfl⟩
    unfold gla2gpa
    rw [bind_ok_iff]
    refine ⟨g, g, rfl, ?_⟩
    rw [hcall, hpage]
    rfl

theorem vmCopySetup_one (hpg : PagingOk pg) (hlen : 0 < len) (hpage : gla % 4096 + len ≤ 4096) :
    vmCopySetup vm pg prot 2 gla len g = .ok iov u ↔
      ∃ gpa, gla2gpa vm pg gla prot g = .ok gpa u ∧ (vmGpa2hva vm.segs gpa len).isSome = true ∧ iov = [(gpa, len)] := by
  rw [vmCopySetup_cons hlen]
  constructor
  · rintro ⟨gpa, t, rest, hgpa, hback, hrest, rfl⟩
    obtain ⟨hoff, -⟩ := gla2gpa_page hpg hgpa
    have hmin : min len (4096 - gpa % 4096) = len := by omega
    rw [hmin] at hback hrest ⊢
    rw [Nat.sub_self] at hrest
    cases hrest
    exact ⟨gpa, hgpa, hback, rfl⟩
  · rintro ⟨gpa, hgpa, hback, rfl⟩
    obtain ⟨hoff, -⟩ := gla2gpa_page hpg hgpa
    have hmin : min len (4096 - gpa % 4096) = len := by omega
    refine ⟨gpa, u, [], hgpa, ?_, ?_, ?_⟩
    · rwa [hmin]
    · rw [hmin, Nat.sub_self]
      rfl
    · rw [hmin]

theorem vmCopySetup_two (hpg : PagingOk pg) (hlen : len ≤ 4096) (hcross : 4096 < gla % 4096 + len)
    (hn : n = 4096 - gla % 4096) : vmCopySetup vm pg prot 2 gla len g = .ok iov u ↔
      ∃ gpa t gpa', gla2gpa vm pg gla prot g = .ok gpa t ∧ (vmGpa2hva vm.segs gpa n).isSome = true ∧
        gla2gpa vm pg (gla + n) prot t = .ok gpa' u ∧ (vmGpa2hva vm.segs gpa' (len - n)).isSome = true ∧
        iov = [(gpa, n), (gpa', len - n)] := by
  rw [vmCopySetup_cons (by omega)]
  constructor
  · rintro ⟨gpa, t, rest, hgpa, hback, hrest, rfl⟩
    obtain ⟨hoff, -⟩ := gla2gpa_page hpg hgpa
    have hmin : min len (4096 - gpa % 4096) = n := by omega
    rw [hmin] at hback hrest ⊢
    obtain ⟨gpa', t', rest', hgpa', hback', hrest', rfl⟩ := (vmCopySetup_cons (by omega)).mp hrest
    obtain ⟨hoff', -⟩ := gla2gpa_page hpg hgpa'
    have hmin' : min (len - n) (4096 - gpa' % 4096) = len - n := by omega
    rw [hmin'] at hback' hrest' ⊢
    rw [Nat.sub_self] at hrest'
    cases hrest'
    exact ⟨gpa, t, gpa', hgpa, hback, hgpa', hback', rfl⟩
  · rintro ⟨gpa, t, gpa', hgpa, hback, hgpa', hback', rfl⟩
    obtain ⟨hoff, -⟩ := gla2gpa_page hpg hgpa
    obtain ⟨hoff', -⟩ := gla2gpa_page hpg hgpa'
    have hmin : min len (4096 - gpa % 4096) = n := by omega
    have hmin' : min (len - n) (4096 - gpa' % 4096) = len - n := by omega
    refine ⟨gpa, t, [(gpa', len - n)], hgpa, ?_, ?_, ?_⟩
    · rwa [hmin]
    · rw [hmin, vmCopySetup_cons (by omega)]
      refine ⟨gpa', u, [], hgpa', ?_, ?_, ?_⟩
      · rwa [hmin']
      · rw [hmin', Nat.sub_self]
        rfl
      · rw [hmin']
    · rw [hmin]

/-- Memory has whole pages: what is behind a piece in its page is there too. -/
theorem gpa2hva_page (hn : 0 < n) (hnk : n ≤ k) (hpage : gpa % 4096 + k ≤ 4096) (hgpa : gpa < 2 ^ 64)
    (h : (vmGpa2hva ram.segs gpa n).isSome = true) : (vmGpa2hva ram.segs gpa k).isSome = true := by
  have hlow := ram.lowmem_le
  have hhigh := ram.highmem_lt
  have hlowpages := ram.lowmem_pages
  have hhighpages := ram.highmem_pages
  by_cases htop : gpa + n < 2 ^ 64
  · rw [gpa2hva_eq_mapGpa hn htop] at h
    obtain ⟨va, hva⟩ := Option.isSome_iff_exists.mp h
    unfold mapGpa Ram.vm at hva
    dsimp only at hva
    have hfit : gpa < ram.lowmem ∧ gpa + n ≤ ram.lowmem ∨
        2 ^ 32 ≤ gpa ∧ gpa - 2 ^ 32 < ram.highmem ∧ gpa - 2 ^ 32 + n ≤ ram.highmem := by
      split_ifs at hva with hl hh
      · exact Or.inl hl
      · exact Or.inr hh
    rw [gpa2hva_eq_mapGpa (by omega) (by omega)]
    unfold mapGpa Ram.vm
    dsimp only
    split_ifs <;> first | rfl | omega
  · obtain rfl : n = k := by omega
    exact h

/-- The first bytes of a page are in memory together with its first byte. -/
theorem gpa2hva_start (hk : 0 < k) (hpage : gpa % 4096 = 0) (hle : k ≤ 4095) (hgpa : gpa < 2 ^ 64) :
    (vmGpa2hva ram.segs gpa k).isSome = true ↔ ram.holds gpa := by
  have hlow := ram.lowmem_le
  have hhigh := ram.highmem_lt
  have hlowpages := ram.lowmem_pages
  have hhighpages := ram.highmem_pages
  rw [gpa2hva_eq_mapGpa hk (by omega)]
  unfold mapGpa Ram.vm Ram.holds
  dsimp only
  split_ifs <;> simp <;> omega

theorem gla2gpa_lt (hpg : PagingOk pg) (h : gla2gpa vm pg gla prot g = .ok gpa u) : gpa < 2 ^ 64 := by
  obtain ⟨-, hpaged, hflat⟩ := gla2gpa_page hpg h
  by_cases hmode : pg.pagingMode = .flat
  · rw [hflat hmode]
    exact Nat.mod_lt _ (Nat.two_pow_pos 64)
  · have := hpaged hmode
    omega

end Pages

/-! ## The bytes that are fetched -/

theorem pieceBytes_add (m : Mem) (va a b : Nat) : pieceBytes m va (a + b) = pieceBytes m va a ++ pieceBytes m (va + a) b := by
  unfold pieceBytes
  rw [List.range_add, List.map_append, List.map_map]
  congr 1
  refine List.map_congr_left fun i _ => ?_
  rw [Function.comp_apply, Nat.add_assoc]

theorem pieceBytes_congr {m m' : Mem} {va n : Nat} : pieceBytes m' va n = pieceBytes m va n ↔
    ∀ i < n, m' (va + i) = m (va + i) := by
  unfold pieceBytes
  rw [List.map_inj_left]
  simp only [List.mem_range]

section Fetch
variable {ram : Ram} {pg : GuestPaging} {rip n : Nat} {xs ys rest : List UInt8} {g t u : Guest}

/-- The start of the page behind the one an address is in. -/
def nextPage (rip : Nat) : Nat := (rip / 4096 + 1) * 4096 % 2 ^ 64

def fetchProt : Nat := protRead ||| protExecute

/-- The walk of an address that an instruction is fetched from. -/
def fetchWalk (ram : Ram) (pg : GuestPaging) (rip : Nat) (m : Mem) : Sdm.Walk :=
  translate false ram.segs pg (rip % 2 ^ 64) (pg.cpl = 3) false m

/-- Memory after that walk. -/
def fetched (ram : Ram) (pg : GuestPaging) (rip : Nat) (m : Mem) : Mem := walked ram.segs pg fetchProt rip m

/-- The next page can be read and is in memory, and its walk sets no flag inside the instruction. -/
def NextPageFetchable (ram : Ram) (pg : GuestPaging) (rip n : Nat) (m : Mem) : Prop :=
  (∃ a, (fetchWalk ram pg (nextPage rip) m).outcome = .page a ∧ ram.holds a) ∧
  ∀ i < n, ∀ a, (fetchWalk ram pg (rip + i) m).outcome = .page a →
    fetched ram pg (nextPage rip) (fetched ram pg rip m) a = fetched ram pg rip m a

theorem vmmFetchInstruction_ok {vm : Vm} (hn : n ≤ vieInstSize) : vmmFetchInstruction vm pg rip n g = .ok xs u ↔
    ∃ iov, vmCopySetup vm pg fetchProt 2 rip n g = .ok iov u ∧ xs = vmCopyin u.mem iov n := by
  unfold vmmFetchInstruction
  rw [check_neg (by omega), bind_ok_iff]
  constructor
  · rintro ⟨⟨⟩, s, hpure, hrest⟩
    cases hpure
    obtain ⟨iov, t, hsetup, hcopy⟩ := bind_ok_iff.mp hrest
    cases hcopy
    exact ⟨iov, hsetup, rfl⟩
  · rintro ⟨iov, hsetup, rfl⟩
    exact ⟨⟨⟩, g, rfl, bind_ok_iff.mpr ⟨iov, u, hsetup, rfl⟩⟩

theorem vmCopyin_one (m : Mem) (va : Nat) {len : Nat} (hlen : 0 < len) :
    vmCopyin m [(va, len)] len = pieceBytes m va len := by
  obtain ⟨len, rfl⟩ := Nat.exists_eq_succ_of_ne_zero (Nat.ne_of_gt hlen)
  rw [vmCopyin, Nat.sub_self, vmCopyin, List.append_nil]

theorem vmCopyin_two (m : Mem) (va va' : Nat) {k len : Nat} (hlen : k < len) :
    vmCopyin m [(va, k), (va', len - k)] len = pieceBytes m va k ++ pieceBytes m va' (len - k) := by
  obtain ⟨len, rfl⟩ := Nat.exists_eq_succ_of_ne_zero (Nat.ne_zero_of_lt hlen)
  rw [vmCopyin, vmCopyin_one m va' (by omega)]

/-- One page. -/
theorem fetch_one {vm : Vm} (hpg : PagingOk pg) (hn : 0 < n) (hle : n ≤ vieInstSize) (hpage : rip % 4096 + n ≤ 4096) :
    vmmFetchInstruction vm pg rip n g = .ok xs u ↔ ∃ gpa, gla2gpa vm pg rip fetchProt g = .ok gpa u ∧
      (vmGpa2hva vm.segs gpa n).isSome = true ∧ xs = pieceBytes u.mem gpa n := by
  rw [vmmFetchInstruction_ok hle]
  constructor
  · rintro ⟨iov, hsetup, rfl⟩
    obtain ⟨gpa, hgpa, hback, rfl⟩ := (vmCopySetup_one hpg hn hpage).mp hsetup
    exact ⟨gpa, hgpa, hback, vmCopyin_one _ gpa hn⟩
  · rintro ⟨gpa, hgpa, hback, rfl⟩
    exact ⟨[(gpa, n)], (vmCopySetup_one hpg hn hpage).mpr ⟨gpa, hgpa, hback, rfl⟩, (vmCopyin_one _ gpa hn).symm⟩

/-- Two pages. -/
theorem fetch_two {vm : Vm} {k : Nat} (hpg : PagingOk pg) (hle : n ≤ vieInstSize) (hcross : 4096 < rip % 4096 + n)
    (hk : k = 4096 - rip % 4096) :
    vmmFetchInstruction vm pg rip n g = .ok xs u ↔ ∃ gpa t gpa', gla2gpa vm pg rip fetchProt g = .ok gpa t ∧
      (vmGpa2hva vm.segs gpa k).isSome = true ∧ gla2gpa vm pg (rip + k) fetchProt t = .ok gpa' u ∧
      (vmGpa2hva vm.segs gpa' (n - k)).isSome = true ∧ xs = pieceBytes u.mem gpa k ++ pieceBytes u.mem gpa' (n - k) := by
  have hsize : vieInstSize = 15 := rfl
  rw [vmmFetchInstruction_ok hle]
  constructor
  · rintro ⟨iov, hsetup, rfl⟩
    obtain ⟨gpa, t, gpa', hgpa, hback, hgpa', hback', rfl⟩ := (vmCopySetup_two hpg (by omega) hcross hk).mp hsetup
    exact ⟨gpa, t, gpa', hgpa, hback, hgpa', hback', vmCopyin_two _ gpa gpa' (by omega)⟩
  · rintro ⟨gpa, t, gpa', hgpa, hback, hgpa', hback', rfl⟩
    exact ⟨_, (vmCopySetup_two hpg (by omega) hcross hk).mpr ⟨gpa, t, gpa', hgpa, hback, hgpa', hback', rfl⟩,
      (vmCopyin_two _ gpa gpa' (by omega)).symm⟩

/-- Bytes fetched from the page the instruction ends in. -/
theorem fetch_more_inside (hpg : PagingOk pg) (hn : 0 < n) (hle : n ≤ vieInstSize)
    (hpage : rip % 4096 + vieInstSize ≤ 4096 ∨ 4096 < rip % 4096 + n)
    (hown : vmmFetchInstruction ram.vm pg rip n g = .ok xs u) :
    ∃ rest, vmmFetchInstruction ram.vm pg rip vieInstSize g = .ok (xs ++ rest) u := by
  have hsize : vieInstSize = 15 := rfl
  rcases hpage with hpage | hcross
  · obtain ⟨gpa, hgpa, hback, rfl⟩ := (fetch_one hpg hn hle (by omega)).mp hown
    obtain ⟨hoff, -⟩ := gla2gpa_page hpg hgpa
    have hall : (vmGpa2hva ram.segs gpa vieInstSize).isSome = true :=
      gpa2hva_page hn hle (by omega) (gla2gpa_lt hpg hgpa) hback
    refine ⟨pieceBytes u.mem (gpa + n) (vieInstSize - n), (fetch_one hpg (by decide) le_rfl hpage).mpr
      ⟨gpa, hgpa, hall, ?_⟩⟩
    rw [← pieceBytes_add, Nat.add_sub_cancel' hle]
  · obtain ⟨gpa, t, gpa', hgpa, hback, hgpa', hback', rfl⟩ := (fetch_two hpg hle hcross rfl).mp hown
    obtain ⟨hoff', -⟩ := gla2gpa_page hpg hgpa'
    generalize hk : 4096 - rip % 4096 = k at hback hgpa' hback' hoff' ⊢
    have hall : (vmGpa2hva ram.segs gpa' (vieInstSize - k)).isSome = true :=
      gpa2hva_page (n := n - k) (by omega) (by omega) (by omega) (gla2gpa_lt hpg hgpa') hback'
    refine ⟨pieceBytes u.mem (gpa' + (n - k)) (vieInstSize - n), (fetch_two hpg le_rfl (by omega) hk.symm).mpr
      ⟨gpa, t, gpa', hgpa, hback, hgpa', hall, ?_⟩⟩
    rw [List.append_assoc, ← pieceBytes_add]
    congr 2
    omega

/-- Bytes fetched from the next page. -/
theorem fetch_more_outside (hpg : PagingOk pg) (hn : 0 < n) (hrip : rip < 2 ^ 64) (hle : n ≤ vieInstSize)
    (hcross : 4096 < rip % 4096 + vieInstSize) (hpage : rip % 4096 + n ≤ 4096)
    (hown : vmmFetchInstruction ram.vm pg rip n g = .ok xs u) :
    (∃ rest t, vmmFetchInstruction ram.vm pg rip vieInstSize g = .ok (xs ++ rest) t) ↔
      NextPageFetchable ram pg rip n g.mem := by
  have hsize : vieInstSize = 15 := rfl
  obtain ⟨gpa, hgpa, hback, rfl⟩ := (fetch_one hpg hn hle hpage).mp hown
  obtain ⟨hoff, -⟩ := gla2gpa_page hpg hgpa
  obtain ⟨hfirst, rfl⟩ := (gla2gpa_ok hpg).mp hgpa
  have hfirst' : (fetchWalk ram pg rip g.mem).outcome = .page gpa := hfirst
  -- the walk of the first page leaves the translation of the next one as it is
  have hwalks : Walks ram.segs pg g.mem (fetched ram pg rip g.mem) := Walks.refl.walk _ _ _
  have hnext : (rip + (4096 - rip % 4096)) % 2 ^ 64 = nextPage rip % 2 ^ 64 := by
    unfold nextPage
    omega
  have hsecond : ∀ a v, gla2gpa ram.vm pg (rip + (4096 - rip % 4096)) fetchProt { g with mem := fetched ram pg rip g.mem } =
      .ok a v ↔ (fetchWalk ram pg (nextPage rip) g.mem).outcome = .page a ∧
        v = { g with mem := fetched ram pg (nextPage rip) (fetched ram pg rip g.mem) } := by
    intro a v
    have hmem : walked ram.segs pg fetchProt (rip + (4096 - rip % 4096)) (fetched ram pg rip g.mem) =
        fetched ram pg (nextPage rip) (fetched ram pg rip g.mem) := by
      unfold fetched walked
      rw [hnext]
    have hwalk := hwalks.translate (nextPage rip % 2 ^ 64) (pg.cpl = 3) false
    rw [gla2gpa_ok hpg, hnext]
    unfold fetchWalk
    rw [← hwalk]
    exact and_congr_right fun _ => by rw [← hmem]; rfl
  have hstart : ∀ a, (fetchWalk ram pg (nextPage rip) g.mem).outcome = .page a → a % 4096 = 0 ∧ a < 2 ^ 64 := by
    intro a ha
    have hok := (hsecond a _).mpr ⟨ha, rfl⟩
    obtain ⟨hoff', -⟩ := gla2gpa_page hpg hok
    exact ⟨by omega, gla2gpa_lt hpg hok⟩
  -- the bytes of the instruction are where the walk of the first page leads
  have hbytes : (∀ i < n, ∀ a, (fetchWalk ram pg (rip + i) g.mem).outcome = .page a →
      fetched ram pg (nextPage rip) (fetched ram pg rip g.mem) a = fetched ram pg rip g.mem a) ↔
      ∀ i < n, fetched ram pg (nextPage rip) (fetched ram pg rip g.mem) (gpa + i) = fetched ram pg rip g.mem (gpa + i) := by
    refine forall₂_congr fun i hi => ?_
    have hsame : (rip + i) % 2 ^ 64 / 4096 = rip % 2 ^ 64 / 4096 := by omega
    obtain ⟨a, ha, hsum⟩ := translate_samePage hsame hfirst'
    have haddr : a = gpa + i := by omega
    subst haddr
    constructor
    · exact fun hall => hall _ ha
    · intro hkeep b hb
      cases ha.symm.trans hb
      exact hkeep
  have hfirstHalf : (vmGpa2hva ram.segs gpa (4096 - rip % 4096)).isSome = true :=
    gpa2hva_page hn (by omega) (by omega) (gla2gpa_lt hpg hgpa) hback
  have hsplit : ∀ m : Mem, pieceBytes m gpa (4096 - rip % 4096) =
      pieceBytes m gpa n ++ pieceBytes m (gpa + n) (4096 - rip % 4096 - n) := by
    intro m
    rw [← pieceBytes_add, Nat.add_sub_cancel' (by omega)]
  unfold NextPageFetchable
  rw [hbytes, ← pieceBytes_congr]
  constructor
  · rintro ⟨rest, t, hall⟩
    obtain ⟨a, v, a', hva, -, hgpa', hback', heq⟩ := (fetch_two hpg le_rfl hcross rfl).mp hall
    rw [hgpa] at hva
    cases hva
    obtain ⟨hwalk, rfl⟩ := (hsecond a' t).mp hgpa'
    obtain ⟨hzero, hlt⟩ := hstart a' hwalk
    refine ⟨⟨a', hwalk, (gpa2hva_start (by omega) hzero (by omega) hlt).mp hback'⟩, ?_⟩
    rw [hsplit, List.append_assoc] at heq
    exact (List.append_inj_left heq (by rw [pieceBytes_length, pieceBytes_length])).symm
  · rintro ⟨⟨a', hwalk, hram⟩, hkeep⟩
    obtain ⟨hzero, hlt⟩ := hstart a' hwalk
    have hback' : (vmGpa2hva ram.segs a' (vieInstSize - (4096 - rip % 4096))).isSome = true :=
      (gpa2hva_start (by omega) hzero (by omega) hlt).mpr hram
    have hall : vmmFetchInstruction ram.vm pg rip vieInstSize g = .ok _ _ := (fetch_two hpg le_rfl hcross rfl).mpr
      ⟨gpa, _, a', hgpa, hfirstHalf, (hsecond a' _).mpr ⟨hwalk, rfl⟩, hback', rfl⟩
    rw [hsplit, hkeep, List.append_assoc] at hall
    exact ⟨_, _, hall⟩

/-- The fetch of the longest instruction begins with the bytes of the one that is there. -/
theorem fetch_more (hpg : PagingOk pg) (hn : 0 < n) (hrip : rip < 2 ^ 64) (hle : n ≤ vieInstSize)
    (hown : vmmFetchInstruction ram.vm pg rip n g = .ok xs u) :
    (∃ rest t, vmmFetchInstruction ram.vm pg rip vieInstSize g = .ok (xs ++ rest) t) ↔
      (rip % 4096 + vieInstSize ≤ 4096 ∨ 4096 < rip % 4096 + n) ∨ NextPageFetchable ram pg rip n g.mem := by
  by_cases hinside : rip % 4096 + vieInstSize ≤ 4096 ∨ 4096 < rip % 4096 + n
  · obtain ⟨rest, hall⟩ := fetch_more_inside hpg hn hle hinside hown
    exact iff_of_true ⟨rest, u, hall⟩ (Or.inl hinside)
  · rw [fetch_more_outside hpg hn hrip hle (by omega) (by omega) hown, or_iff_right hinside]

/-- A fetch that succeeds has changed nothing but accessed flags. -/
theorem fetch_frame {vm : Vm} (hpg : PagingOk pg) (hn : 0 < n) (hle : n ≤ vieInstSize)
    (h : vmmFetchInstruction vm pg rip n g = .ok xs u) : Walked vm pg g u := by
  by_cases hpage : rip % 4096 + n ≤ 4096
  · obtain ⟨gpa, hgpa, -⟩ := (fetch_one hpg hn hle hpage).mp h
    exact (gla2gpa_after hpg gpa u hgpa).2
  · obtain ⟨gpa, t, gpa', hgpa, -, hgpa', -⟩ := (fetch_two hpg hle (by omega) rfl).mp h
    exact (gla2gpa_after hpg gpa t hgpa).2.trans (gla2gpa_after hpg gpa' u hgpa').2

theorem fetch_length {vm : Vm} (hpg : PagingOk pg) (hn : 0 < n) (hle : n ≤ vieInstSize)
    (h : vmmFetchInstruction vm pg rip n g = .ok xs u) : xs.length = n := by
  by_cases hpage : rip % 4096 + n ≤ 4096
  · obtain ⟨gpa, -, -, rfl⟩ := (fetch_one hpg hn hle hpage).mp h
    exact pieceBytes_length gpa n
  · obtain ⟨gpa, t, gpa', -, -, -, -, rfl⟩ := (fetch_two hpg hle (by omega) rfl).mp h
    rw [List.length_append, pieceBytes_length, pieceBytes_length]
    omega

end Fetch

/-! ## Decoding the bytes -/

section DecodeMore
variable {regs : VmReg → Nat} {mode : Decode.CpuMode} {csD : Bool} {gla : Nat} {xs rest : List UInt8} {w : Vie}

/-- The address of the operand is checked, and it is RIP-relative. -/
def RipVerified (gla : Nat) (w : Vie) : Prop :=
  w.baseRegister = some .rip ∧ w.op.opFlags.noGlaVerification = false ∧ gla ≠ vieInvalidGla

/-- More bytes do not change the check of an operand that is not RIP-relative. -/
theorem verifyGla_more {f : Vie} {vmGetRegister : VmReg → Option Nat} (h : f.baseRegister ≠ some .rip) :
    verifyGla vmGetRegister gla (f.more rest) = verifyGla vmGetRegister gla f := by
  unfold verifyGla Vie.more
  cases hbase : f.baseRegister with
  | none => rfl
  | some r =>
    have hr : r ≠ .rip := fun heq => h (by rw [hbase, heq])
    simp only [if_neg hr]

/-- More bytes decode to the same instruction, unless they are counted for its operand. -/
theorem decode_more (hlen : (xs ++ rest).length ≤ vieInstSize)
    (h : vmmDecodeInstruction (fun r => some (regs r)) gla mode csD (vieInit xs) = some w) :
    vmmDecodeInstruction (fun r => some (regs r)) gla mode csD (vieInit (xs ++ rest)) = some (w.more rest) ↔
      ¬ (RipVerified gla w ∧ rest ≠ []) := by
  obtain ⟨f, hf, hlength, hgla, rfl⟩ := Decode.vmmDecodeInstruction_ok.mp h
  have hstream := decodeFields_streams mode csD
  have hmore : decodeFields mode csD (vieInit (xs ++ rest)) = some (f.more rest) := hstream.more hf rest
  have hinst : f.inst = xs := hstream.inst hf
  have hiff : vmmDecodeInstruction (fun r => some (regs r)) gla mode csD (vieInit (xs ++ rest)) =
      some ({ f with decoded := true }.more rest) ↔
      f.op.opFlags.noGlaVerification = true ∨ verifyGla (fun r => some (regs r)) gla (f.more rest) = true := by
    rw [Decode.vmmDecodeInstruction_ok]
    constructor
    · rintro ⟨f', hf', -, hgla', -⟩
      rw [hmore] at hf'
      cases hf'
      exact hgla'
    · exact fun hgla' => ⟨f.more rest, hmore, hlength, hgla', rfl⟩
  rw [hiff]
  by_cases hrip : f.baseRegister = some .rip
  · obtain ⟨hindex, haddr⟩ := Decode.decodeFields_rip hf hrip
    have hown := Decode.verifyGla_rip hrip hindex regs gla
    have hall : verifyGla (fun r => some (regs r)) gla (f.more rest) = true ↔
        gla = vieInvalidGla ∨ gla = ripAddress (regs .rip) (f.inst ++ rest).length f :=
      Decode.verifyGla_rip (w := f.more rest) hrip hindex regs gla
    rw [hinst] at hown hall
    have hinj : ripAddress (regs .rip) xs.length f = ripAddress (regs .rip) (xs ++ rest).length f ↔ rest = [] := by
      constructor
      · intro heq
        rw [List.length_append] at hlen
        have hsame := Decode.ripAddress_inj haddr (by omega) (by rw [List.length_append]; exact hlen) heq
        rw [List.length_append] at hsame
        exact List.length_eq_zero_iff.mp (by omega)
      · rintro rfl
        rw [List.append_nil]
    rw [hall]
    unfold RipVerified
    dsimp only
    by_cases hno : f.op.opFlags.noGlaVerification = true
    · exact iff_of_true (Or.inl hno) fun ⟨⟨_, hverify, _⟩, _⟩ => absurd hno (by rw [hverify]; decide)
    · have hno' : f.op.opFlags.noGlaVerification = false := Bool.eq_false_iff.mpr hno
      by_cases hinvalid : gla = vieInvalidGla
      · exact iff_of_true (Or.inr (Or.inl hinvalid)) fun ⟨⟨_, _, hvalid⟩, _⟩ => hvalid hinvalid
      · have hgla' : gla = ripAddress (regs .rip) xs.length f :=
          ((hown.mp (hgla.resolve_left hno)).resolve_left hinvalid)
        rw [or_iff_right hno, or_iff_right hinvalid, hgla', hinj]
        constructor
        · exact fun hnil hne => hne.2 hnil
        · intro hnot
          by_contra hne
          exact hnot ⟨⟨hrip, hno', hgla' ▸ hinvalid⟩, hne⟩
  · rw [verifyGla_more hrip]
    exact iff_of_true hgla fun ⟨⟨hbase, _⟩, _⟩ => hrip hbase

end DecodeMore

/-! ## Instructions of unknown length -/

/-- An instruction of `n` bytes at the address of the exit: its own bytes can be read, and they decode. -/
structure Instruction (regs : VmReg → Nat) (ram : Ram) (vme : InstExit) (g : Guest) (n : Nat) (xs : List UInt8) (w : Vie) :
    Prop where
  le : n ≤ vieInstSize
  readable : ∃ u, vmmFetchInstruction ram.vm vme.paging (vme.rip + vme.csBase).toNat n g = .ok xs u
  decodes : vmmDecodeInstruction (fun r => some (regs r)) vme.gla vme.paging.cpuMode vme.csD (vieInit xs) = some w
  length : w.numProcessed = n

/-- The instruction is decoded as it is from its own bytes, with its own length, and no fault is injected. -/
def HandledAlike (regs : VmReg → Nat) (ram : Ram) (vme : InstExit) (nextrip : BitVec 64) (g : Guest) (n : Nat) (w : Vie) :
    Prop :=
  ∃ rest t, vmHandleInstEmul (fun r => some (regs r)) ram.vm vme nextrip g =
      .ok (some ⟨w.more rest, n, nextrip + BitVec.ofNat 64 n, device vme.gpa⟩) t ∧
    Walked ram.vm vme.paging g t

/-- The bytes fetched behind the instruction are in its last page, or in a next page that can be fetched from. -/
def WindowFetchable (ram : Ram) (pg : GuestPaging) (rip n : Nat) (m : Mem) : Prop :=
  (rip % 4096 + vieInstSize ≤ 4096 ∨ 4096 < rip % 4096 + n) ∨ NextPageFetchable ram pg rip n m

section Handle
variable {regs : VmReg → Nat} {ram : Ram} {vme : InstExit} {nextrip : BitVec 64} {n : Nat} {xs : List UInt8} {w : Vie}
  {g : Guest}

/-- A run that ends with an instruction. -/
theorem vmHandleInstEmul_ok {vmGetRegister : VmReg → Option Nat} {vm : Vm} {d : Decoded} {t : Guest}
    (hlength : vme.instLength = 0) (hinst : vme.inst = []) :
    vmHandleInstEmul vmGetRegister vm vme nextrip g = .ok (some d) t ↔ ∃ ys v,
      vmmFetchInstruction vm vme.paging (vme.rip + vme.csBase).toNat vieInstSize g = .ok ys t ∧
      vmmDecodeInstruction vmGetRegister vme.gla vme.paging.cpuMode vme.csD (vieInit ys) = some v ∧
      d = ⟨v, v.numProcessed, nextrip + BitVec.ofNat 64 v.numProcessed, device vme.gpa⟩ := by
  have hupdate : ∀ v, updateLength vme nextrip v =
      ⟨v, v.numProcessed, nextrip + BitVec.ofNat 64 v.numProcessed, device vme.gpa⟩ := fun v => if_pos hlength
  unfold vmHandleInstEmul
  rw [if_pos hinst, if_neg (not_not_intro hlength), bind_ok_iff]
  constructor
  · rintro ⟨ys, u, hfetch, hrest⟩
    obtain ⟨hmap, rfl⟩ := EStateM.Result.ok.inj hrest
    obtain ⟨v, hdecode, rfl⟩ := Option.map_eq_some_iff.mp hmap
    exact ⟨ys, v, hfetch, hdecode, hupdate v⟩
  · rintro ⟨ys, v, hfetch, hdecode, rfl⟩
    refine ⟨ys, t, hfetch, congrArg (EStateM.Result.ok · t) ?_⟩
    rw [hdecode, Option.map_some, hupdate]

theorem Instruction.pos (h : Instruction regs ram vme g n xs w) : 0 < n := by
  obtain ⟨f, -, hlength, -, rfl⟩ := Decode.vmmDecodeInstruction_ok.mp h.decodes
  have hne : f.numProcessed ≠ 0 := of_decide_eq_true hlength
  have := h.length
  exact Nat.pos_of_ne_zero fun hzero => hne (this.trans hzero)

theorem decoded_inst {vmGetRegister : VmReg → Option Nat} {gla : Nat} {mode : Decode.CpuMode} {csD : Bool}
    (h : vmmDecodeInstruction vmGetRegister gla mode csD (vieInit xs) = some w) : w.inst = xs := by
  obtain ⟨f, hf, -, -, rfl⟩ := Decode.vmmDecodeInstruction_ok.mp h
  exact (decodeFields_streams mode csD).inst hf

end Handle

/-- An instruction of unknown length is decoded as from its own bytes, without a fault or an error, exactly when the
bytes behind it can be fetched and it has no RIP-relative operand that is checked with the bytes behind it
counted. -/
theorem unknown_length_handled (regs : VmReg → Nat) (ram : Ram) (vme : InstExit) (nextrip : BitVec 64) (g : Guest)
    (n : Nat) (xs : List UInt8) (w : Vie) (hpg : PagingOk vme.paging) (hlength : vme.instLength = 0)
    (hinst : vme.inst = []) (h : Instruction regs ram vme g n xs w) :
    HandledAlike regs ram vme nextrip g n w ↔
      WindowFetchable ram vme.paging (vme.rip + vme.csBase).toNat n g.mem ∧ ¬ (RipVerified vme.gla w ∧ n < vieInstSize) := by
  have hn := h.pos
  have hle := h.le
  obtain ⟨u, hown⟩ := h.readable
  have hxs := fetch_length hpg hn hle hown
  have hmore := fetch_more hpg hn (BitVec.isLt _) hle hown
  -- how much there is behind the instruction
  have hrest : ∀ rest t, vmmFetchInstruction ram.vm vme.paging (vme.rip + vme.csBase).toNat vieInstSize g =
      .ok (xs ++ rest) t → (xs ++ rest).length = vieInstSize ∧ (rest ≠ [] ↔ n < vieInstSize) := by
    intro rest t hall
    have hlen := fetch_length hpg (by decide) le_rfl hall
    refine ⟨hlen, ?_⟩
    rw [List.length_append, hxs] at hlen
    rw [← List.length_pos_iff]
    omega
  unfold WindowFetchable
  rw [← hmore]
  constructor
  · rintro ⟨rest, t, hrun, -⟩
    obtain ⟨ys, v, hall, hdecode, hd⟩ := (vmHandleInstEmul_ok hlength hinst).mp hrun
    cases hd
    have hys : ys = xs ++ rest := by
      rw [← decoded_inst hdecode, ← decoded_inst h.decodes]
      rfl
    subst hys
    obtain ⟨hlen, hiff⟩ := hrest rest t hall
    refine ⟨⟨rest, t, hall⟩, ?_⟩
    rw [← hiff]
    exact (decode_more (Nat.le_of_eq hlen) h.decodes).mp hdecode
  · rintro ⟨⟨rest, t, hall⟩, hrip⟩
    obtain ⟨hlen, hiff⟩ := hrest rest t hall
    rw [← hiff] at hrip
    refine ⟨rest, t, (vmHandleInstEmul_ok hlength hinst).mpr ⟨xs ++ rest, w.more rest, hall, ?_, ?_⟩, ?_⟩
    · exact (decode_more (Nat.le_of_eq hlen) h.decodes).mpr hrip
    · rw [← h.length]
      rfl
    · exact fetch_frame hpg (by decide) le_rfl hall

/-- A page of code, `mov eax, [ebx]` in it and at its end, and no page behind it. -/
def codeGuest : Guest := guestWith splitPaging [(4, 0x4000, 0x5067), (4, 0x5004, 0x9067), (2, 0x9100, 0x038b), (2, 0x9ffe, 0x038b)]

/-- The instruction at `rip` accesses the local APIC. -/
def codeExit (rip : BitVec 64) : InstExit := ⟨rip, 0, 0xfee00020, 0xfee00020, 0, true, splitPaging, []⟩

def codeRegs : VmReg → Nat := fun _ => 0xfee00020

/-- The bytes that were fetched. -/
def fetchedBytes : EStateM.Result Ret Guest (List UInt8) → Option (List UInt8)
  | .ok xs _ => some xs
  | .error .. => none

theorem codeExit_instruction {rip : BitVec 64}
    (h : fetchedBytes (vmmFetchInstruction smallRam.vm splitPaging (rip + 0).toNat 2 codeGuest) = some [0x8b, 0x03]) :
    ∃ w, Instruction codeRegs smallRam (codeExit rip) codeGuest 2 [0x8b, 0x03] w ∧ w.baseRegister ≠ some .rip := by
  have hdecode : (vmmDecodeInstruction (fun r => some (codeRegs r)) 0xfee00020 .protectedMode true
      (vieInit [0x8b, 0x03])).map (fun w => (w.numProcessed, w.baseRegister)) = some (2, some .rbx) := by
    decide +kernel
  obtain ⟨w, hw, hfields⟩ := Option.map_eq_some_iff.mp hdecode
  obtain ⟨hnum, hbase⟩ := Prod.mk.inj hfields
  refine ⟨w, ⟨by decide, ?_, hw, hnum⟩, by rw [hbase]; decide⟩
  show ∃ u, vmmFetchInstruction smallRam.vm splitPaging (rip + 0).toNat 2 codeGuest = .ok _ u
  cases hfetch : vmmFetchInstruction smallRam.vm splitPaging (rip + 0).toNat 2 codeGuest with
  | ok xs u =>
    rw [hfetch] at h
    cases h
    exact ⟨u, rfl⟩
  | error e u =>
    rw [hfetch] at h
    cases h

/-- In the middle of the page. -/
theorem unknown_length_handled_inside : ∃ w, Instruction codeRegs smallRam (codeExit 0x1100) codeGuest 2 [0x8b, 0x03] w ∧
    HandledAlike codeRegs smallRam (codeExit 0x1100) 0x1100 codeGuest 2 w := by
  have hfetch : fetchedBytes (vmmFetchInstruction smallRam.vm splitPaging ((0x1100 : BitVec 64) + 0).toNat 2 codeGuest) =
      some [0x8b, 0x03] := by
    decide +kernel
  obtain ⟨w, hw, hbase⟩ := codeExit_instruction hfetch
  refine ⟨w, hw, (unknown_length_handled codeRegs smallRam (codeExit 0x1100) 0x1100 codeGuest 2 [0x8b, 0x03] w
    (fun _ => by decide) rfl rfl hw).mpr ⟨Or.inl (Or.inl (by decide)), ?_⟩⟩
  rintro ⟨⟨hrip, -⟩, -⟩
  exact hbase hrip

/-- At the end of the page: the fetch of the bytes behind it faults. -/
theorem unknown_length_faults : ∃ w, Instruction codeRegs smallRam (codeExit 0x1ffe) codeGuest 2 [0x8b, 0x03] w ∧
    ¬ HandledAlike codeRegs smallRam (codeExit 0x1ffe) 0x1ffe codeGuest 2 w := by
  have hfetch : fetchedBytes (vmmFetchInstruction smallRam.vm splitPaging ((0x1ffe : BitVec 64) + 0).toNat 2 codeGuest) =
      some [0x8b, 0x03] := by
    decide +kernel
  have hnone : fetchedBytes (vmmFetchInstruction smallRam.vm splitPaging ((0x1ffe : BitVec 64) + 0).toNat vieInstSize
      codeGuest) = none := by
    decide +kernel
  obtain ⟨w, hw, -⟩ := codeExit_instruction hfetch
  refine ⟨w, hw, ?_⟩
  rintro ⟨rest, t, hrun, -⟩
  obtain ⟨ys, v, hall, -, -⟩ := (vmHandleInstEmul_ok rfl rfl).mp hrun
  have hsome : fetchedBytes (vmmFetchInstruction smallRam.vm splitPaging ((0x1ffe : BitVec 64) + 0).toNat vieInstSize
      codeGuest) = some ys := congrArg fetchedBytes hall
  rw [hnone] at hsome
  cases hsome

end Xhyve.Vmm.InstFetch
