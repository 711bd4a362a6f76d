import Xhyve.Vmm.TaskSwitchMemory

/-!
# A task left and entered again

A JMP writes the old task's registers into its TSS, clears its busy bit and sets the new one's. When the
new task jumps back, what was written is read again.
-/

namespace Xhyve.Vmm.TaskSwitch

open Xhyve.Lib Xhyve.Lib.Mem Xhyve.Lib.Fallible
open Xhyve.Vmm.PageWalk
open Xhyve.Vmm.PageWalk.Sdm (translate)

/-! ## Places -/

/-- The guest-physical address of each byte of a buffer that can be written. -/
def place (vm : Vm) (pg : GuestPaging) (m : Mem) (gla len i : Nat) : Nat :=
  iovAddr ((window vm (sup pg) true m 2 gla len).getD []) i

/-- The bytes of the running task's TSS. -/
def tssAt (vm : Vm) (x : TaskExit) (g : Guest) : Nat → Nat :=
  place vm x.paging g.mem (g.descs .tr).base 104

/-- The bytes of a descriptor of the GDT. -/
def descAt (vm : Vm) (x : TaskExit) (g : Guest) (sel : Nat) : Nat → Nat :=
  place vm x.paging g.mem (g.gdtr.base + selStart sel) 8

/-- The descriptor in memory. -/
def wordAt (m : Mem) (addr : Nat → Nat) : Nat := load 8 (fun i => m (addr i)) 0

/-- What a switch writes and the tables it walks are apart. -/
structure Apart (vm : Vm) (x : TaskExit) (g : Guest) (tables : Set Nat) : Prop where
  walked : Tables vm.segs (sup x.paging) g.mem tables
  tss : ∀ i < 104, tssAt vm x g i ∉ tables
  old : ∀ i < 8, descAt vm x g (trSel g) i ∉ tables
  new : ∀ i < 8, descAt vm x g x.tsssel i ∉ tables
  tss_old : ∀ i < 104, ∀ j < 8, tssAt vm x g i ≠ descAt vm x g (trSel g) j
  tss_new : ∀ i < 104, ∀ j < 8, tssAt vm x g i ≠ descAt vm x g x.tsssel j
  old_new : ∀ i < 8, ∀ j < 8, descAt vm x g (trSel g) i ≠ descAt vm x g x.tsssel j

section Places
variable {vm : Vm} {pg : GuestPaging} {m m' : Mem} {gla len : Nat} {iov : Iov}
  {addr addr' : Nat → Nat}

theorem place_eq (h : window vm (sup pg) true m 2 gla len = some iov) :
    place vm pg m gla len = iovAddr iov := by
  funext i
  rw [place, h, Option.getD_some]

theorem wordAt_congr (h : ∀ i < 8, m' (addr' i) = m (addr i)) : wordAt m' addr' = wordAt m addr :=
  load_congr fun i hi => by
    rw [Nat.zero_add]
    exact h i hi

theorem wordAt_lt (m : Mem) (addr : Nat → Nat) : wordAt m addr < 256 ^ 8 := load_lt 8 _ 0

/-- A word that is written is there. -/
theorem wordAt_copyout {usd : Nat} (husd : usd < 256 ^ 8) (hlen : iovLen iov = 8) (hspread : Spread iov)
    (m : Mem) : wordAt (copyoutMem m iov (store 8 (fun _ => 0) 0 usd)) (iovAddr iov) = usd := by
  have hbytes : wordAt (copyoutMem m iov (store 8 (fun _ => 0) 0 usd)) (iovAddr iov) =
      load 8 (store 8 (fun _ => 0) 0 usd) 0 := by
    refine load_congr fun i hi => ?_
    rw [Nat.zero_add]
    exact copyoutMem_inside hspread (by omega)
  rw [hbytes, load_store husd]

end Places

/-! ## What the parts of a switch do to memory -/

/-- Memory has changed, but in the page tables only flags. -/
structure Within (pg : GuestPaging) (tables : Set Nat) (g t : Guest) : Prop where
  rest : t = { g with mem := t.mem }
  bits : SameBitsOn (entrySize pg.pagingMode) tables g.mem t.mem

/-- Page tables have been walked. -/
structure Still (pg : GuestPaging) (tables : Set Nat) (t u : Guest) : Prop extends
    Within pg tables t u where
  outside : ∀ a ∉ tables, u.mem a = t.mem a

section Parts
variable {vm : Vm} {pg : GuestPaging} {x : TaskExit} {tables : Set Nat} {g t u v : Guest}
  {gla len prot sel : Nat}

theorem Within.trans (h : Within pg tables g t) (h' : Within pg tables t u) : Within pg tables g u where
  rest := by rw [h'.rest, h.rest]
  bits := h.bits.trans h'.bits

theorem Still.refl (pg : GuestPaging) (tables : Set Nat) (g : Guest) : Still pg tables g g where
  rest := rfl
  bits _ _ _ _ := rfl
  outside _ _ := rfl

theorem Still.trans (h : Still pg tables t u) (h' : Still pg tables u v) : Still pg tables t v where
  toWithin := h.toWithin.trans h'.toWithin
  outside a ha := (h'.outside a ha).trans (h.outside a ha)

theorem Within.write (h : Within pg tables g t) (iov : Iov) (buf : Mem)
    (hout : ∀ i < iovLen iov, iovAddr iov i ∉ tables) :
    Within pg tables g { t with mem := copyoutMem t.mem iov buf } where
  rest := by rw [h.rest]
  bits := by
    intro a ha i hi
    have hkept : copyoutMem t.mem iov buf a = t.mem a :=
      copyoutMem_outside fun j hj heq => hout j hj (heq ▸ ha)
    change (copyoutMem t.mem iov buf a).toNat.testBit i = _
    rw [hkept]
    exact h.bits a ha i hi

/-- A word outside the tables is not changed by walks. -/
theorem Still.wordAt (h : Still pg tables t u) {addr : Nat → Nat} (hout : ∀ i < 8, addr i ∉ tables) :
    wordAt u.mem addr = wordAt t.mem addr :=
  wordAt_congr fun i hi => h.outside _ (hout i hi)

theorem copySetup_at (hpg : PagingOk x.paging) (ht : Tables vm.segs (sup x.paging) g.mem tables)
    (h : Within x.paging tables g t) : After (copySetup vm (sup x.paging) prot 2 gla len)
      (fun iov u => window vm (sup x.paging) (writes prot) g.mem 2 gla len = some iov ∧
        Still x.paging tables t u) t := by
  refine (copySetup_after (pagingOk_sup hpg)).mono fun iov u hu => ?_
  obtain ⟨hwindow, m, rfl, hm⟩ := hu
  rw [window_congr (ht.same t.mem h.bits)] at hwindow
  exact ⟨hwindow, ⟨rfl, hm.sameBitsOn tables⟩, fun a ha => (ht.of_sameBitsOn h.bits).walks hm ha⟩

theorem descTableSetup_at (hpg : PagingOk x.paging) (ht : Tables vm.segs (sup x.paging) g.mem tables)
    (h : Within x.paging tables g t) (hsel : GdtSel sel) : After (descTableSetup vm (sup x.paging) sel prot)
      (fun iov u => window vm (sup x.paging) (writes prot) g.mem 2 (g.gdtr.base + selStart sel) 8 =
        some iov ∧ Still x.paging tables t u) t := by
  refine After.bind_get (After.check_bind (fun _ => After.throw) fun _ => ?_)
  have hgdt : (descTable t sel).base = g.gdtr.base := by rw [descTable_gdt hsel, h.rest]
  rw [hgdt]
  exact copySetup_at hpg ht h

theorem readTssDescriptor_at (hp : Promised x g) (ht : Tables vm.segs (sup x.paging) g.mem tables)
    (h : Within x.paging tables g t) (hsel : GdtSel sel) : After (readTssDescriptor vm x sel)
      (fun desc u => Still x.paging tables t u ∧
        ∃ iov, window vm (sup x.paging) false g.mem 2 (g.gdtr.base + selStart sel) 8 = some iov ∧
          desc = wordAt u.mem (iovAddr iov)) t := by
  refine After.bind_get (After.check_bind (fun _ => After.throw) fun _ => ?_)
  refine After.check_bind (fun _ => after_inject _ _) fun _ => ?_
  have hpaging : t.paging = x.paging := by rw [h.rest, ← hp.paging]
  rw [hpaging]
  refine After.bind (descTableSetup_at hp.cr3 ht h hsel) fun iov u hu => ?_
  exact After.bind_get (After.pure ⟨hu.2, iov, hu.1, rfl⟩)

/-- A descriptor read from memory. -/
def Reads (vm : Vm) (x : TaskExit) (g : Guest) (tables : Set Nat) (sel desc : Nat) : Prop :=
  ∃ iov, window vm (sup x.paging) false g.mem 2 (g.gdtr.base + selStart sel) 8 = some iov ∧
    ((∀ i < 8, iovAddr iov i ∉ tables) → desc = wordAt g.mem (iovAddr iov))

/-- An image of a TSS read from memory. -/
def Image (vm : Vm) (x : TaskExit) (g : Guest) (tables : Set Nat) (base size : Nat) (tss : Mem)
    (iov : Iov) : Prop :=
  window vm (sup x.paging) true g.mem 2 base size = some iov ∧
    ∀ i, iovAddr iov i ∉ tables → tss i = g.mem (iovAddr iov i)

theorem fetchNew_at (hp : Promised x g) (ht : Tables vm.segs (sup x.paging) g.mem tables) :
    After (fetchNew vm x) (fun nt t => Still x.paging tables g t ∧ Reads vm x g tables x.tsssel nt.desc ∧
      unfitTss x (usdToSegDesc nt.desc) = none ∧ nt.type = segDescType (usdToSegDesc nt.desc).access ∧
      Image vm x g tables (usdToSegDesc nt.desc).base (tssSize nt.type) nt.tss nt.iov) g := by
  refine After.bind (readTssDescriptor_at hp ht (Still.refl x.paging tables g).toWithin hp.tss) fun desc t h => ?_
  obtain ⟨hstill, iovd, hwindow, hdesc⟩ := h
  cases hfit : unfitTss x (usdToSegDesc desc) with
  | some vector => exact after_inject _ _
  | none =>
    refine After.bind (copySetup_at hp.cr3 ht hstill.toWithin) fun iov u hu => ?_
    obtain ⟨hiov, hstill'⟩ := hu
    have hall := hstill.trans hstill'
    refine After.bind_get (After.pure ⟨hall, ⟨iovd, hwindow, ?_⟩, hfit, rfl, hiov, ?_⟩)
    · exact fun hout => hdesc.trans (hstill.wordAt hout)
    · exact fun i hi => hall.outside _ hi

theorem fetchOld_at (hp : Promised x g) (ht : Tables vm.segs (sup x.paging) g.mem tables)
    (h : Still x.paging tables g t) (nt : NewTask) :
    After (fetchOld vm x nt) (fun ot u => Still x.paging tables g u ∧ GdtSel (trSel g) ∧ ot.sel = trSel g ∧
      Reads vm x g tables (trSel g) ot.desc ∧
      Image vm x g tables (g.descs .tr).base (tssSize nt.type) ot.tss ot.iov) t := by
  have hsel : t.regs (.sel .tr) % 2 ^ 16 = trSel g := by rw [h.rest, trSel]
  have htr : t.descs .tr = g.descs .tr := by rw [h.rest]
  refine After.bind_get ?_
  simp only [hsel, htr]
  refine After.check_bind (fun _ => after_inject _ _) fun hgdt => ?_
  refine After.check_bind (fun _ => After.throw) fun _ => ?_
  rw [hsel] at hgdt
  refine After.bind (readTssDescriptor_at hp ht h.toWithin hgdt) fun desc u hu => ?_
  obtain ⟨hstill, iovd, hwindow, hdesc⟩ := hu
  have hread := h.trans hstill
  refine After.bind (copySetup_at hp.cr3 ht hread.toWithin) fun iov v hv => ?_
  obtain ⟨hiov, hstill'⟩ := hv
  have hall := hread.trans hstill'
  refine After.bind_get (After.pure ⟨hall, hgdt, rfl, ⟨iovd, hwindow, ?_⟩, hiov, ?_⟩)
  · exact fun hout => hdesc.trans (hread.wordAt hout)
  · exact fun i hi => hall.outside _ hi

/-- A descriptor is written where the tables place it. -/
theorem descTableWrite_at (hp : Promised x g) (ht : Tables vm.segs (sup x.paging) g.mem tables)
    (h : Within x.paging tables g t) (hsel : GdtSel sel) (usd : Nat) :
    After (descTableWrite vm (sup x.paging) sel usd) (fun _ v => ∃ iov u,
      window vm (sup x.paging) true g.mem 2 (g.gdtr.base + selStart sel) 8 = some iov ∧
        Still x.paging tables t u ∧
        v = { u with mem := copyoutMem u.mem iov (store 8 (fun _ => 0) 0 usd) }) t := by
  refine After.bind (descTableSetup_at hp.cr3 ht h hsel) fun iov u hu => ?_
  exact After.modify ⟨iov, u, hu.1, hu.2, rfl⟩

end Parts

/-! ## Leaving the old task -/

/-- The instruction pointer a switch saves. -/
def savedEip (x : TaskExit) : Nat := (x.rip + x.instLength) % 2 ^ 32

/-- What is known when a JMP has left the old task. -/
structure Left (vm : Vm) (x : TaskExit) (g : Guest) (tables : Set Nat) (nt : NewTask) (t : Guest) :
    Prop extends Within x.paging tables g t where
  desc : nt.desc = wordAt g.mem (descAt vm x g x.tsssel)
  fits : unfitTss x (usdToSegDesc nt.desc) = none
  image : ∀ i, place vm x.paging g.mem (usdToSegDesc nt.desc).base 104 i ∉ tables →
    nt.tss i = g.mem (place vm x.paging g.mem (usdToSegDesc nt.desc).base 104 i)
  saved : ∀ i < 104, t.mem (tssAt vm x g i) =
    tssSaved g x (savedEip x) (fun i => g.mem (tssAt vm x g i)) i
  old : wordAt t.mem (descAt vm x g (trSel g)) = clearBusy (wordAt g.mem (descAt vm x g (trSel g)))
  new : wordAt t.mem (descAt vm x g x.tsssel) = setBusy (wordAt g.mem (descAt vm x g x.tsssel))

theorem clearBusy_lt (usd : Nat) : clearBusy usd < 256 ^ 8 :=
  lt_of_le_of_lt Nat.and_le_right (by decide)

theorem setBusy_lt {usd : Nat} (h : usd < 256 ^ 8) : setBusy usd < 256 ^ 8 := by
  have hpow : (256 : Nat) ^ 8 = 2 ^ 64 := by decide
  rw [hpow] at h ⊢
  exact Nat.or_lt_two_pow h (by decide)

theorem store_congr {n a v i : Nat} {m m' : Mem} (h : m i = m' i) : store n m a v i = store n m' a v i := by
  simp only [store, h]

/-- What is saved at a place depends on what was there. -/
theorem tssSaved_congr {g t : Guest} (hregs : t.regs = g.regs) (x : TaskExit) (eip : Nat) {tss tss' : Mem}
    {i : Nat} (h : tss i = tss' i) : tssSaved t x eip tss i = tssSaved g x eip tss' i := by
  simp only [tssSaved, tssGprs, tssSels, List.foldl_cons, List.foldl_nil, hregs]
  iterate 16 refine store_congr ?_
  exact h

theorem is386_of_fits {x : TaskExit} {sd : SegDesc} (hfit : unfitTss x sd = none)
    (h286 : is286 (segDescType sd.access) = false) : is386 (segDescType sd.access) = true := by
  by_contra h386
  rw [unfitTss, if_pos (by simp [h286, Bool.eq_false_iff.2 h386])] at hfit
  cases hfit

section Leave
variable {vm : Vm} {x : TaskExit} {tables : Set Nat} {g : Guest}

/-- A descriptor that is written is the one that was read. -/
theorem Reads.eq {sel desc : Nat} {iov : Iov} (h : Reads vm x g tables sel desc)
    (hwindow : window vm (sup x.paging) true g.mem 2 (g.gdtr.base + selStart sel) 8 = some iov)
    (hout : ∀ i < 8, descAt vm x g sel i ∉ tables) : desc = wordAt g.mem (descAt vm x g sel) := by
  obtain ⟨iov', hread, hdesc⟩ := h
  rw [window_read hwindow] at hread
  have hplace : descAt vm x g sel = iovAddr iov := place_eq hwindow
  rw [hplace] at hout ⊢
  rw [← Option.some.inj hread] at hdesc
  exact hdesc hout

theorem leaveOld_at (hp : Promised x g) (hjmp : x.reason = .jmp) (ha : Apart vm x g tables) :
    After (leaveOld vm x) (fun p t => Left vm x g tables p.1 t) g := by
  refine After.check_bind (fun _ => After.throw) fun _ => ?_
  refine After.bind (fetchNew_at hp ha.walked) fun nt t₁ hnew => ?_
  obtain ⟨hstill₁, hnt, hfit, htype, hntimage⟩ := hnew
  refine After.bind (fetchOld_at hp ha.walked hstill₁ nt) fun ot t₂ hold => ?_
  obtain ⟨hstill₂, hgdt, hotsel, hot, hotwindow, hotimage⟩ := hold
  -- the busy bit of the old task
  rw [saveOld, check_pos (Or.inr hjmp), hotsel, bind_assoc]
  refine After.bind (descTableWrite_at hp ha.walked hstill₂.toWithin hgdt _) fun _ t₃ hclear => ?_
  obtain ⟨iovO, u, hwindowO, hstill₃, rfl⟩ := hclear
  rw [bind_assoc]
  refine After.check_bind (fun _ => After.throw) fun h286 => ?_
  have h386 : is386 nt.type = true := by
    rw [htype] at h286 ⊢
    exact is386_of_fits hfit (Bool.eq_false_iff.2 h286)
  have hsize : tssSize nt.type = 104 := by rw [tssSize, if_pos h386]
  rw [hsize] at hotwindow
  obtain ⟨hlenO, hspreadO⟩ := window_spread (by decide) hwindowO
  obtain ⟨hlenT, hspreadT⟩ := window_spread (by decide) hotwindow
  have hO : descAt vm x g (trSel g) = iovAddr iovO := place_eq hwindowO
  have hT : tssAt vm x g = iovAddr ot.iov := place_eq hotwindow
  have hclear := (hstill₂.trans hstill₃).toWithin.write iovO
    (store 8 (fun _ => 0) 0 (clearBusy ot.desc)) fun i hi => hO ▸ ha.old i (hlenO ▸ hi)
  -- the old TSS
  rw [tss32Save, bind_assoc]
  refine After.bind_get (After.bind (Q := fun _ t => t = _) (After.modify rfl) fun _ t₄ hsave => ?_)
  have hsaved := hclear.write ot.iov (tssSaved
      { u with mem := copyoutMem u.mem iovO (store 8 (fun _ => 0) 0 (clearBusy ot.desc)) } x
      (savedEip x) ot.tss) fun i hi => hT ▸ ha.tss i (hlenT ▸ hi)
  -- the busy bit of the new task
  rw [markNew, check_pos (by rw [hjmp]; decide), hsave]
  refine After.bind (descTableWrite_at hp ha.walked hsaved hp.tss _) fun _ t₅ hset => ?_
  obtain ⟨iovN, w, hwindowN, hstill₅, rfl⟩ := hset
  obtain ⟨hlenN, hspreadN⟩ := window_spread (by decide) hwindowN
  have hN : descAt vm x g x.tsssel = iovAddr iovN := place_eq hwindowN
  have hotdesc := hot.eq hwindowO ha.old
  have hntdesc := hnt.eq hwindowN ha.new
  -- each write leaves the others' bytes alone
  have hnotN : ∀ (buf : Mem) (a : Nat), (∀ j < 8, a ≠ descAt vm x g x.tsssel j) →
      copyoutMem w.mem iovN buf a = w.mem a := by
    intro buf a h
    refine copyoutMem_outside fun j hj heq => ?_
    rw [hlenN] at hj
    exact h j hj (by rw [hN, heq])
  refine After.pure ⟨?_, hntdesc, hfit, ?_, ?_, ?_, ?_⟩
  · exact (hsaved.trans hstill₅.toWithin).write iovN _ fun i hi => hN ▸ ha.new i (hlenN ▸ hi)
  · rw [hsize] at hntimage
    rw [place_eq hntimage.1]
    exact hntimage.2
  · intro i hi
    have hregs : u.regs = g.regs := by rw [(hstill₂.trans hstill₃).rest]
    have hbyte := hotimage i (by rw [← hT]; exact ha.tss i hi)
    change copyoutMem w.mem iovN _ (tssAt vm x g i) = _
    rw [hnotN _ _ (ha.tss_new i hi), hstill₅.outside _ (ha.tss i hi), hT]
    refine (copyoutMem_inside hspreadT (hlenT.symm ▸ hi)).trans ?_
    exact tssSaved_congr hregs x _ hbyte
  · have hmark : wordAt (copyoutMem u.mem iovO (store 8 (fun _ => 0) 0 (clearBusy ot.desc)))
        (descAt vm x g (trSel g)) = clearBusy ot.desc := by
      rw [hO]
      exact wordAt_copyout (clearBusy_lt _) hlenO hspreadO _
    rw [← hotdesc, ← hmark, wordAt_congr fun i hi => hnotN _ _ (ha.old_new i hi),
      hstill₅.wordAt ha.old]
    refine wordAt_congr fun i hi => copyoutMem_outside fun j hj heq => ?_
    rw [hlenT] at hj
    exact ha.tss_old j hj i hi (by rw [hT, heq])
  · rw [← hntdesc, hN]
    exact wordAt_copyout (setBusy_lt (hntdesc ▸ wordAt_lt _ _)) hlenN hspreadN _

end Leave

/-! ## Entering the new task -/

/-- Segments have been loaded: the registers are the same and page tables have been walked. -/
structure Settled (vm : Vm) (s t : Guest) : Prop where
  regs : t.regs = s.regs
  paging : sup t.paging = sup s.paging
  walks : Walks vm.segs (sup s.paging) s.mem t.mem

/-- What the registers hold once a JMP has entered the new task. -/
structure Entered (vm : Vm) (nt : NewTask) (s t : Guest) : Prop where
  rflags : t.regs .rflags = load 4 nt.tss tssEflags
  rip : t.regs .rip = load 4 nt.tss tssEip
  gprs : ∀ f ∈ tssGprs, t.regs f.1 = load 4 nt.tss f.2
  sels : ∀ f ∈ tssSels, t.regs (.sel f.1) = load 2 nt.tss f.2
  ldtr : t.regs (.sel .ldtr) = load 2 nt.tss tssLdt
  cr3 : t.regs .cr3 = if s.paging.pagingMode = .flat then s.regs .cr3 else load 4 nt.tss tssCr3
  walks : Walks vm.segs (sup t.paging) s.mem t.mem

section Enter
variable {vm : Vm} {x : TaskExit} {s t u : Guest} {seg : Seg}

theorem Settled.refl (vm : Vm) (s : Guest) : Settled vm s s := ⟨rfl, rfl, .refl⟩

theorem Settled.trans (h : Settled vm s t) (h' : Settled vm t u) : Settled vm s u where
  regs := h'.regs.trans h.regs
  paging := h'.paging.trans h.paging
  walks := h.walks.trans (h.paging ▸ h'.walks)

theorem Settled.pagingOk (h : Settled vm s t) (hs : PagingOk s.paging) : PagingOk t.paging := by
  have hsup : PagingOk (sup t.paging) := h.paging ▸ hs
  exact hsup

theorem Walked.settled (h : Walked vm (sup s.paging) s t) : Settled vm s t := by
  obtain ⟨m, rfl, hm⟩ := h
  exact ⟨rfl, rfl, hm⟩

theorem descTableRead_after {sel : Nat} (hs : PagingOk s.paging) :
    After (descTableRead vm (sup s.paging) sel) (fun _ t => Walked vm (sup s.paging) s t) s := by
  refine After.bind ?_ fun iov t ht => After.bind_get (After.pure ht)
  refine After.bind_get (After.check_bind (fun _ => After.throw) fun _ => ?_)
  exact (copySetup_after (pagingOk_sup hs)).mono fun _ _ h => h.2

theorem validateSegDesc_after (hs : PagingOk s.paging) :
    After (validateSegDesc vm x seg) (fun _ t => Settled vm s t) s := by
  unfold validateSegDesc
  cases seg.kind with
  | none => exact After.throw
  | some kind =>
    refine After.bind_get (After.check_bind (fun _ => after_inject _ _) fun _ => ?_)
    by_cases hnull : idxsel (s.regs (.sel seg) % 2 ^ 16) = 0
    · rw [if_pos hnull]
      exact After.pure (.refl vm s)
    · rw [if_neg hnull]
      refine After.bind (descTableRead_after hs) fun usd t ht => ?_
      exact After.check_bind (fun _ => after_inject _ _) fun _ => After.pure ht.settled

theorem updateSegDesc_after {sd : SegDesc} (h : Settled vm s t) :
    After (updateSegDesc seg sd) (fun _ u => Settled vm s u) t :=
  After.modify ⟨h.regs, h.paging, h.walks⟩

theorem loadSeg_after (hs : PagingOk s.paging) (h : Settled vm s t) :
    After (loadSeg vm x seg) (fun _ u => Settled vm s u) t :=
  After.bind (validateSegDesc_after (h.pagingOk hs)) fun _ _ hu => updateSegDesc_after (h.trans hu)

theorem restoreSegs_after (hs : PagingOk s.paging) (tss : Mem) :
    After (restoreSegs vm x tss) (fun _ t => Settled vm s t) s := by
  refine After.bind (loadSeg_after hs (.refl vm s)) fun _ t₁ h₁ => ?_
  refine After.bind (validateSegDesc_after (h₁.pagingOk hs)) fun cs t₂ h₂ => ?_
  have h₂' := h₁.trans h₂
  refine After.bind (validateSegDesc_after (h₂'.pagingOk hs)) fun ss t₃ h₃ => ?_
  refine After.bind (updateSegDesc_after (h₂'.trans h₃)) fun _ t₄ h₄ => ?_
  refine After.bind (updateSegDesc_after h₄) fun _ t₅ h₅ => ?_
  refine After.bind (Q := fun _ t => Settled vm s t) (After.modify ⟨h₅.regs, h₅.paging, h₅.walks⟩)
    fun _ t₆ h₆ => ?_
  refine After.bind (loadSeg_after hs h₆) fun _ t₇ h₇ => ?_
  refine After.bind (loadSeg_after hs h₇) fun _ t₈ h₈ => ?_
  exact After.bind (loadSeg_after hs h₈) fun _ t₉ h₉ => loadSeg_after hs h₉

/-- Memory, paging, CR3 and LDTR have not changed. -/
structure Idle (s t : Guest) : Prop where
  mem : t.mem = s.mem
  paging : t.paging = s.paging
  cr3 : t.regs .cr3 = s.regs .cr3
  ldtr : t.regs (.sel .ldtr) = s.regs (.sel .ldtr)

theorem restorePdptes_after {cr3 : Nat} : After (restorePdptes vm cr3) (fun _ t => Idle s t) s := by
  unfold restorePdptes
  cases mapGpa vm (cr3 &&& 0xffffffe0) 32 with
  | none => exact After.throw
  | some va =>
    refine After.bind_get (After.check_bind (fun _ => after_inject _ _) fun _ => ?_)
    refine fun a t h => ((Spec.forM (P := Idle s) (E := fun _ _ => True) fun i => ?_) s ?_).1 a t h
    · exact Spec.modify fun t ht => ⟨ht.mem, ht.paging, ht.cr3, ht.ldtr⟩
    · exact ⟨rfl, rfl, rfl, rfl⟩

theorem restoreCr3_after {cr3 : Nat} (hcr3 : cr3 < 2 ^ 32) (hs : PagingOk s.paging) :
    After (restoreCr3 vm cr3) (fun _ t => t.mem = s.mem ∧ PagingOk t.paging ∧
      t.regs .cr3 = (if s.paging.pagingMode = .flat then s.regs .cr3 else cr3) ∧
      t.regs (.sel .ldtr) = s.regs (.sel .ldtr)) s := by
  refine After.bind_get (After.bind (Q := fun _ t => Idle s t) ?_ fun _ t ht => ?_)
  · by_cases hpae : s.paging.pagingMode = .pae
    · rw [check_pos hpae]
      exact restorePdptes_after
    · rw [check_neg hpae]
      exact After.pure ⟨rfl, rfl, rfl, rfl⟩
  · by_cases hflat : s.paging.pagingMode = .flat
    · rw [check_neg (not_not.2 hflat), if_pos hflat]
      exact After.pure ⟨ht.mem, ht.paging ▸ hs, ht.cr3, ht.ldtr⟩
    · rw [check_pos hflat, if_neg hflat]
      refine After.bind (Q := fun _ u => u = _) (After.modify rfl) fun _ u hu => After.modify ?_
      rw [hu]
      refine ⟨ht.mem, fun _ => ?_, Function.update_self Reg.cr3 cr3 t.regs, ht.ldtr⟩
      change (BitVec.ofNat 64 cr3).toNat < 2 ^ 32
      rw [BitVec.toNat_ofNat]
      omega

theorem forM_setreg {α : Type} (l : List α) (r : α → Reg) (v : α → Nat) (s : Guest) :
    After (l.forM fun f => setreg (r f) (v f)) (fun _ t => t = { s with
      regs := l.foldl (fun regs f => Function.update regs (r f) (v f)) s.regs }) s := by
  induction l generalizing s with
  | nil => exact After.pure rfl
  | cons f l ih =>
    exact After.bind (Q := fun _ t => t = { s with regs := Function.update s.regs (r f) (v f) })
      (After.modify rfl) fun _ t ht => ht ▸ ih _

theorem restoreRegs_after (hlink : nested x = false) (tss : Mem) :
    After (restoreRegs x tss) (fun _ t => t.mem = s.mem ∧ t.paging = s.paging ∧
      t.regs .rflags = load 4 tss tssEflags ∧ t.regs .rip = load 4 tss tssEip ∧
      (∀ f ∈ tssGprs, t.regs f.1 = load 4 tss f.2) ∧
      (∀ f ∈ tssSels, t.regs (.sel f.1) = load 2 tss f.2) ∧
      t.regs (.sel .ldtr) = s.regs (.sel .ldtr) ∧ t.regs .cr3 = s.regs .cr3) s := by
  rw [restoreRegs, hlink]
  refine After.bind (Q := fun _ t => t = _) (After.modify rfl) fun _ t₁ h₁ => ?_
  refine After.bind (Q := fun _ t => t = _) (After.modify rfl) fun _ t₂ h₂ => ?_
  refine After.bind (forM_setreg tssGprs Prod.fst (fun f => load 4 tss f.2) t₂) fun _ t₃ h₃ => ?_
  refine (forM_setreg tssSels (fun f => .sel f.1) (fun f => load 2 tss f.2) t₃).mono fun _ t₄ h₄ => ?_
  rw [h₄, h₃, h₂, h₁]
  refine ⟨rfl, rfl, ?_, ?_, ?_, ?_, ?_, ?_⟩ <;> simp [tssGprs, tssSels, Function.update]

theorem commit_after (nt : NewTask) : After (commit x nt) (fun _ t => Idle s t) s := by
  intro a t h
  cases h
  exact ⟨rfl, rfl, rfl, rfl⟩

theorem tss32Restore_after (hlink : nested x = false) (hs : PagingOk s.paging) (nt : NewTask)
    (otSel : Nat) : After (tss32Restore vm x otSel nt.tss nt.iov) (fun _ t => Entered vm nt s t) s := by
  simp only [tss32Restore, tss32Linked, hlink, Bool.false_eq_true, if_false, check]
  refine After.bind (Q := fun _ t => t.mem = s.mem ∧ t.paging = s.paging ∧ t.regs .cr3 = s.regs .cr3 ∧
    t.regs (.sel .ldtr) = load 2 nt.tss tssLdt) (After.modify ⟨rfl, rfl, rfl, rfl⟩) fun _ t₁ h₁ => ?_
  obtain ⟨hmem₁, hpaging₁, hcr3₁, hldtr₁⟩ := h₁
  refine After.bind (restoreCr3_after (load_lt 4 _ _) (hpaging₁ ▸ hs)) fun _ t₂ h₂ => ?_
  obtain ⟨hmem₂, hok₂, hcr3₂, hldtr₂⟩ := h₂
  refine After.bind (restoreRegs_after hlink nt.tss) fun _ t₃ h₃ => ?_
  obtain ⟨hmem₃, hpaging₃, hrflags, hrip, hgprs, hsels, hldtr₃, hcr3₃⟩ := h₃
  rw [pure_bind]
  refine (restoreSegs_after (hpaging₃ ▸ hok₂) nt.tss).mono fun _ t h => ?_
  rw [hpaging₁, hcr3₁] at hcr3₂
  have hmem : t₃.mem = s.mem := hmem₃.trans (hmem₂.trans hmem₁)
  exact
    { rflags := by rw [h.regs, hrflags]
      rip := by rw [h.regs, hrip]
      gprs := fun f hf => by rw [h.regs, hgprs f hf]
      sels := fun f hf => by rw [h.regs, hsels f hf]
      ldtr := by rw [h.regs, hldtr₃, hldtr₂, hldtr₁]
      cr3 := by rw [h.regs, hcr3₃, hcr3₂]
      walks := by rw [h.paging, ← hmem]; exact h.walks }

theorem enterNew_after (hjmp : x.reason = .jmp) (hs : PagingOk s.paging) (nt : NewTask) (ot : OldTask) :
    After (enterNew vm x nt ot) (fun _ t => Entered vm nt s t) s := by
  have hlink : nested x = false := by rw [nested, hjmp]; rfl
  refine After.bind (commit_after nt) fun _ t₁ h₁ => ?_
  refine After.bind (tss32Restore_after hlink (h₁.paging ▸ hs) nt ot.sel) fun _ t₂ h₂ => ?_
  refine After.check_bind (fun _ => ?_) fun _ => ?_
  · -- a JMP pushes no error code
    refine After.check_bind (fun _ => After.throw) fun hno => ?_
    rw [hjmp] at hno
    simp at hno
  · rw [check_neg (by rw [hjmp]; decide)]
    refine After.pure { h₂ with cr3 := ?_, walks := ?_ }
    · rw [h₂.cr3, h₁.paging, h₁.cr3]
    · rw [← h₁.mem]
      exact h₂.walks

end Enter

/-! ## The saved image -/

section Saved
variable {g : Guest} {x : TaskExit} {eip : Nat} {tss image : Mem}

theorem load_store_mod (n : Nat) (m : Mem) (a v : Nat) :
    load n (store n m a (v % 2 ^ (8 * n))) a = v % 2 ^ (8 * n) := by
  refine load_store (lt_of_lt_of_eq (Nat.mod_lt v (Nat.two_pow_pos _)) ?_)
  rw [Nat.pow_mul]

theorem tssSaved_jmp (hjmp : x.reason = .jmp) : tssSaved g x eip tss =
    store 4 (store 4
      (tssSels.foldl (fun tss f => store 2 tss f.2 (g.regs (.sel f.1) % 2 ^ 16))
        (tssGprs.foldl (fun tss f => store 4 tss f.2 (g.regs f.1 % 2 ^ 32)) tss))
      tssEflags (g.regs .rflags % 2 ^ 32)) tssEip eip := by
  simp only [tssSaved, hjmp, reduceCtorEq, if_false]

/-- What is restored from an image that was saved. -/
structure Restorable (g : Guest) (eip : Nat) (tss image : Mem) : Prop where
  gprs : ∀ f ∈ tssGprs, load 4 image f.2 = g.regs f.1 % 2 ^ 32
  sels : ∀ f ∈ tssSels, load 2 image f.2 = g.regs (.sel f.1) % 2 ^ 16
  eflags : load 4 image tssEflags = g.regs .rflags % 2 ^ 32
  eip : load 4 image tssEip = eip
  ldt : load 2 image tssLdt = load 2 tss tssLdt
  cr3 : load 4 image tssCr3 = load 4 tss tssCr3

theorem restorable_saved (hjmp : x.reason = .jmp) (heip : eip < 2 ^ 32)
    (h : ∀ i < 104, image i = tssSaved g x eip tss i) : Restorable g eip tss image := by
  have hload : ∀ n a, a + n ≤ 104 → load n image a = load n (tssSaved g x eip tss) a :=
    fun n a hle => load_congr fun i hi => h (a + i) (by omega)
  have h4 : ∀ m a v, load 4 (store 4 m a (v % 2 ^ 32)) a = v % 2 ^ 32 := load_store_mod 4
  have h2 : ∀ m a v, load 2 (store 2 m a (v % 2 ^ 16)) a = v % 2 ^ 16 := load_store_mod 2
  rw [tssSaved_jmp hjmp] at hload
  refine ⟨?_, ?_, ?_, ?_, ?_, ?_⟩
  · intro f hf
    rw [hload 4 f.2 (by revert f; decide)]
    simp only [tssGprs, List.mem_cons, List.not_mem_nil, or_false] at hf
    rcases hf with rfl | rfl | rfl | rfl | rfl | rfl | rfl | rfl <;>
      simp (disch := decide) only [tssGprs, tssSels, List.foldl_cons, List.foldl_nil, tssEip,
        tssEflags, load_store_of_disjoint, h4]
  · intro f hf
    rw [hload 2 f.2 (by revert f; decide)]
    simp only [tssSels, List.mem_cons, List.not_mem_nil, or_false] at hf
    rcases hf with rfl | rfl | rfl | rfl | rfl | rfl <;>
      simp (disch := decide) only [tssGprs, tssSels, List.foldl_cons, List.foldl_nil, tssEip,
        tssEflags, load_store_of_disjoint, h2]
  · rw [hload 4 tssEflags (by decide)]
    simp (disch := decide) only [tssEip, tssEflags, load_store_of_disjoint, h4]
  · rw [hload 4 tssEip (by decide)]
    exact load_store heip
  · rw [hload 2 tssLdt (by decide)]
    simp (disch := decide) only [tssGprs, tssSels, List.foldl_cons, List.foldl_nil, tssEip,
      tssEflags, tssLdt, load_store_of_disjoint]
  · rw [hload 4 tssCr3 (by decide)]
    simp (disch := decide) only [tssGprs, tssSels, List.foldl_cons, List.foldl_nil, tssEip,
      tssEflags, tssCr3, load_store_of_disjoint]

end Saved

/-! ## Busy bits -/

theorem field_clearBusy {lo width : Nat} (hfit : lo + width ≤ 64) (hout : 41 < lo ∨ lo + width ≤ 41)
    (usd : Nat) : field lo width (clearBusy usd) = field lo width usd := by
  have hmask : ∀ j < 64, j ≠ 41 → (2 ^ 64 - 1 - 2 ^ 41).testBit j = true := by decide
  refine Nat.eq_of_testBit_eq fun i => ?_
  simp only [field, clearBusy, Nat.testBit_mod_two_pow, Nat.testBit_shiftRight, Nat.testBit_and]
  by_cases hi : i < width
  · rw [hmask (lo + i) (by omega) (by omega), Bool.and_true]
  · simp [hi]

theorem clearBusy_base (usd : Nat) : (usdToSegDesc (clearBusy usd)).base = (usdToSegDesc usd).base := by
  simp only [usdToSegDesc, sdLobase, sdHibase]
  rw [field_clearBusy (by decide) (by decide), field_clearBusy (by decide) (by decide)]

/-- The task of the descriptor is busy. -/
theorem tssBusy_sdType (usd : Nat) : tssBusy (sdType usd) = usd.testBit 41 := by
  have hbit : (sdType usd).testBit 1 = usd.testBit 41 := by
    rw [sdType, field, Nat.testBit_mod_two_pow, Nat.testBit_shiftRight, decide_eq_true (by decide),
      Bool.true_and]
  have h := and_two_pow_eq_zero (sdType usd) 1
  rw [hbit] at h
  rw [tssBusy]
  cases hb : usd.testBit 41 with
  | false => exact decide_eq_false fun hne => hne (h.2 hb)
  | true =>
    refine decide_eq_true fun hzero => ?_
    cases hb.symm.trans (h.1 hzero)

/-- `usd_to_seg_desc` keeps the type. -/
theorem segDescType_usd (usd : Nat) : segDescType (usdToSegDesc usd).access = sdType usd := by
  have hshift : ∀ v k, 5 ≤ k → (v <<< k) % 2 ^ 5 = 0 := by
    intro v k hk
    rw [Nat.shiftLeft_eq]
    exact Nat.mod_eq_zero_of_dvd ((Nat.pow_dvd_pow 2 hk).mul_left v)
  have hmask : ∀ v, v &&& 0x1f = v % 2 ^ 5 := fun v => Nat.and_two_pow_sub_one_eq_mod v 5
  simp only [segDescType, usdToSegDesc, hmask, Nat.or_mod_two_pow]
  rw [hshift _ 5 (by decide), hshift _ 7 (by decide), hshift _ 12 (by decide),
    hshift _ 14 (by decide), hshift _ 15 (by decide)]
  simp only [Nat.or_zero]
  exact Nat.mod_mod _ _

/-- A JMP goes to a task that is not busy. -/
theorem tssBusy_of_fits {x : TaskExit} {usd : Nat} (hjmp : x.reason = .jmp)
    (hfit : unfitTss x (usdToSegDesc usd) = none) : tssBusy (sdType usd) = false := by
  rw [← segDescType_usd]
  by_contra hbusy
  rw [Bool.not_eq_false] at hbusy
  simp only [unfitTss, hjmp, hbusy] at hfit
  split_ifs at hfit
  simp_all

theorem tssBusy_clearBusy (usd : Nat) : tssBusy (sdType (clearBusy usd)) = false := by
  have hmask : (2 ^ 64 - 1 - 2 ^ 41 : Nat).testBit 41 = false := by decide
  rw [tssBusy_sdType, clearBusy, Nat.testBit_and, hmask, Bool.and_false]

theorem tssBusy_setBusy (usd : Nat) : tssBusy (sdType (setBusy usd)) = true := by
  rw [tssBusy_sdType, setBusy, Nat.testBit_or, Nat.testBit_two_pow_self, Bool.or_true]

/-- Walks do not change the busy bit of a descriptor. -/
theorem SameBits.tssBusy {m m' : Mem} (h : SameBits m m') (addr : Nat → Nat) :
    tssBusy (sdType (wordAt m' addr)) = tssBusy (sdType (wordAt m addr)) := by
  have hbyte : ∀ m : Mem, (wordAt m addr).testBit 41 = (m (addr 5)).toNat.testBit 1 := by
    intro m
    have hload := load_byte (n := 8) (m := fun i => m (addr i)) (a := 0) (i := 5) (by decide)
    change _ = (m (addr (0 + 5))).toNat.testBit 1
    rw [← hload, wordAt]
    change _ = (load 8 (fun i => m (addr i)) 0 / 2 ^ 40 % 2 ^ 8).testBit 1
    rw [Nat.testBit_mod_two_pow, Nat.testBit_div_two_pow]
    rfl
  rw [tssBusy_sdType, tssBusy_sdType, hbyte, hbyte]
  exact h _ 1 (by decide) (by decide)

/-! ## There and back -/

/-- A JMP that reaches its end. -/
structure Jump (vm : Vm) (x : TaskExit) (g g' : Guest) : Prop where
  promised : Promised x g
  jmp : x.reason = .jmp
  run : taskSwitch vm x g = .ok ⟨⟩ g'

/-- The fields of the TSS that no switch writes hold the running task's LDT selector and CR3, and the
task register is loaded from the descriptor. -/
structure Current (vm : Vm) (x : TaskExit) (g : Guest) : Prop where
  ldt : load 2 (fun i => g.mem (tssAt vm x g i)) tssLdt = g.regs (.sel .ldtr)
  cr3 : load 4 (fun i => g.mem (tssAt vm x g i)) tssCr3 = g.regs .cr3
  base : (usdToSegDesc (wordAt g.mem (descAt vm x g (trSel g)))).base = (g.descs .tr).base

/-- The second task jumps back to the first and has left it alone: its TSS and both descriptors are
where they were, and the TSS and the descriptor of the first task as the first switch left them. -/
structure Untouched (vm : Vm) (x₁ : TaskExit) (g₀ g₁ : Guest) (x₂ : TaskExit) (g₂ : Guest) : Prop where
  back : x₂.tsssel = trSel g₀
  task : trSel g₂ = x₁.tsssel
  tss_place : ∀ i < 104, place vm x₂.paging g₂.mem (g₀.descs .tr).base 104 i = tssAt vm x₁ g₀ i
  old_place : ∀ i < 8, descAt vm x₂ g₂ (trSel g₀) i = descAt vm x₁ g₀ (trSel g₀) i
  new_place : ∀ i < 8, descAt vm x₂ g₂ x₁.tsssel i = descAt vm x₁ g₀ x₁.tsssel i
  tss : ∀ i < 104, g₂.mem (tssAt vm x₁ g₀ i) = g₁.mem (tssAt vm x₁ g₀ i)
  desc : ∀ i < 8, g₂.mem (descAt vm x₁ g₀ (trSel g₀) i) = g₁.mem (descAt vm x₁ g₀ (trSel g₀) i)

theorem Untouched.of_mem {vm : Vm} {x₁ x₂ : TaskExit} {g₀ g₁ g₂ : Guest} (hmem : g₂.mem = g₁.mem)
    (hback : x₂.tsssel = trSel g₀) (htask : trSel g₂ = x₁.tsssel)
    (htss : ∀ i < 104, place vm x₂.paging g₂.mem (g₀.descs .tr).base 104 i = tssAt vm x₁ g₀ i)
    (hold : ∀ i < 8, descAt vm x₂ g₂ (trSel g₀) i = descAt vm x₁ g₀ (trSel g₀) i)
    (hnew : ∀ i < 8, descAt vm x₂ g₂ x₁.tsssel i = descAt vm x₁ g₀ x₁.tsssel i) :
    Untouched vm x₁ g₀ g₁ x₂ g₂ :=
  ⟨hback, htask, htss, hold, hnew, fun _ _ => by rw [hmem], fun _ _ => by rw [hmem]⟩

/-- A task is left and, with what belongs to it untouched, jumped back to. -/
structure RoundTrip (vm : Vm) (x₁ : TaskExit) (g₀ g₁ : Guest) (x₂ : TaskExit) (g₂ g₃ : Guest) : Prop where
  out : Jump vm x₁ g₀ g₁
  current : Current vm x₁ g₀
  kept : Untouched vm x₁ g₀ g₁ x₂ g₂
  back : Jump vm x₂ g₂ g₃

/-- The first task runs again: its registers and its place in the GDT are as they were. With paging
off, CR3 is not loaded. -/
structure Returned (vm : Vm) (x₁ : TaskExit) (g₀ : Guest) (x₂ : TaskExit) (g₂ g₃ : Guest) : Prop where
  gprs : ∀ f ∈ tssGprs, g₃.regs f.1 = g₀.regs f.1 % 2 ^ 32
  rflags : g₃.regs .rflags = g₀.regs .rflags % 2 ^ 32
  rip : g₃.regs .rip = (x₁.rip + x₁.instLength) % 2 ^ 32
  sels : ∀ f ∈ tssSels, g₃.regs (.sel f.1) = g₀.regs (.sel f.1) % 2 ^ 16
  ldtr : g₃.regs (.sel .ldtr) = g₀.regs (.sel .ldtr)
  cr3 : g₃.regs .cr3 = if x₂.paging.pagingMode = .flat then g₂.regs .cr3 else g₀.regs .cr3
  busy : tssBusy (sdType (wordAt g₃.mem (descAt vm x₁ g₀ (trSel g₀)))) = true
  available : tssBusy (sdType (wordAt g₃.mem (descAt vm x₁ g₀ x₁.tsssel))) = false
  /-- As it was. -/
  before : tssBusy (sdType (wordAt g₀.mem (descAt vm x₁ g₀ x₁.tsssel))) = false

section Back
variable {vm : Vm} {x x₁ x₂ : TaskExit} {g g' g₀ g₁ g₂ g₃ t : Guest} {nt : NewTask} {tables : Set Nat}

/-- A jump leaves the old task and enters the new one. -/
theorem Jump.parts (h : Jump vm x g g') (ha : Apart vm x g tables) :
    ∃ nt t, Left vm x g tables nt t ∧ Entered vm nt t g' := by
  obtain ⟨p, t, hleave, henter⟩ := bind_ok_iff.1 h.run
  have hleft := leaveOld_at h.promised h.jmp ha p t hleave
  have hpaging : t.paging = x.paging := by rw [hleft.rest, ← h.promised.paging]
  exact ⟨p.1, t, hleft, enterNew_after h.jmp (hpaging ▸ h.promised.cr3) p.1 p.2 ⟨⟩ g' henter⟩

/-- Entering a task changes nothing outside the tables of the new CR3. -/
theorem Entered.outside (h : Entered vm nt t g') (ht : Tables vm.segs (sup g'.paging) g'.mem tables)
    {a : Nat} (ha : a ∉ tables) : g'.mem a = t.mem a := by
  have hback := (h.walks.sameBitsOn tables).symm
  exact (ht.of_sameBitsOn hback).walks h.walks ha

/-- In the tables, a jump changes flags only. -/
theorem Jump.kept (h : Jump vm x g g') (ha : Apart vm x g tables)
    (hmode : g'.paging.pagingMode = x.paging.pagingMode) :
    SameBitsOn (entrySize x.paging.pagingMode) tables g.mem g'.mem := by
  obtain ⟨nt, t, hleft, hentered⟩ := h.parts ha
  have hwalks := hentered.walks.sameBitsOn tables
  change SameBitsOn (entrySize g'.paging.pagingMode) tables t.mem g'.mem at hwalks
  rw [hmode] at hwalks
  exact hleft.bits.trans hwalks

/-- What the first switch leaves of the first task. -/
theorem Jump.saved (h : Jump vm x₁ g₀ g₁) (ha : Apart vm x₁ g₀ tables)
    (ht : Tables vm.segs (sup g₁.paging) g₁.mem tables) :
    (∀ i < 104, g₁.mem (tssAt vm x₁ g₀ i) =
      tssSaved g₀ x₁ (savedEip x₁) (fun i => g₀.mem (tssAt vm x₁ g₀ i)) i) ∧
    wordAt g₁.mem (descAt vm x₁ g₀ (trSel g₀)) =
      clearBusy (wordAt g₀.mem (descAt vm x₁ g₀ (trSel g₀))) := by
  obtain ⟨nt, t, hleft, hentered⟩ := h.parts ha
  refine ⟨fun i hi => ?_, ?_⟩
  · rw [hentered.outside ht (ha.tss i hi)]
    exact hleft.saved i hi
  · rw [← hleft.old]
    exact wordAt_congr fun i hi => hentered.outside ht (ha.old i hi)

/-- The image the second switch restores is the one the first switch saved. -/
theorem Left.restorable (h : Left vm x₂ g₂ tables nt t) (h₁ : Jump vm x₁ g₀ g₁)
    (ha : Apart vm x₁ g₀ tables) (ht : Tables vm.segs (sup g₁.paging) g₁.mem tables)
    (hcur : Current vm x₁ g₀) (hkept : Untouched vm x₁ g₀ g₁ x₂ g₂) :
    Restorable g₀ (savedEip x₁) (fun i => g₀.mem (tssAt vm x₁ g₀ i)) nt.tss := by
  obtain ⟨hsaved, hclear⟩ := h₁.saved ha ht
  have hdesc : nt.desc = clearBusy (wordAt g₀.mem (descAt vm x₁ g₀ (trSel g₀))) := by
    rw [h.desc, hkept.back, ← hclear]
    refine wordAt_congr fun i hi => ?_
    rw [hkept.old_place i hi, hkept.desc i hi]
  have hbase : (usdToSegDesc nt.desc).base = (g₀.descs .tr).base := by
    rw [hdesc, clearBusy_base, hcur.base]
  have himage := h.image
  rw [hbase] at himage
  refine restorable_saved h₁.jmp (Nat.mod_lt _ (by decide)) fun i hi => ?_
  rw [himage i (by rw [hkept.tss_place i hi]; exact ha.tss i hi), hkept.tss_place i hi,
    hkept.tss i hi, hsaved i hi]

/-- A task that is left by a JMP and jumped back to runs on where it was, if what the switches write is
apart from each other and from the page tables. -/
theorem task_switch_back (vm : Vm) (x₁ x₂ : TaskExit) (g₀ g₁ g₂ g₃ : Guest) (tables : Set Nat)
    (h : RoundTrip vm x₁ g₀ g₁ x₂ g₂ g₃) (ha₁ : Apart vm x₁ g₀ tables)
    (ht : Tables vm.segs (sup g₁.paging) g₁.mem tables) (ha₂ : Apart vm x₂ g₂ tables) :
    Returned vm x₁ g₀ x₂ g₂ g₃ := by
  obtain ⟨h₁, hcur, hkept, h₂⟩ := h
  obtain ⟨nt, t, hleft, hentered⟩ := h₂.parts ha₂
  have himage := hleft.restorable h₁ ha₁ ht hcur hkept
  have hbits := hentered.walks.sameBits
  have hpaging : t.paging = x₂.paging := by rw [hleft.rest, ← h₂.promised.paging]
  have hcr3 : t.regs .cr3 = g₂.regs .cr3 := by rw [hleft.rest]
  exact
    { gprs := fun f hf => (hentered.gprs f hf).trans (himage.gprs f hf)
      rflags := hentered.rflags.trans himage.eflags
      rip := hentered.rip.trans himage.eip
      sels := fun f hf => (hentered.sels f hf).trans (himage.sels f hf)
      ldtr := hentered.ldtr.trans (himage.ldt.trans hcur.ldt)
      cr3 := by rw [hentered.cr3, hpaging, hcr3, himage.cr3, hcur.cr3]
      busy := by
        have hword : wordAt t.mem (descAt vm x₁ g₀ (trSel g₀)) =
            wordAt t.mem (descAt vm x₂ g₂ x₂.tsssel) := by
          rw [hkept.back]
          exact wordAt_congr fun i hi => by rw [hkept.old_place i hi]
        rw [hbits.tssBusy, hword, hleft.new, tssBusy_setBusy]
      available := by
        have hword : wordAt t.mem (descAt vm x₁ g₀ x₁.tsssel) =
            wordAt t.mem (descAt vm x₂ g₂ (trSel g₂)) := by
          rw [hkept.task]
          exact wordAt_congr fun i hi => by rw [hkept.new_place i hi]
        rw [hbits.tssBusy, hword, hleft.old, tssBusy_clearBusy]
      before := by
        obtain ⟨nt₁, t₁, hleft₁, -⟩ := h₁.parts ha₁
        rw [← hleft₁.desc]
        exact tssBusy_of_fits h₁.jmp hleft₁.fits }

end Back

/-! ## Two tasks -/

def directoryPaging : GuestPaging := ⟨0x4000, 0, .protectedMode, .bits32⟩
def noPaging : GuestPaging := ⟨0, 0, .protectedMode, .flat⟩

def jumpTo (pg : GuestPaging) (sel : Nat) : TaskExit := ⟨sel, false, 0, false, .jmp, pg, 0x400, 5⟩

/-- Two tasks, the first running with its TSS at `tss`, the second with its TSS at 0x3000. -/
def twoTasks (pg : GuestPaging) (eax gdt tss : Nat) (words : List (Nat × Nat × Nat)) : Guest where
  regs
    | .sel .tr => 0x18
    | .sel .cs => 0x8
    | .sel .ldtr => 0
    | .sel _ => 0x10
    | .rax => eax
    | .rflags => 0x202
    | .cr3 => pg.cr3.toNat
    | _ => 0
  descs
    | .tr => ⟨tss, 0x67, 0x8b⟩
    | _ => ⟨0, 0xffffffff, 0xc093⟩
  gdtr := ⟨gdt, 0xffff, 0⟩
  mem :=
    let common : List (Nat × Nat × Nat) := [(8, 0x1008, 0x00cf9a000000ffff),
      (8, 0x1010, 0x00cf92000000ffff), (8, 0x1018, 0x00008b0000000067 ||| tss <<< 16),
      (8, 0x1020, 0x0000890030000067), (4, tss + 0x1c, pg.cr3.toNat), (4, 0x301c, pg.cr3.toNat),
      (4, 0x3024, 0x2), (2, 0x3048, 0x10), (2, 0x304c, 0x8), (2, 0x3050, 0x10), (2, 0x3054, 0x10),
      (2, 0x3058, 0x10), (2, 0x305c, 0x10)]
    (common ++ words).foldl (fun m w => store w.1 m w.2.1 w.2.2) fun _ => 0
  pending := none
  intinfo := 0
  paging := pg

/-- The guest behind a jump. -/
def jumped (pg : GuestPaging) (sel : Nat) (g : Guest) : Guest :=
  (vmexitTaskSwitch pagedVm (jumpTo pg sel) g).2

def reachesEnd (r : EStateM.Result Ret Guest PUnit) : Bool :=
  match r with
  | .ok .. => true
  | .error .. => false

/-- The jump is promised what it relies on and reaches its end. -/
def jumps (pg : GuestPaging) (sel : Nat) (g : Guest) : Bool :=
  pg.cpuMode = .protectedMode ∧ pg.cr3.toNat < 2 ^ 32 ∧ ¬ (isldt sel ∨ idxsel sel = 0) ∧
    trLoaded (g.descs .tr).access ∧ g.paging = pg ∧ g.pending = none ∧
    reachesEnd (taskSwitch pagedVm (jumpTo pg sel) g)

theorem jump_of_jumps {pg : GuestPaging} {sel : Nat} {g : Guest} (h : jumps pg sel g = true) :
    Jump pagedVm (jumpTo pg sel) g (jumped pg sel g) := by
  obtain ⟨hmode, hcr3, hsel, htr, hpaging, hpending, hrun⟩ := of_decide_eq_true h
  refine ⟨⟨hmode, hsel, htr, fun he => (by cases he), hpending, fun _ => hcr3, hpaging⟩, rfl, ?_⟩
  unfold jumped vmexitTaskSwitch
  cases htask : taskSwitch pagedVm (jumpTo pg sel) g with
  | ok a g' => rfl
  | error r g' =>
    rw [htask] at hrun
    cases hrun

/-- Two tasks under one page directory. -/
def pagedTasks : Guest := twoTasks directoryPaging 0x12345678 0x1000 0x2000 [(4, 0x4000, 0xe3)]

section PagedTasks
variable {x : TaskExit} {g : Guest} {gla len tss old new : Nat}

/-- The page of the directory. -/
def directory : Set Nat := {a | 0x4000 ≤ a ∧ a < 0x4000 + 4096}

theorem tables_pagedTasks : Tables pagedVm.segs (sup directoryPaging) pagedTasks.mem directory := by
  refine tables_directory rfl rfl (by decide) fun i hi => ?_
  by_cases h0 : i = 0
  · rw [h0]
    decide +kernel
  · have hzero : load 4 pagedTasks.mem (0x4000 + 4 * i) = load 4 (fun _ => 0) (0x4000 + 4 * i) := by
      simp (disch := omega) only [pagedTasks, twoTasks, List.cons_append, List.nil_append,
        List.foldl_cons, List.foldl_nil, load_store_of_disjoint]
    rw [hzero]
    change largePde (load 4 (fun _ => 0) 0) = true
    decide

theorem place_pagedTasks
    (h : window pagedVm (sup directoryPaging) true pagedTasks.mem 2 gla len = some [(gla, len)])
    (hg : SameBitsOn 4 directory pagedTasks.mem g.mem) :
    ∀ i < len, place pagedVm directoryPaging g.mem gla len i = gla + i := by
  intro i hi
  rw [place, window_congr (tables_pagedTasks.same g.mem hg), h, Option.getD_some, iovAddr_first hi]

theorem apart_directory (hwalked : Tables pagedVm.segs (sup x.paging) g.mem directory)
    (htss : ∀ i < 104, tssAt pagedVm x g i = tss + i)
    (hold : ∀ i < 8, descAt pagedVm x g (trSel g) i = old + i)
    (hnew : ∀ i < 8, descAt pagedVm x g x.tsssel i = new + i)
    (hdescs : old + 8 ≤ new ∨ new + 8 ≤ old) (hleft : old + 8 ≤ tss ∧ new + 8 ≤ tss)
    (hright : tss + 104 ≤ 0x4000) : Apart pagedVm x g directory where
  walked := hwalked
  tss i hi := by
    rw [htss i hi]
    exact fun h => by have := h.1; omega
  old i hi := by
    rw [hold i hi]
    exact fun h => by have := h.1; omega
  new i hi := by
    rw [hnew i hi]
    exact fun h => by have := h.1; omega
  tss_old i hi j hj := by
    rw [htss i hi, hold j hj]
    omega
  tss_new i hi j hj := by
    rw [htss i hi, hnew j hj]
    omega
  old_new i hi j hj := by
    rw [hold i hi, hnew j hj]
    omega

end PagedTasks

/-- The second task changes a register and jumps back. -/
def pagedTasksBack : Guest :=
  { jumped directoryPaging 0x20 pagedTasks with
    regs := Function.update (jumped directoryPaging 0x20 pagedTasks).regs .rax 7 }

/-- EAX of the first task is there again. -/
theorem task_switch_back_paged :
    (jumped directoryPaging 0x18 pagedTasksBack).regs .rax = 0x12345678 ∧
    Returned pagedVm (jumpTo directoryPaging 0x20) pagedTasks (jumpTo directoryPaging 0x18)
      pagedTasksBack (jumped directoryPaging 0x18 pagedTasksBack) := by
  have hout : Jump pagedVm (jumpTo directoryPaging 0x20) pagedTasks
      (jumped directoryPaging 0x20 pagedTasks) := jump_of_jumps (by decide +kernel)
  have hback : Jump pagedVm (jumpTo directoryPaging 0x18) pagedTasksBack
      (jumped directoryPaging 0x18 pagedTasksBack) := jump_of_jumps (by decide +kernel)
  have hA : window pagedVm (sup directoryPaging) true pagedTasks.mem 2 0x2000 104 =
      some [(0x2000, 104)] := by decide +kernel
  have hB : window pagedVm (sup directoryPaging) true pagedTasks.mem 2 0x3000 104 =
      some [(0x3000, 104)] := by decide +kernel
  have hdescA : window pagedVm (sup directoryPaging) true pagedTasks.mem 2 0x1018 8 =
      some [(0x1018, 8)] := by decide +kernel
  have hdescB : window pagedVm (sup directoryPaging) true pagedTasks.mem 2 0x1020 8 =
      some [(0x1020, 8)] := by decide +kernel
  have hrefl : SameBitsOn 4 directory pagedTasks.mem pagedTasks.mem := fun _ _ _ _ => rfl
  have ha₁ : Apart pagedVm (jumpTo directoryPaging 0x20) pagedTasks directory :=
    apart_directory tables_pagedTasks (place_pagedTasks hA hrefl) (place_pagedTasks hdescA hrefl)
      (place_pagedTasks hdescB hrefl) (by decide) (by decide) (by decide)
  have hpaging : (jumped directoryPaging 0x20 pagedTasks).paging = directoryPaging := by decide +kernel
  have hkept : SameBitsOn 4 directory pagedTasks.mem (jumped directoryPaging 0x20 pagedTasks).mem :=
    hout.kept ha₁ (by rw [hpaging]; rfl)
  have hwalked := tables_pagedTasks.of_sameBitsOn hkept
  have htr : (pagedTasksBack.descs .tr).base = 0x3000 := by decide +kernel
  have hgdt : pagedTasksBack.gdtr.base = 0x1000 := by decide +kernel
  have hsel : trSel pagedTasksBack = 0x20 := by decide +kernel
  -- the places of the second switch
  have htss : ∀ i < 104, tssAt pagedVm (jumpTo directoryPaging 0x18) pagedTasksBack i = 0x3000 + i := by
    rw [tssAt, htr]
    exact place_pagedTasks hB hkept
  have hold : ∀ i < 8, descAt pagedVm (jumpTo directoryPaging 0x18) pagedTasksBack 0x20 i =
      0x1020 + i := by
    rw [descAt, hgdt]
    exact place_pagedTasks hdescB hkept
  have hnew : ∀ i < 8, descAt pagedVm (jumpTo directoryPaging 0x18) pagedTasksBack 0x18 i =
      0x1018 + i := by
    rw [descAt, hgdt]
    exact place_pagedTasks hdescA hkept
  have ha₂ : Apart pagedVm (jumpTo directoryPaging 0x18) pagedTasksBack directory :=
    apart_directory hwalked htss (hsel ▸ hold) hnew (by decide) (by decide) (by decide)
  have hcurrent : Current pagedVm (jumpTo directoryPaging 0x20) pagedTasks :=
    ⟨by decide +kernel, by decide +kernel, by decide +kernel⟩
  refine ⟨by decide +kernel, task_switch_back pagedVm _ _ pagedTasks _ pagedTasksBack _ directory
    ⟨hout, hcurrent, ?_, hback⟩ ha₁ (by rw [hpaging]; exact hwalked) ha₂⟩
  refine .of_mem rfl (by decide +kernel) hsel (fun i hi => ?_) (fun i hi => ?_) fun i hi => ?_
  · exact (place_pagedTasks hA hkept i hi).trans (place_pagedTasks hA hrefl i hi).symm
  · exact (hnew i hi).trans (place_pagedTasks hdescA hrefl i hi).symm
  · exact (hold i hi).trans (place_pagedTasks hdescB hrefl i hi).symm

/-- Paging is off, and the second task loads CR3. -/
def flatTasks : Guest := twoTasks noPaging 0x12345678 0x1000 0x2000 []
def flatTasksBack : Guest :=
  { jumped noPaging 0x20 flatTasks with
    regs := Function.update (jumped noPaging 0x20 flatTasks).regs .cr3 0x5000 }

/-- The descriptor of the second task is in the TSS of the first. -/
def descInTss : Guest := twoTasks noPaging 0x12345678 0x1000 0x2000 [(8, 0x2028, 0x0000890030000067)]

/-- The entry of the page directory through which the GDT is written is in the TSS of the first task. -/
def entryInTss : Guest :=
  twoTasks directoryPaging 0x83 0x3801000 0x4010 [(4, 0x4000, 0xe3), (4, 0x4038, 0xe3)]

/-- Without paging, CR3 stays that of the second task. Where the switches write over the TSS of the
first, in its descriptor or in a page directory, EAX comes back as what was written. -/
theorem task_switch_back_differs :
    RoundTrip pagedVm (jumpTo noPaging 0x20) flatTasks (jumped noPaging 0x20 flatTasks)
      (jumpTo noPaging 0x18) flatTasksBack (jumped noPaging 0x18 flatTasksBack) ∧
    (jumped noPaging 0x18 flatTasksBack).regs .cr3 ≠ flatTasks.regs .cr3 ∧
    RoundTrip pagedVm (jumpTo noPaging 0x1028) descInTss (jumped noPaging 0x1028 descInTss)
      (jumpTo noPaging 0x18) (jumped noPaging 0x1028 descInTss)
      (jumped noPaging 0x18 (jumped noPaging 0x1028 descInTss)) ∧
    (jumped noPaging 0x18 (jumped noPaging 0x1028 descInTss)).regs .rax ≠
      descInTss.regs .rax % 2 ^ 32 ∧
    RoundTrip pagedVm (jumpTo directoryPaging 0x20) entryInTss (jumped directoryPaging 0x20 entryInTss)
      (jumpTo directoryPaging 0x18) (jumped directoryPaging 0x20 entryInTss)
      (jumped directoryPaging 0x18 (jumped directoryPaging 0x20 entryInTss)) ∧
    (jumped directoryPaging 0x18 (jumped directoryPaging 0x20 entryInTss)).regs .rax ≠
      entryInTss.regs .rax % 2 ^ 32 := by
  refine ⟨⟨jump_of_jumps (by decide +kernel), ?_, ?_, jump_of_jumps (by decide +kernel)⟩, by decide +kernel,
    ⟨jump_of_jumps (by decide +kernel), ?_, ?_, jump_of_jumps (by decide +kernel)⟩, by decide +kernel,
    ⟨jump_of_jumps (by decide +kernel), ?_, ?_, jump_of_jumps (by decide +kernel)⟩, by decide +kernel⟩
  · exact ⟨by decide +kernel, by decide +kernel, by decide +kernel⟩
  · exact .of_mem (by rw [flatTasksBack]) (by decide +kernel) (by decide +kernel) (by decide +kernel)
      (by decide +kernel) (by decide +kernel)
  · exact ⟨by decide +kernel, by decide +kernel, by decide +kernel⟩
  · exact .of_mem rfl (by decide +kernel) (by decide +kernel) (by decide +kernel) (by decide +kernel)
      (by decide +kernel)
  · exact ⟨by decide +kernel, by decide +kernel, by decide +kernel⟩
  · exact .of_mem rfl (by decide +kernel) (by decide +kernel) (by decide +kernel) (by decide +kernel)
      (by decide +kernel)

end Xhyve.Vmm.TaskSwitch
