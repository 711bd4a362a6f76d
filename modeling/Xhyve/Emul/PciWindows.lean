import Xhyve.Emul.PciMsiMirror

/-!
# The address windows of the buses

`init_pci` walks buses, slots and functions, hands out BARs from three bump allocators and notes for
each bus where they stood before and after. The note for 64-bit memory goes through a 32-bit cast.

The rest of a device's `pe_init` can fail for reasons outside this model; the port and memory
registrations of the BARs are those of `PciConfig`.
-/

namespace Xhyve.Emul.Pci

open Xhyve.Lib

def maxbuses : Nat := 256
def maxslots : Nat := 32
def maxfuncs : Nat := 8

def pciEmulIobase : Nat := 0x2000
def pciEmulIolimit : Nat := 0x10000
def pciEmulMemlimit32 : Nat := 0xE0000000
def pciEmulMembase64 : Nat := 0xD000000000
def pciEmulMemlimit64 : Nat := 0xFD00000000

def busioRoundup : Nat := 32
def busmemRoundup : Nat := 1024 * 1024

/-- `lowmem_limit` as `xh_vm_create` sets it. -/
def xhVmGetLowmemLimit : Nat := 3 <<< 30

def roundup2 (x y : Nat) : Nat := (x + (y - 1)) / y * y

/-- The allocators. -/
structure Bases where
  iobase : Nat
  membase32 : Nat
  membase64 : Nat
deriving DecidableEq, Repr

/-- The address and the new base. -/
def pciEmulAllocResource (base limit size : Nat) : Option (Nat × Nat) :=
  let base := roundup2 base size
  if base + size ≤ limit then some (base, base + size) else none

/-- The same on a base the caller brings, where the sums can wrap. -/
def pciEmulAllocHost (hostbase limit size : Nat) : Option Nat :=
  let base := (hostbase + (size - 1)) % 2 ^ 64 / size * size
  if (base + size) % 2 ^ 64 ≤ limit then some base else none

inductive AllocError
  /-- The -1 of `pci_emul_alloc_resource`. -/
  | noSpace
  | assertion
deriving DecidableEq, Repr

def flsl (n : Nat) : Nat := if n = 0 then 0 else n.log2 + 1

/-- A power of 2, and no less than the standard asks for. -/
def barSize (type : BarType) (size : Nat) : Nat :=
  let size := if size &&& (size - 1) ≠ 0 then 1 <<< flsl size else size
  if type = .io then (if size < 4 then 4 else size) else if size < 16 then 16 else size

def allocIo (b : Bases) (size : Nat) : Except AllocError (Bases × Bar) :=
  match pciEmulAllocResource b.iobase pciEmulIolimit size with
  | none => .error .noSpace
  | some (addr, base) => .ok ({ b with iobase := base }, ⟨.io, size, addr⟩)

def allocMem32 (b : Bases) (type : BarType) (size : Nat) : Except AllocError (Bases × Bar) :=
  match pciEmulAllocResource b.membase32 pciEmulMemlimit32 size with
  | none => .error .noSpace
  | some (addr, base) => .ok ({ b with membase32 := base }, ⟨type, size, addr⟩)

def allocMem64 (b : Bases) (size : Nat) : Except AllocError (Bases × Bar) :=
  match pciEmulAllocResource b.membase64 pciEmulMemlimit64 size with
  | none => .error .noSpace
  | some (addr, base) => .ok ({ b with membase64 := base }, ⟨.mem64, size, addr⟩)

/-- `pci_emul_alloc_pbar`. Registering a BAR of type `PCIBAR_NONE` fails its assertion. -/
def pciEmulAllocPbar (b : Bases) (hostbase : Nat) (type : BarType) (size : Nat) :
    Except AllocError (Bases × Bar) :=
  let size := barSize type size
  match type with
  | .none => .error .assertion
  | .io => allocIo b size
  | .mem64 =>
    -- small ones go below 4 GiB
    if size > 32 * 1024 * 1024 then
      if size = 0x100000000 then
        match pciEmulAllocHost hostbase pciEmulMemlimit64 size with
        | none => .error .noSpace
        | some addr => .ok (b, ⟨.mem64, size, addr⟩)
      else allocMem64 b size
    else allocMem32 b .mem64 size
  | .mem32 => allocMem32 b .mem32 size
  | .memhi64 => .error .assertion

def pciEmulAllocBar (b : Bases) (type : BarType) (size : Nat) : Except AllocError (Bases × Bar) :=
  pciEmulAllocPbar b 0 type size

/-! ## The devices -/

inductive Emulation
  | dummy | hostbridge | amdHostbridge | lpc | uart | ahciHd | ahciCd
  | virtioBlk | virtioTap | virtioNet | virtioRnd
deriving DecidableEq, Repr

def Emulation.peEmu : Emulation → String
  | .dummy => "dummy"
  | .hostbridge => "hostbridge"
  | .amdHostbridge => "amd_hostbridge"
  | .lpc => "lpc"
  | .uart => "uart"
  | .ahciHd => "ahci-hd"
  | .ahciCd => "ahci-cd"
  | .virtioBlk => "virtio-blk"
  | .virtioTap => "virtio-tap"
  | .virtioNet => "virtio-net"
  | .virtioRnd => "virtio-rnd"

def pciDevemuSet : List Emulation :=
  [.dummy, .hostbridge, .amdHostbridge, .lpc, .uart, .ahciHd, .ahciCd, .virtioBlk, .virtioTap,
    .virtioNet, .virtioRnd]

def pciEmulFinddev (name : String) : Option Emulation := pciDevemuSet.find? fun pde => pde.peEmu = name

/-- A call of `pci_emul_alloc_bar`. -/
structure BarReq where
  idx : Nat
  type : BarType
  size : Nat
deriving DecidableEq, Repr

/-- `vi_intr_init` and `vi_set_io_bar`: the BAR of the MSI-X table, and the registers. -/
def virtioBars (nvq cfgsize : Nat) (msix : Bool) : List BarReq :=
  (if msix then [⟨1, .mem32, msixTabSize (nvq + 1) + (nvq + 1 + 63) / 64 * 64 / 8⟩] else []) ++
    [⟨0, .io, 24 + cfgsize⟩]

/-- The BARs a device asks for, in order. -/
def Emulation.bars (msix : Bool) : Emulation → List BarReq
  | .dummy => [⟨0, .io, 8⟩, ⟨1, .mem32, 4096⟩, ⟨2, .mem32, 4096⟩]
  | .hostbridge | .amdHostbridge | .lpc => []
  | .uart => [⟨0, .io, 8⟩]
  | .ahciHd | .ahciCd => [⟨5, .mem32, 0x100 + 6 * 0x80⟩]
  | .virtioBlk => virtioBars 1 33 msix
  | .virtioTap | .virtioNet => virtioBars 2 8 msix
  | .virtioRnd => virtioBars 1 0 msix

/-- Only the dummy device looks at what `pci_emul_alloc_bar` returns. -/
def Emulation.asserts : Emulation → Bool
  | .dummy => true
  | _ => false

inductive InitError
  | assertion
  /-- `pe_init` has returned an error. -/
  | failed
deriving DecidableEq, Repr

def allocBars (asserts : Bool) : Bases → List BarReq → Except InitError (Bases × List Bar)
  | b, [] => .ok (b, [])
  | b, r :: rs =>
    match pciEmulAllocBar b r.type r.size with
    | .ok (b', bar) => do
      let (b'', bars) ← allocBars asserts b' rs
      .ok (b'', bar :: bars)
    | .error .noSpace => if asserts then .error .assertion else allocBars asserts b rs
    | .error .assertion => .error .assertion

/-! ## The command line -/

abbrev Slots := Nat → Nat → Option Emulation

/-- `pci_businfo` before initialisation. -/
abbrev Businfos := Nat → Option Slots

/-- The fields of a `-s` option. -/
structure SlotOpt where
  bnum : Int
  snum : Int
  fnum : Int
  emul : String
deriving DecidableEq, Repr

def setFunc (si : Slots) (snum fnum : Nat) (pde : Emulation) : Slots := fun s f =>
  if s = snum ∧ f = fnum then some pde else si s f

/-- `pci_parse_slot` on the numbers and the name it has split the option into; on `none` the program
exits. -/
def pciParseSlot (businfo : Businfos) (o : SlotOpt) : Option Businfos :=
  if o.bnum < 0 ∨ maxbuses ≤ o.bnum ∨ o.snum < 0 ∨ maxslots ≤ o.snum ∨ o.fnum < 0 ∨ maxfuncs ≤ o.fnum
  then none
  else
    let si := (businfo o.bnum.toNat).getD fun _ _ => none
    if (si o.snum.toNat o.fnum.toNat).isSome then none
    else (pciEmulFinddev o.emul).map fun pde =>
      Function.update businfo o.bnum.toNat (some (setFunc si o.snum.toNat o.fnum.toNat pde))

def configure (opts : List SlotOpt) : Option Businfos := opts.foldlM pciParseSlot fun _ => none

/-! ## `init_pci` -/

/-- `struct businfo` after initialisation, as far as the windows go. -/
structure Businfo where
  iobase : Nat
  iolimit : Nat
  membase32 : Nat
  memlimit32 : Nat
  membase64 : Nat
  memlimit64 : Nat
deriving DecidableEq, Repr

structure Host where
  /-- `fbsdrun_virtio_msix`. -/
  msix : Bool
  /-- Whether the rest of `pe_init` fails at this bus, slot and function. -/
  peFails : Nat → Nat → Nat → Bool

structure InitState where
  bases : Bases
  businfo : Nat → Option Businfo
  /-- The BARs handed out, with the number of the bus. -/
  bars : List (Nat × Bar)

def pciEmulInit (host : Host) (bus : Nat) (slots : Slots) (acc : Bases × List Bar) (sf : Nat × Nat) :
    Except InitError (Bases × List Bar) :=
  match slots sf.1 sf.2 with
  | none => .ok acc
  | some pde => do
    let (b, bars) ← allocBars pde.asserts acc.1 (pde.bars host.msix)
    if host.peFails bus sf.1 sf.2 then .error .failed else .ok (b, acc.2 ++ bars)

/-- Slot by slot, function by function. -/
def slotFuncs : List (Nat × Nat) :=
  (List.range maxslots).flatMap fun slot => (List.range maxfuncs).map fun func => (slot, func)

/-- The bases with the slop behind a bus. -/
def addSlop (b : Bases) : Bases where
  iobase := roundup2 (b.iobase + busioRoundup) busioRoundup
  membase32 := roundup2 (b.membase32 + busmemRoundup) busmemRoundup
  membase64 := roundup2 (b.membase64 + busmemRoundup) busmemRoundup

/-- The window of a bus, in the widths of its fields and casts. -/
def busWindow (b b' : Bases) : Businfo where
  iobase := b.iobase % 2 ^ 16
  iolimit := b'.iobase % 2 ^ 16
  membase32 := b.membase32 % 2 ^ 32
  memlimit32 := b'.membase32 % 2 ^ 32
  membase64 := b.membase64 % 2 ^ 32
  memlimit64 := b'.membase64 % 2 ^ 64

def initBus (host : Host) (businfo : Businfos) (s : InitState) (bus : Nat) :
    Except InitError InitState :=
  match businfo bus with
  | none => .ok s
  | some slots => do
    let (b, bars) ← slotFuncs.foldlM (pciEmulInit host bus slots) (s.bases, [])
    let b' := addSlop b
    .ok
      { bases := b'
        businfo := Function.update s.businfo bus (some (busWindow s.bases b'))
        bars := s.bars ++ bars.map fun bar => (bus, bar) }

def initState : InitState where
  bases := ⟨pciEmulIobase, xhVmGetLowmemLimit, pciEmulMembase64⟩
  businfo := fun _ => none
  bars := []

def initPci (host : Host) (businfo : Businfos) : Except InitError InitState :=
  (List.range maxbuses).foldlM (initBus host businfo) initState

/-! ## What the windows should be -/

/-- The BAR lies in the window of its space. A 64-bit BAR may be below 4 GiB. -/
def Businfo.Contains (w : Businfo) (bar : Bar) : Prop :=
  match bar.type with
  | .io => w.iobase ≤ bar.addr ∧ bar.addr + bar.size ≤ w.iolimit
  | .mem32 => w.membase32 ≤ bar.addr ∧ bar.addr + bar.size ≤ w.memlimit32
  | .mem64 => w.membase32 ≤ bar.addr ∧ bar.addr + bar.size ≤ w.memlimit32 ∨
      w.membase64 ≤ bar.addr ∧ bar.addr + bar.size ≤ w.memlimit64
  | .none | .memhi64 => True

/-- No address is in both. -/
def Apart (base limit base' limit' : Nat) : Prop :=
  ∀ x, ¬ (base ≤ x ∧ x < limit ∧ base' ≤ x ∧ x < limit')

structure Businfo.Disjoint (w w' : Businfo) : Prop where
  io : Apart w.iobase w.iolimit w'.iobase w'.iolimit
  mem32 : Apart w.membase32 w.memlimit32 w'.membase32 w'.memlimit32
  mem64 : Apart w.membase64 w.memlimit64 w'.membase64 w'.memlimit64

/-- The windows hold the BARs of their bus and are apart. -/
structure WindowsHold (s : InitState) : Prop where
  contains : ∀ e ∈ s.bars, ∃ w, s.businfo e.1 = some w ∧ w.Contains e.2
  disjoint : ∀ bus bus' w w', bus ≠ bus' → s.businfo bus = some w → s.businfo bus' = some w' →
    w.Disjoint w'

/-! ## The allocators -/

theorem le_roundup2 {x y : Nat} (hy : 0 < y) : x ≤ roundup2 x y := by
  have hdiv := Nat.div_add_mod (x + (y - 1)) y
  have hmod := Nat.mod_lt (x + (y - 1)) hy
  unfold roundup2
  rw [Nat.mul_comm]
  omega

theorem roundup2_le {x y m : Nat} (hy : 0 < y) (hdvd : y ∣ m) (hx : x ≤ m) : roundup2 x y ≤ m := by
  obtain ⟨q, rfl⟩ := hdvd
  have hlt : x + (y - 1) < y * (q + 1) := by
    rw [Nat.mul_succ]
    omega
  have hq : (x + (y - 1)) / y ≤ q := Nat.lt_succ_iff.mp (Nat.div_lt_of_lt_mul hlt)
  unfold roundup2
  rw [Nat.mul_comm]
  exact Nat.mul_le_mul_left y hq

theorem roundup2_lt {x y : Nat} (hy : 0 < y) : roundup2 x y < x + y := by
  have hdiv := Nat.div_add_mod (x + (y - 1)) y
  unfold roundup2
  rw [Nat.mul_comm]
  omega

theorem allocResource_some {base limit size addr base' : Nat} (hsize : 0 < size)
    (h : pciEmulAllocResource base limit size = some (addr, base')) :
    addr = roundup2 base size ∧ base ≤ addr ∧ base' = addr + size ∧ base' ≤ limit := by
  unfold pciEmulAllocResource at h
  simp only at h
  split at h
  · rename_i hfit
    obtain ⟨rfl, rfl⟩ := Prod.mk.inj (Option.some.inj h)
    exact ⟨rfl, le_roundup2 hsize, rfl, hfit⟩
  · cases h

theorem barSize_pos (type : BarType) (size : Nat) : 0 < barSize type size := by
  unfold barSize
  simp only
  generalize (if size &&& (size - 1) ≠ 0 then 1 <<< flsl size else size) = n
  split
  · split
    · omega
    · omega
  · split
    · omega
    · omega

section Alloc
variable {b b' : Bases} {bar : Bar} {size : Nat} {type : BarType}

theorem allocIo_ok (hsize : 0 < size) (h : allocIo b size = .ok (b', bar)) :
    ∃ base, b' = { b with iobase := base } ∧ bar = ⟨.io, size, roundup2 b.iobase size⟩ ∧
      b.iobase ≤ bar.addr ∧ base = bar.addr + size ∧ base ≤ pciEmulIolimit := by
  unfold allocIo at h
  split at h
  · cases h
  · rename_i addr base hres
    obtain ⟨rfl, rfl⟩ := Prod.mk.inj (Except.ok.inj h)
    obtain ⟨rfl, hle, hend, hlim⟩ := allocResource_some hsize hres
    exact ⟨base, rfl, rfl, hle, hend, hlim⟩

theorem allocMem32_ok (hsize : 0 < size) (h : allocMem32 b type size = .ok (b', bar)) :
    ∃ base, b' = { b with membase32 := base } ∧ bar.type = type ∧ bar.size = size ∧
      b.membase32 ≤ bar.addr ∧ base = bar.addr + size ∧ base ≤ pciEmulMemlimit32 := by
  unfold allocMem32 at h
  split at h
  · cases h
  · rename_i addr base hres
    obtain ⟨rfl, rfl⟩ := Prod.mk.inj (Except.ok.inj h)
    obtain ⟨-, hle, hend, hlim⟩ := allocResource_some hsize hres
    exact ⟨base, rfl, rfl, rfl, hle, hend, hlim⟩

theorem allocMem64_ok (hsize : 0 < size) (h : allocMem64 b size = .ok (b', bar)) :
    ∃ base, b' = { b with membase64 := base } ∧ b.membase64 ≤ base ∧ base ≤ pciEmulMemlimit64 := by
  unfold allocMem64 at h
  split at h
  · cases h
  · rename_i addr base hres
    obtain ⟨rfl, rfl⟩ := Prod.mk.inj (Except.ok.inj h)
    obtain ⟨-, hle, hend, hlim⟩ := allocResource_some hsize hres
    exact ⟨base, rfl, by omega, hlim⟩

/-- No allocation takes the 64-bit base back, or past its limit. -/
theorem allocPbar_membase64 {hostbase : Nat} (h : pciEmulAllocPbar b hostbase type size = .ok (b', bar)) :
    b.membase64 ≤ b'.membase64 ∧ (b'.membase64 = b.membase64 ∨ b'.membase64 ≤ pciEmulMemlimit64) := by
  have hpos := barSize_pos type size
  unfold pciEmulAllocPbar at h
  simp only at h
  split at h
  · cases h
  · obtain ⟨base, rfl, -⟩ := allocIo_ok hpos h
    exact ⟨Nat.le_refl _, Or.inl rfl⟩
  · split at h
    · split at h
      · split at h
        · cases h
        · obtain ⟨rfl, -⟩ := Prod.mk.inj (Except.ok.inj h)
          exact ⟨Nat.le_refl _, Or.inl rfl⟩
      · obtain ⟨base, rfl, hle, hlim⟩ := allocMem64_ok hpos h
        exact ⟨hle, Or.inr hlim⟩
    · obtain ⟨base, rfl, -⟩ := allocMem32_ok hpos h
      exact ⟨Nat.le_refl _, Or.inl rfl⟩
  · obtain ⟨base, rfl, -⟩ := allocMem32_ok hpos h
    exact ⟨Nat.le_refl _, Or.inl rfl⟩
  · cases h

end Alloc

/-! ## One bus -/

/-- The BARs of a bus so far, handed out by `k` calls from the bases `init_pci` starts with. -/
structure Grown (k : Nat) (acc : Bases × List Bar) : Prop where
  io : acc.1.iobase ≤ pciEmulIobase + 64 * k
  lo : xhVmGetLowmemLimit ≤ acc.1.membase32
  hi : acc.1.membase32 ≤ pciEmulMemlimit32
  bars : ∀ bar ∈ acc.2,
    bar.type = .io ∧ pciEmulIobase ≤ bar.addr ∧ bar.addr + bar.size ≤ acc.1.iobase ∨
      bar.type = .mem32 ∧ xhVmGetLowmemLimit ≤ bar.addr ∧ bar.addr + bar.size ≤ acc.1.membase32
  start : pciEmulIobase ≤ acc.1.iobase

/-- What devices ask for: at most 64 ports, or memory below 4 GiB. -/
def Modest (r : BarReq) : Prop := r.type = .io ∧ barSize .io r.size ∣ 64 ∨ r.type = .mem32

instance (r : BarReq) : Decidable (Modest r) := inferInstanceAs (Decidable (_ ∨ _))

theorem bars_modest (msix : Bool) (pde : Emulation) :
    (∀ r ∈ pde.bars msix, Modest r) ∧ (pde.bars msix).length ≤ 3 := by
  cases msix with
  | false => cases pde <;> decide +kernel
  | true => cases pde <;> decide +kernel

section Bus
variable {k : Nat} {b b' : Bases} {bars new : List Bar} {bar : Bar}

theorem Grown.mono {k' : Nat} (h : Grown k (b, bars)) (hk : k ≤ k') : Grown k' (b, bars) := by
  have hio := h.io
  exact ⟨by simp only at hio ⊢; omega, h.lo, h.hi, h.bars, h.start⟩

/-- One call. -/
theorem Grown.alloc {r : BarReq} (h : Grown k (b, bars)) (hr : Modest r)
    (hok : pciEmulAllocBar b r.type r.size = .ok (b', bar)) : Grown (k + 1) (b', bars ++ [bar]) := by
  obtain ⟨hio, hlo, hhi, hbars, hstart⟩ := h
  simp only at hio hlo hhi hbars hstart
  have hpos := barSize_pos r.type r.size
  rcases hr with ⟨htype, hdvd⟩ | htype
  · rw [htype] at hok hpos
    obtain ⟨base, rfl, rfl, hle, hend, hlim⟩ := allocIo_ok hpos hok
    simp only at hle hend
    -- the calls before end on a multiple of 64, and so of this size
    have haddr : roundup2 b.iobase (barSize .io r.size) ≤ pciEmulIobase + 64 * k := by
      refine roundup2_le hpos (Nat.dvd_add ?_ ?_) hio
      · exact hdvd.trans (by decide)
      · exact hdvd.trans (Nat.dvd_mul_right _ _)
    have hsize : barSize .io r.size ≤ 64 := Nat.le_of_dvd (by decide) hdvd
    refine ⟨by simp only; omega, hlo, hhi, fun c hc => ?_, by simp only; omega⟩
    rcases List.mem_append.mp hc with hc | hc
    · rcases hbars c hc with ⟨ht, hclo, hchi⟩ | hmem
      · exact Or.inl ⟨ht, hclo, by simp only; omega⟩
      · exact Or.inr hmem
    · obtain rfl := List.mem_singleton.mp hc
      exact Or.inl ⟨rfl, by simp only; omega, by simp only; omega⟩
  · rw [htype] at hok hpos
    obtain ⟨base, rfl, ht, hs, hle, hend, hlim⟩ := allocMem32_ok hpos hok
    refine ⟨by simp only; omega, by simp only; omega, hlim, fun c hc => ?_, hstart⟩
    rcases List.mem_append.mp hc with hc | hc
    · rcases hbars c hc with hport | ⟨hct, hclo, hchi⟩
      · exact Or.inl hport
      · exact Or.inr ⟨hct, hclo, by simp only; omega⟩
    · obtain rfl := List.mem_singleton.mp hc
      exact Or.inr ⟨ht, by omega, by simp only; omega⟩

/-- The calls of one device. -/
theorem Grown.allocBars {asserts : Bool} {rs : List BarReq} (h : Grown k (b, bars))
    (hrs : ∀ r ∈ rs, Modest r) (hok : allocBars asserts b rs = .ok (b', new)) :
    Grown (k + rs.length) (b', bars ++ new) := by
  induction rs generalizing k b bars new with
  | nil =>
    obtain ⟨rfl, rfl⟩ := Prod.mk.inj (Except.ok.inj hok)
    rw [List.append_nil]
    exact h
  | cons r rs ih =>
    have hrs' : ∀ r ∈ rs, Modest r := fun x hx => hrs x (List.mem_cons_of_mem _ hx)
    have hlen : k + (r :: rs).length = k + 1 + rs.length := by
      rw [List.length_cons]
      omega
    rw [hlen]
    unfold Pci.allocBars at hok
    split at hok
    · rename_i b₁ bar hone
      obtain ⟨p, hp, hrest⟩ := bind_ok hok
      obtain ⟨rfl, rfl⟩ := Prod.mk.inj (Except.ok.inj hrest)
      have hgrown := ih (h.alloc (hrs r List.mem_cons_self) hone) hrs' hp
      rw [List.append_assoc] at hgrown
      exact hgrown
    · split at hok
      · cases hok
      · exact ih (h.mono (Nat.le_succ k)) hrs' hok
    · cases hok

/-- One function. -/
theorem Grown.init {host : Host} {bus : Nat} {slots : Slots} {acc acc' : Bases × List Bar}
    {sf : Nat × Nat} (h : Grown k acc) (hok : pciEmulInit host bus slots acc sf = .ok acc') :
    Grown (k + 3) acc' := by
  obtain ⟨b, bars⟩ := acc
  unfold pciEmulInit at hok
  split at hok
  · obtain rfl := Except.ok.inj hok
    exact h.mono (by omega)
  · rename_i pde _
    obtain ⟨p, hp, hrest⟩ := bind_ok hok
    simp only at hrest
    split at hrest
    · cases hrest
    · obtain rfl := Except.ok.inj hrest
      obtain ⟨hmodest, hlen⟩ := bars_modest host.msix pde
      exact (h.allocBars hmodest hp).mono (by omega)

theorem slotFuncs_length : slotFuncs.length = 256 := by decide +kernel

/-- All functions of the bus. -/
theorem Grown.bus {host : Host} {bus : Nat} {slots : Slots} {acc : Bases × List Bar}
    (hok : slotFuncs.foldlM (pciEmulInit host bus slots) (initState.bases, []) = .ok acc) :
    Grown 768 acc := by
  have h₀ : Grown (3 * 0) (initState.bases, ([] : List Bar)) :=
    ⟨by decide, by decide, by decide, fun bar hbar => absurd hbar List.not_mem_nil, by decide⟩
  have hall := foldlM_list_inv (fun k acc => Grown (3 * k) acc)
    (fun k sf s t hs hstep => hs.init hstep) h₀ hok
  rw [slotFuncs_length] at hall
  exact hall

/-- The window of the bus holds them. -/
theorem Grown.contains {acc : Bases × List Bar} (h : Grown 768 acc) {bar : Bar} (hbar : bar ∈ acc.2) :
    (busWindow initState.bases (addSlop acc.1)).Contains bar := by
  have hio := h.io
  have hhi := h.hi
  have hlo := h.lo
  simp only [pciEmulIobase, pciEmulMemlimit32] at hio hhi
  have hiol := le_roundup2 (x := acc.1.iobase + busioRoundup) (y := busioRoundup) (by decide)
  have hiou := roundup2_lt (x := acc.1.iobase + busioRoundup) (y := busioRoundup) (by decide)
  have hmeml := le_roundup2 (x := acc.1.membase32 + busmemRoundup) (y := busmemRoundup) (by decide)
  have hmemu := roundup2_lt (x := acc.1.membase32 + busmemRoundup) (y := busmemRoundup) (by decide)
  have hiolimit : (busWindow initState.bases (addSlop acc.1)).iolimit =
      roundup2 (acc.1.iobase + busioRoundup) busioRoundup := by
    refine Nat.mod_eq_of_lt ?_
    simp only [addSlop, busioRoundup] at hiou ⊢
    omega
  have hmemlimit : (busWindow initState.bases (addSlop acc.1)).memlimit32 =
      roundup2 (acc.1.membase32 + busmemRoundup) busmemRoundup := by
    refine Nat.mod_eq_of_lt ?_
    simp only [addSlop, busmemRoundup] at hmemu ⊢
    omega
  unfold Businfo.Contains
  rcases h.bars bar hbar with ⟨htype, hblo, hbhi⟩ | ⟨htype, hblo, hbhi⟩
  · rw [htype]
    simp only
    rw [hiolimit]
    exact ⟨hblo, by omega⟩
  · rw [htype]
    simp only
    rw [hmemlimit]
    exact ⟨hblo, by omega⟩

end Bus

/-! ## All buses -/

section All
variable {host : Host} {businfo : Businfos} {s s' : InitState} {bus : Nat}

/-- A bus with devices leaves its window and its BARs. -/
theorem initBus_ok {slots : Slots} (hslots : businfo bus = some slots)
    (hok : initBus host businfo s bus = .ok s') :
    ∃ acc, slotFuncs.foldlM (pciEmulInit host bus slots) (s.bases, []) = .ok acc ∧
      s' = { bases := addSlop acc.1
             businfo := Function.update s.businfo bus (some (busWindow s.bases (addSlop acc.1)))
             bars := s.bars ++ acc.2.map fun bar => (bus, bar) } := by
  unfold initBus at hok
  rw [hslots] at hok
  obtain ⟨acc, hacc, hrest⟩ := bind_ok hok
  exact ⟨acc, hacc, (Except.ok.inj hrest).symm⟩

theorem initBus_none (hnone : businfo bus = none) (hok : initBus host businfo s bus = .ok s') :
    s' = s := by
  unfold initBus at hok
  rw [hnone] at hok
  exact (Except.ok.inj hok).symm

/-- At most one bus has devices. -/
theorem windowsHold_of_one (hone : ∀ bus bus', businfo bus ≠ none → businfo bus' ≠ none → bus = bus')
    (hok : initPci host businfo = .ok s) : WindowsHold s := by
  have hinv := foldlM_range_inv (fun i s => (s = initState ∧ ∀ j < i, businfo j = none) ∨
      ∃ n < i, businfo n ≠ none ∧ (∀ m ≠ n, s.businfo m = none) ∧
        ∀ e ∈ s.bars, ∃ w, s.businfo e.1 = some w ∧ w.Contains e.2)
    (fun i _ s t hs hstep => ?_) (Or.inl ⟨rfl, fun j hj => absurd hj (Nat.not_lt_zero j)⟩) hok
  · rcases hinv with ⟨rfl, -⟩ | ⟨n, -, -, honly, hcont⟩
    · refine ⟨fun e he => ?_, fun _ _ _ _ _ hw => ?_⟩
      · exact absurd he List.not_mem_nil
      · cases hw
    · refine ⟨hcont, fun bus bus' w w' hne hw hw' => ?_⟩
      have hn : bus = n := by
        by_contra hno
        rw [honly bus hno] at hw
        cases hw
      have hn' : bus' = n := by
        by_contra hno
        rw [honly bus' hno] at hw'
        cases hw'
      exact absurd (hn.trans hn'.symm) hne
  · cases hi : businfo i with
    | none =>
      obtain rfl := initBus_none hi hstep
      rcases hs with ⟨hinit, hnone⟩ | ⟨n, hn, hrest⟩
      · refine Or.inl ⟨hinit, fun j hj => ?_⟩
        rcases Nat.lt_succ_iff_lt_or_eq.mp hj with hj | rfl
        · exact hnone j hj
        · exact hi
      · exact Or.inr ⟨n, by omega, hrest⟩
    | some slots =>
      have hpresent : businfo i ≠ none := by
        rw [hi]
        exact Option.some_ne_none _
      rcases hs with ⟨rfl, -⟩ | ⟨n, hn, hn', -⟩
      · obtain ⟨acc, hacc, rfl⟩ := initBus_ok hi hstep
        have hgrown := Grown.bus hacc
        refine Or.inr ⟨i, by omega, hpresent, fun m hm => ?_, fun e he => ?_⟩
        · exact Function.update_of_ne hm _ _
        · rw [show initState.bars = [] from rfl, List.nil_append] at he
          obtain ⟨bar, hbar, rfl⟩ := List.mem_map.mp he
          exact ⟨_, Function.update_self _ _ _, hgrown.contains hbar⟩
      · exact absurd (hone n i hn' hpresent) (by omega)

end All

/-- Every window starts below 4 GiB and ends in the 64-bit range. -/
structure Low64 (i : Nat) (s : InitState) : Prop where
  lo : pciEmulMembase64 ≤ s.bases.membase64
  hi : s.bases.membase64 ≤ pciEmulMemlimit64 + 2 * busmemRoundup * i
  windows : ∀ bus w, s.businfo bus = some w →
    w.membase64 < 2 ^ 32 ∧ pciEmulMembase64 ≤ w.memlimit64

section Low
variable {host : Host} {businfo : Businfos} {s s' : InitState}

theorem allocBars_membase64 {asserts : Bool} {rs : List BarReq} {b b' : Bases} {bars : List Bar}
    (hok : allocBars asserts b rs = .ok (b', bars)) :
    b.membase64 ≤ b'.membase64 ∧ (b'.membase64 = b.membase64 ∨ b'.membase64 ≤ pciEmulMemlimit64) := by
  induction rs generalizing b bars with
  | nil =>
    obtain ⟨rfl, -⟩ := Prod.mk.inj (Except.ok.inj hok)
    exact ⟨Nat.le_refl _, Or.inl rfl⟩
  | cons r rs ih =>
    unfold allocBars at hok
    split at hok
    · rename_i b₁ bar hone
      obtain ⟨p, hp, hrest⟩ := bind_ok hok
      obtain ⟨rfl, -⟩ := Prod.mk.inj (Except.ok.inj hrest)
      have hfirst := allocPbar_membase64 hone
      have hlater := ih hp
      omega
    · split at hok
      · cases hok
      · exact ih hok
    · cases hok

theorem slotFuncs_membase64 {bus : Nat} {slots : Slots} {b : Bases} {acc : Bases × List Bar}
    (hok : slotFuncs.foldlM (pciEmulInit host bus slots) (b, []) = .ok acc) :
    b.membase64 ≤ acc.1.membase64 ∧
      (acc.1.membase64 = b.membase64 ∨ acc.1.membase64 ≤ pciEmulMemlimit64) := by
  refine foldlM_list_inv (fun _ acc => b.membase64 ≤ acc.1.membase64 ∧
      (acc.1.membase64 = b.membase64 ∨ acc.1.membase64 ≤ pciEmulMemlimit64))
    (fun k sf s t hs hstep => ?_) (k := 0) ⟨Nat.le_refl _, Or.inl rfl⟩ hok
  unfold pciEmulInit at hstep
  split at hstep
  · obtain rfl := Except.ok.inj hstep
    exact hs
  · obtain ⟨p, hp, hrest⟩ := bind_ok hstep
    simp only at hrest
    split at hrest
    · cases hrest
    · obtain rfl := Except.ok.inj hrest
      have hdev := allocBars_membase64 hp
      simp only
      omega

theorem Low64.step {i : Nat} (h : Low64 i s) (hi : i < maxbuses)
    (hok : initBus host businfo s i = .ok s') : Low64 (i + 1) s' := by
  have hlo := h.lo
  have hhi := h.hi
  cases hslots : businfo i with
  | none =>
    obtain rfl := initBus_none hslots hok
    refine ⟨hlo, ?_, h.windows⟩
    simp only [busmemRoundup] at hhi ⊢
    omega
  | some slots =>
    obtain ⟨acc, hacc, rfl⟩ := initBus_ok hslots hok
    obtain ⟨hgrow, hlim⟩ := slotFuncs_membase64 hacc
    have hround := le_roundup2 (x := acc.1.membase64 + busmemRoundup) (y := busmemRoundup) (by decide)
    have hround' := roundup2_lt (x := acc.1.membase64 + busmemRoundup) (y := busmemRoundup) (by decide)
    have hup : acc.1.membase64 ≤ pciEmulMemlimit64 + 2 * busmemRoundup * i := by omega
    simp only [maxbuses] at hi
    have hslop : (addSlop acc.1).membase64 < 2 ^ 64 := by
      simp only [addSlop, pciEmulMemlimit64, busmemRoundup] at hup hround' ⊢
      omega
    refine ⟨?_, ?_, fun bus w hw => ?_⟩
    · simp only [addSlop]
      omega
    · simp only [addSlop, busmemRoundup] at hround' hup ⊢
      omega
    · by_cases hbus : bus = i
      · subst hbus
        simp only [Function.update_self] at hw
        obtain rfl := Option.some.inj hw
        refine ⟨Nat.mod_lt _ (by decide), ?_⟩
        simp only [busWindow]
        rw [Nat.mod_eq_of_lt hslop]
        simp only [addSlop]
        omega
      · simp only [Function.update_of_ne hbus] at hw
        exact h.windows bus w hw

theorem low64_init (hok : initPci host businfo = .ok s) : Low64 maxbuses s :=
  foldlM_range_inv (fun i s => Low64 i s) (fun _ hi _ _ hs hstep => hs.step hi hstep)
    ⟨by decide, by decide, fun _ _ hw => by cases hw⟩ hok

/-- Every bus with devices gets a window. -/
theorem initPci_window (hok : initPci host businfo = .ok s) {bus : Nat} (hbus : bus < maxbuses)
    (hpresent : businfo bus ≠ none) : ∃ w, s.businfo bus = some w := by
  have hinv := foldlM_range_inv
    (fun i (s : InitState) => ∀ j < i, businfo j ≠ none → ∃ w, s.businfo j = some w)
    (fun i _ s t hs hstep => ?_) (fun j hj => absurd hj (Nat.not_lt_zero j)) hok
  · exact hinv bus hbus hpresent
  · intro j hj hj'
    cases hslots : businfo i with
    | none =>
      obtain rfl := initBus_none hslots hstep
      rcases Nat.lt_succ_iff_lt_or_eq.mp hj with hj | rfl
      · exact hs j hj hj'
      · exact absurd hslots hj'
    | some slots =>
      obtain ⟨acc, -, rfl⟩ := initBus_ok hslots hstep
      by_cases hji : j = i
      · subst hji
        exact ⟨_, Function.update_self _ _ _⟩
      · simp only [Function.update_of_ne hji]
        exact hs j (by omega) hj'

/-- Two windows always have 4 GiB in common. -/
theorem one_of_windowsHold (hok : initPci host businfo = .ok s) (hw : WindowsHold s) {bus bus' : Nat}
    (hbus : bus < maxbuses) (hbus' : bus' < maxbuses) (hp : businfo bus ≠ none)
    (hp' : businfo bus' ≠ none) : bus = bus' := by
  by_contra hne
  obtain ⟨w, hwin⟩ := initPci_window hok hbus hp
  obtain ⟨w', hwin'⟩ := initPci_window hok hbus' hp'
  have hlow := low64_init hok
  obtain ⟨hlo, hhi⟩ := hlow.windows bus w hwin
  obtain ⟨hlo', hhi'⟩ := hlow.windows bus' w' hwin'
  simp only [pciEmulMembase64] at hhi hhi'
  exact (hw.disjoint bus bus' w w' hne hwin hwin').mem64 (2 ^ 32)
    ⟨by omega, by omega, by omega, by omega⟩

end Low

/-! ## The options -/

section Options
variable {o : SlotOpt} {opts : List SlotOpt} {businfo businfo' : Businfos}

theorem parseSlot_some (h : pciParseSlot businfo o = some businfo') :
    0 ≤ o.bnum ∧ o.bnum < maxbuses ∧
      ∀ bus, businfo' bus ≠ none ↔ (businfo bus ≠ none ∨ (bus : Int) = o.bnum) := by
  unfold pciParseSlot at h
  split at h
  · cases h
  · rename_i hrange
    simp only at h
    split at h
    · cases h
    · obtain ⟨pde, -, rfl⟩ := Option.map_eq_some_iff.mp h
      refine ⟨by omega, by omega, fun bus => ?_⟩
      by_cases hbus : bus = o.bnum.toNat
      · subst hbus
        simp only [Function.update_self]
        exact iff_of_true (Option.some_ne_none _) (Or.inr (by omega))
      · rw [Function.update_of_ne hbus]
        constructor
        · exact Or.inl
        · intro hor
          rcases hor with hp | heq
          · exact hp
          · exact absurd heq (by omega)

theorem parseSlots_present :
    ∀ {opts : List SlotOpt} {businfo businfo' : Businfos},
      opts.foldlM pciParseSlot businfo = some businfo' →
      (∀ o ∈ opts, 0 ≤ o.bnum ∧ o.bnum < maxbuses) ∧
        ∀ bus, businfo' bus ≠ none ↔ (businfo bus ≠ none ∨ ∃ o ∈ opts, (bus : Int) = o.bnum) := by
  intro opts
  induction opts with
  | nil =>
    intro businfo businfo' h
    obtain rfl := Option.some.inj h
    exact ⟨fun o ho => absurd ho List.not_mem_nil, by simp⟩
  | cons o opts ih =>
    intro businfo businfo' h
    rw [List.foldlM_cons] at h
    obtain ⟨mid, hmid, hrest⟩ := Option.bind_eq_some_iff.mp h
    obtain ⟨hlo, hhi, hone⟩ := parseSlot_some hmid
    obtain ⟨hranges, hall⟩ := ih hrest
    refine ⟨fun x hx => ?_, fun bus => ?_⟩
    · rcases List.mem_cons.mp hx with rfl | hx
      · exact ⟨hlo, hhi⟩
      · exact hranges x hx
    · rw [hall bus, hone bus]
      simp only [List.mem_cons, exists_eq_or_imp, or_assoc]

end Options

/-- The windows are right exactly when all devices are on one bus. -/
theorem windows_hold_iff {opts : List SlotOpt} {businfo : Businfos} {host : Host} {s : InitState}
    (hconf : configure opts = some businfo) (hinit : initPci host businfo = .ok s) :
    WindowsHold s ↔ ∀ o ∈ opts, ∀ o' ∈ opts, o.bnum = o'.bnum := by
  obtain ⟨hranges, hpresent⟩ := parseSlots_present hconf
  have hbus : ∀ bus, businfo bus ≠ none ↔ ∃ o ∈ opts, (bus : Int) = o.bnum := by
    intro bus
    rw [hpresent bus]
    simp
  constructor
  · intro hw o ho o' ho'
    obtain ⟨hlo, hhi⟩ := hranges o ho
    obtain ⟨hlo', hhi'⟩ := hranges o' ho'
    have hp : businfo o.bnum.toNat ≠ none := (hbus _).mpr ⟨o, ho, by omega⟩
    have hp' : businfo o'.bnum.toNat ≠ none := (hbus _).mpr ⟨o', ho', by omega⟩
    have heq := one_of_windowsHold hinit hw (by omega) (by omega) hp hp'
    omega
  · intro hone
    refine windowsHold_of_one (fun bus bus' hp hp' => ?_) hinit
    obtain ⟨o, ho, hb⟩ := (hbus bus).mp hp
    obtain ⟨o', ho', hb'⟩ := (hbus bus').mp hp'
    have := hone o ho o' ho'
    omega

def anyHost : Host := ⟨true, fun _ _ _ => false⟩

/-- What a command line leads to. -/
def boot (host : Host) (opts : List SlotOpt) : Option InitState :=
  (configure opts).bind fun businfo => (initPci host businfo).toOption

theorem boot_some {host : Host} {opts : List SlotOpt} {s : InitState} (h : boot host opts = some s) :
    ∃ businfo, configure opts = some businfo ∧ initPci host businfo = .ok s := by
  obtain ⟨businfo, hconf, hinit⟩ := Option.bind_eq_some_iff.mp h
  refine ⟨businfo, hconf, ?_⟩
  cases hres : initPci host businfo with
  | error e =>
    rw [hres] at hinit
    cases hinit
  | ok t =>
    rw [hres] at hinit
    rw [Option.some.inj hinit]

def oneBus : List SlotOpt := [⟨0, 0, 0, "hostbridge"⟩, ⟨0, 2, 0, "virtio-blk"⟩, ⟨0, 2, 1, "virtio-net"⟩]

def twoBuses : List SlotOpt := [⟨0, 0, 0, "hostbridge"⟩, ⟨1, 2, 0, "virtio-blk"⟩]

/-- Three devices on bus 0. -/
theorem windows_hold_one_bus :
    ∃ s, boot anyHost oneBus = some s ∧ s.bars.length = 4 ∧ WindowsHold s := by
  have hrun : ((boot anyHost oneBus).map fun s => s.bars.length) = some 4 := by decide +kernel
  obtain ⟨s, hs, hlen⟩ := Option.map_eq_some_iff.mp hrun
  obtain ⟨businfo, hconf, hinit⟩ := boot_some hs
  exact ⟨s, hs, hlen, (windows_hold_iff hconf hinit).mpr (by decide)⟩

/-- With a second bus the 64-bit windows overlap: bus 1 starts at 1 MiB. -/
theorem windows_overlap :
    ∃ s w w', boot anyHost twoBuses = some s ∧ s.businfo 0 = some w ∧ s.businfo 1 = some w' ∧
      w.membase64 = 0 ∧ w'.membase64 = 0x100000 ∧ w.memlimit64 = 0xD000100000 ∧ ¬ WindowsHold s := by
  have hrun : ((boot anyHost twoBuses).map fun s => (s.businfo 0, s.businfo 1)) =
      some (some ⟨0x2000, 0x2020, 0xC0000000, 0xC0100000, 0, 0xD000100000⟩,
        some ⟨0x2020, 0x20a0, 0xC0100000, 0xC0300000, 0x100000, 0xD000200000⟩) := by
    decide +kernel
  obtain ⟨s, hs, hbuses⟩ := Option.map_eq_some_iff.mp hrun
  obtain ⟨h0, h1⟩ := Prod.mk.inj hbuses
  refine ⟨s, _, _, hs, h0, h1, rfl, rfl, rfl, fun hw => ?_⟩
  exact (hw.disjoint 0 1 _ _ (by decide) h0 h1).mem64 0x100000 (by decide)

end Xhyve.Emul.Pci
