import Xhyve.Emul.PciIrqBalance
import Xhyve.Lib.Records
import Xhyve.Virtio.GuestRam

/-!
# The MP table

`mptable_build` puts the MP floating pointer and the configuration table behind it into guest memory:
the processors, the buses, the I/O APIC and the interrupts, those of PCI functions among them. The
pointer it writes at moves by a count of the PCI interrupts that is made before they are written.

There is no OEM table.
-/

namespace Xhyve.Firmware.MpTable

open Xhyve.Lib Xhyve.Lib.Mem Xhyve.Emul
open Xhyve.Emul.PciIrq (Router RouterOk)
open Xhyve.Virtio (GuestRam xhVmMapGpa)

def mptableBase : Nat := 0xF0000
def mptableMaxLength : Nat := 65536 + 16

def lapicPaddr : Nat := 0xFEE00000
def lapicVersion : UInt8 := 16
def ioapicPaddr : Nat := 0xFEC00000
def ioapicVersion : UInt8 := 0x11

def ascii (cs : List Char) : List UInt8 := cs.map fun c => UInt8.ofNat c.toNat

def mpSpecrev : UInt8 := 4
def mpfpSig : List UInt8 := ascii ['_', 'M', 'P', '_']
def mpchSig : List UInt8 := ascii ['P', 'C', 'M', 'P']
def mpchOemid : List UInt8 := ascii ['B', 'H', 'y', 'V', 'e', ' ', ' ', ' ']
def mpchProdid : List UInt8 := ascii ['H', 'y', 'p', 'e', 'r', 'v', 'i', 's', 'o', 'r', ' ', ' ']

def mpepSig : Nat := 6 <<< 8 ||| 26 <<< 4 ||| 5
def mpepFeatures : Nat := 0xBFEBFBFF

def mpeiiNumLocalIrq : Nat := 2
def mpeNumBuses : Nat := 2
def mpeBusnameIsa : List UInt8 := ascii ['I', 'S', 'A', ' ', ' ', ' ']
def mpeBusnamePci : List UInt8 := ascii ['P', 'C', 'I', ' ', ' ', ' ']

def mpctEntryProcessor : UInt8 := 0
def mpctEntryBus : UInt8 := 1
def mpctEntryIoapic : UInt8 := 2
def mpctEntryInt : UInt8 := 3
def mpctEntryLocalInt : UInt8 := 4

def procentryFlagEn : UInt8 := 1
def procentryFlagBp : UInt8 := 2
def ioapicentryFlagEn : UInt8 := 1

def intentryTypeInt : UInt8 := 0
def intentryTypeNmi : UInt8 := 1
def intentryTypeExtint : UInt8 := 3
def intentryFlagsConform : Nat := 0
/-- Active low, level triggered. -/
def intentryFlagsSci : Nat := 0x3 ||| 0xc
def sciInt : Nat := 9

def sizeofMpfps : Nat := 16
def sizeofMpcth : Nat := 44
def sizeofProcEntry : Nat := 20
def sizeofEntry : Nat := 8

/-! ## The interrupt pins of PCI slots -/

def pciBusmax : Nat := 255
def maxslots : Nat := 32

/-- `struct intxinfo`, as far as it goes into the table. -/
structure Intxinfo where
  iiCount : Nat
  iiIoapicIrq : Nat
deriving DecidableEq, Repr

/-- `si_intpins` of each slot. -/
abbrev Slotinfos := Nat → Nat → Intxinfo

/-- `pci_businfo`. -/
abbrev Businfos := Nat → Option Slotinfos

def pciCountLintr (bi : Option Slotinfos) : Nat :=
  match bi with
  | none => 0
  | some si =>
    ((List.range maxslots).map fun slot =>
      (List.range 4).countP fun pin => (si slot pin).iiCount ≠ 0).sum

/-- Calls `cb` with the slot, the pin and its I/O APIC pin. -/
def pciWalkLintr {σ : Type} (bi : Option Slotinfos) (cb : Nat → Nat → Nat → σ → σ) (st : σ) : σ :=
  match bi with
  | none => st
  | some si =>
    (List.range maxslots).foldl (fun st slot =>
      (List.range 4).foldl (fun st pin =>
        if (si slot pin).iiCount ≠ 0 then cb slot (pin + 1) (si slot pin).iiIoapicIrq st else st)
        st) st

/-! ## The table -/

def mptComputeChecksum (m : Mem) (base len : Nat) : UInt8 :=
  UInt8.ofNat (256 - ((m.slice base len).foldl (· + ·) 0).toNat)

def mptBuildMpfp (m : Mem) (mpfp gpa : Nat) : Mem :=
  let m := m.put mpfp (mpfpSig ++ LittleEndian.bytes 4 (gpa + sizeofMpfps) ++
    [1, mpSpecrev, 0, 0, 0, 0, 0, 0])
  m.put (mpfp + 10) [mptComputeChecksum m mpfp sizeofMpfps]

/-- The lengths, the checksum and the count are still zero. -/
def mptBuildMpch (m : Mem) (mpch : Nat) : Mem :=
  m.put mpch (mpchSig ++ [0, 0, mpSpecrev, 0] ++ mpchOemid ++ mpchProdid ++
    LittleEndian.bytes 4 0 ++ LittleEndian.bytes 2 0 ++ LittleEndian.bytes 2 0 ++
    LittleEndian.bytes 4 lapicPaddr ++ LittleEndian.bytes 2 0 ++ [0, 0])

def procEntry (i : Nat) : List UInt8 :=
  [mpctEntryProcessor, UInt8.ofNat i, lapicVersion,
    if i = 0 then procentryFlagEn ||| procentryFlagBp else procentryFlagEn] ++
    LittleEndian.bytes 4 mpepSig ++ LittleEndian.bytes 4 mpepFeatures ++
    LittleEndian.bytes 4 0 ++ LittleEndian.bytes 4 0

def mptBuildProcEntries (m : Mem) (mpep ncpu : Nat) : Mem :=
  ((List.range ncpu).foldl (fun st i => (st.1.put st.2 (procEntry i), st.2 + sizeofProcEntry))
    (m, mpep)).1

def busEntry (busId : UInt8) (busType : List UInt8) : List UInt8 := [mpctEntryBus, busId] ++ busType

def mptBuildBusEntries (m : Mem) (mpeb : Nat) : Mem :=
  let m := m.put mpeb (busEntry 0 mpeBusnamePci)
  m.put (mpeb + sizeofEntry) (busEntry 1 mpeBusnameIsa)

def ioapicEntry (id : UInt8) : List UInt8 :=
  [mpctEntryIoapic, id, ioapicVersion, ioapicentryFlagEn] ++ LittleEndian.bytes 4 ioapicPaddr

def mptBuildIoapicEntries (m : Mem) (mpei : Nat) (id : UInt8) : Mem := m.put mpei (ioapicEntry id)

/-- `struct INTENTRY`. -/
structure IntEntry where
  type : UInt8
  intType : UInt8
  intFlags : Nat
  srcBusId : UInt8
  srcBusIrq : UInt8
  dstApicId : UInt8
  dstApicInt : UInt8
deriving DecidableEq, Repr

def IntEntry.bytes (e : IntEntry) : List UInt8 :=
  [e.type, e.intType] ++ LittleEndian.bytes 2 e.intFlags ++
    [e.srcBusId, e.srcBusIrq, e.dstApicId, e.dstApicInt]

def mptCountIointEntries (businfo : Businfos) : Nat :=
  16 + ((List.range (pciBusmax + 1)).map fun bus => pciCountLintr (businfo bus)).sum

def pciIntEntry (bus slot pin ioapicIrq : Nat) (id : UInt8) : IntEntry where
  type := mpctEntryInt
  intType := intentryTypeInt
  intFlags := 0
  srcBusId := UInt8.ofNat bus
  srcBusIrq := UInt8.ofNat (slot <<< 2 ||| (pin - 1))
  dstApicId := id
  dstApicInt := UInt8.ofNat ioapicIrq

/-- The ID of the I/O APIC is read from the entry before. -/
def mptGeneratePciInt (bus slot pin ioapicIrq : Nat) (st : Mem × Nat) : Mem × Nat :=
  let id := st.1 (st.2 - sizeofEntry + 6)
  (st.1.put st.2 (pciIntEntry bus slot pin ioapicIrq id).bytes, st.2 + sizeofEntry)

/-- The entries of the first 16 pins. -/
def isaIntEntry (id : UInt8) (pin : Nat) : IntEntry :=
  let e : IntEntry := ⟨mpctEntryInt, intentryTypeInt, 0, 1, 0, id, UInt8.ofNat pin⟩
  if pin = 0 then { e with intType := intentryTypeExtint }
  else if pin = 2 then e
  else if pin = sciInt then { e with intFlags := intentryFlagsSci, srcBusIrq := UInt8.ofNat sciInt }
  else { e with srcBusIrq := UInt8.ofNat pin }

def mptBuildIointEntries (m : Mem) (mpie : Nat) (id : UInt8) (businfo : Businfos) : Mem :=
  let st := (List.range 16).foldl
    (fun st pin => (st.1.put st.2 (isaIntEntry id pin).bytes, st.2 + sizeofEntry)) (m, mpie)
  ((List.range (pciBusmax + 1)).foldl
    (fun st bus => pciWalkLintr (businfo bus) (mptGeneratePciInt bus) st) st).1

def localIntEntry (intType dstApicInt : UInt8) : IntEntry :=
  ⟨mpctEntryLocalInt, intType, intentryFlagsConform, 0, 0, 0xff, dstApicInt⟩

def mptBuildLocalintEntries (m : Mem) (mpie : Nat) : Mem :=
  let m := m.put mpie (localIntEntry intentryTypeExtint 0).bytes
  m.put (mpie + sizeofEntry) (localIntEntry intentryTypeNmi 1).bytes

/-- `mpch->entry_count += k`. -/
def addEntryCount (m : Mem) (mpch k : Nat) : Mem :=
  m.store 2 (mpch + 34) (m.load 2 (mpch + 34) + k)

inductive Errno
  | enomem | einval
deriving DecidableEq, Repr

def mptableBuild (ram : GuestRam) (ncpu : Nat) (businfo : Businfos) (m : Mem) : Except Errno Mem :=
  match xhVmMapGpa ram mptableBase mptableMaxLength with
  | none => .error .enomem
  | some startaddr =>
    if (List.range pciBusmax).any fun bus => (businfo (bus + 1)).isSome then .error .einval
    else
      let m := mptBuildMpfp m startaddr mptableBase
      let mpch := startaddr + sizeofMpfps
      let m := mptBuildMpch m mpch
      let curraddr := mpch + sizeofMpcth
      let m := mptBuildProcEntries m curraddr ncpu
      let curraddr := curraddr + sizeofProcEntry * ncpu
      let m := addEntryCount m mpch ncpu
      let m := mptBuildBusEntries m curraddr
      let curraddr := curraddr + sizeofEntry * mpeNumBuses
      let m := addEntryCount m mpch mpeNumBuses
      let m := mptBuildIoapicEntries m curraddr 0
      let curraddr := curraddr + sizeofEntry
      let m := addEntryCount m mpch 1
      let ioints := mptCountIointEntries businfo
      let m := mptBuildIointEntries m curraddr 0 businfo
      let curraddr := curraddr + sizeofEntry * ioints
      let m := addEntryCount m mpch ioints
      let m := mptBuildLocalintEntries m curraddr
      let curraddr := curraddr + sizeofEntry * mpeiiNumLocalIrq
      let m := addEntryCount m mpch mpeiiNumLocalIrq
      let m := m.store 2 (mpch + 4) (curraddr - mpch)
      .ok (m.put (mpch + 7) [mptComputeChecksum m mpch (m.load 2 (mpch + 4))])

/-! ## Counting and walking -/

/-- The pins with a count, in the order of the walk. -/
def requested (si : Slotinfos) : List (Nat × Nat) :=
  (List.range maxslots).flatMap fun slot =>
    ((List.range 4).filter fun pin => (si slot pin).iiCount ≠ 0).map fun pin => (slot, pin)

theorem pciCountLintr_eq (si : Slotinfos) : pciCountLintr (some si) = (requested si).length := by
  rw [pciCountLintr, requested, List.length_flatMap]
  refine congrArg List.sum (List.map_congr_left fun slot _ => ?_)
  rw [List.length_map, List.countP_eq_length_filter]

theorem pciWalkLintr_eq {σ : Type} (si : Slotinfos) (cb : Nat → Nat → Nat → σ → σ) (st : σ) :
    pciWalkLintr (some si) cb st =
      (requested si).foldl (fun st sp => cb sp.1 (sp.2 + 1) (si sp.1 sp.2).iiIoapicIrq st) st := by
  rw [pciWalkLintr, requested, List.foldl_flatMap]
  refine List.foldl_ext _ _ _ fun st slot _ => ?_
  rw [List.foldl_map, List.foldl_filter]
  simp only [decide_eq_true_eq]

theorem mem_requested {si : Slotinfos} {slot pin : Nat} :
    (slot, pin) ∈ requested si ↔ slot < maxslots ∧ pin < 4 ∧ (si slot pin).iiCount ≠ 0 := by
  simp [requested]

theorem requested_nodup (si : Slotinfos) : (requested si).Nodup := by
  refine List.nodup_flatMap.mpr ⟨fun slot _ => ?_, ?_⟩
  · exact (List.nodup_range.filter _).map fun p q h => (Prod.mk.inj h).2
  · refine List.nodup_range.imp fun {slot slot'} hne x hx hx' => hne ?_
    obtain ⟨p, -, rfl⟩ := List.mem_map.mp hx
    obtain ⟨q, -, hq⟩ := List.mem_map.mp hx'
    exact (Prod.mk.inj hq).1.symm

theorem length_requested_le (si : Slotinfos) : (requested si).length ≤ maxslots * 4 := by
  rw [← pciCountLintr_eq, pciCountLintr]
  have hle : ∀ x ∈ (List.range maxslots).map fun slot =>
      (List.range 4).countP fun pin => (si slot pin).iiCount ≠ 0, x ≤ 4 := by
    intro x hx
    obtain ⟨slot, -, rfl⟩ := List.mem_map.mp hx
    simpa using List.countP_le_length (l := List.range 4)
  simpa using List.sum_le_card_nsmul _ 4 hle

section Buses
variable {businfo : Businfos}

/-- On a single bus the loops over all buses come down to it. -/
theorem countIoint_single (h : ∀ bus < pciBusmax, businfo (bus + 1) = none) :
    mptCountIointEntries businfo = 16 + pciCountLintr (businfo 0) := by
  have hrest : ((List.range pciBusmax).map Nat.succ).map (fun bus => pciCountLintr (businfo bus)) =
      (List.range pciBusmax).map fun _ => 0 := by
    rw [List.map_map]
    refine List.map_congr_left fun bus hbus => ?_
    rw [Function.comp_apply, Nat.succ_eq_add_one, h bus (List.mem_range.mp hbus)]
    rfl
  rw [mptCountIointEntries, List.range_succ_eq_map, List.map_cons, List.sum_cons, hrest]
  simp

theorem walk_single {σ : Type} (h : ∀ bus < pciBusmax, businfo (bus + 1) = none)
    (cb : Nat → Nat → Nat → Nat → σ → σ) (st : σ) :
    (List.range (pciBusmax + 1)).foldl (fun st bus => pciWalkLintr (businfo bus) (cb bus) st) st =
      pciWalkLintr (businfo 0) (cb 0) st := by
  have hrest : ∀ (buses : List Nat) (st : σ), (∀ bus ∈ buses, businfo (bus + 1) = none) →
      (buses.map Nat.succ).foldl (fun st bus => pciWalkLintr (businfo bus) (cb bus) st) st = st := by
    intro buses
    induction buses with
    | nil => exact fun _ _ => rfl
    | cons bus buses ih =>
      intro st hnone
      have hhead : businfo (Nat.succ bus) = none := hnone bus (List.mem_cons_self ..)
      rw [List.map_cons, List.foldl_cons, hhead]
      exact ih st fun b hb => hnone b (List.mem_cons_of_mem _ hb)
  rw [List.range_succ_eq_map, List.foldl_cons]
  exact hrest _ _ fun bus hbus => h bus (List.mem_range.mp hbus)

end Buses

/-! ## The entries each part writes -/

def pciIntEntries (si : Slotinfos) : List (List UInt8) :=
  (requested si).map fun sp =>
    (pciIntEntry 0 sp.1 (sp.2 + 1) (si sp.1 sp.2).iiIoapicIrq 0).bytes

def pciEntries (bi : Option Slotinfos) : List (List UInt8) := (bi.map pciIntEntries).getD []

def isaIntEntries : List (List UInt8) := (List.range 16).map fun pin => (isaIntEntry 0 pin).bytes

section Emit
variable (m : Mem) (a : Nat)

theorem IntEntry.length_bytes (e : IntEntry) : e.bytes.length = sizeofEntry := by
  simp [IntEntry.bytes, sizeofEntry]

theorem length_procEntry (i : Nat) : (procEntry i).length = sizeofProcEntry := by
  simp [procEntry, sizeofProcEntry]

theorem procEntries_emits (ncpu : Nat) :
    Emits m (mptBuildProcEntries m a ncpu) a ((List.range ncpu).map procEntry).flatten := by
  refine (Emits.foldl _ procEntry (fun _ _ => True) (fun m a i _ => ?_) (List.range ncpu) trivial).1
  exact ⟨.put _ _ _, congrArg (a + ·) (length_procEntry i).symm, trivial⟩

theorem busEntries_emits : Emits m (mptBuildBusEntries m a) a
    [busEntry 0 mpeBusnamePci, busEntry 1 mpeBusnameIsa].flatten :=
  (Emits.put m a (busEntry 0 mpeBusnamePci)).append (.put _ _ _)

theorem ioapicEntries_emits (id : UInt8) :
    Emits m (mptBuildIoapicEntries m a id) a [ioapicEntry id].flatten := by
  rw [List.flatten_singleton]
  exact .put m a (ioapicEntry id)

theorem localintEntries_emits : Emits m (mptBuildLocalintEntries m a) a
    [(localIntEntry intentryTypeExtint 0).bytes, (localIntEntry intentryTypeNmi 1).bytes].flatten :=
  (Emits.put m a (localIntEntry intentryTypeExtint 0).bytes).append (.put _ _ _)

/-- The byte the next PCI entry takes the I/O APIC's ID from. -/
def LastId (id : UInt8) (m : Mem) (a : Nat) : Prop := sizeofEntry ≤ a ∧ m (a - sizeofEntry + 6) = id

theorem put_lastId (e : IntEntry) :
    LastId e.dstApicId (m.put a e.bytes) (a + sizeofEntry) := by
  have hlen := e.length_bytes
  have hat : a + sizeofEntry - sizeofEntry + 6 = a + 6 := by omega
  refine ⟨Nat.le_add_left _ _, ?_⟩
  have hsub : a + 6 - a = 6 := by omega
  rw [hat, Mem.put, if_pos ⟨Nat.le_add_right _ _, by rw [hlen]; simp [sizeofEntry]⟩, hsub]
  rfl

theorem isaIntEntry_id (id : UInt8) (pin : Nat) : (isaIntEntry id pin).dstApicId = id := by
  unfold isaIntEntry
  simp only
  split_ifs
  all_goals rfl

theorem length_isaIntEntries : isaIntEntries.flatten.length = sizeofEntry * 16 := by
  have hone : ∀ r ∈ isaIntEntries, r.length = sizeofEntry := by
    intro r hr
    obtain ⟨pin, -, rfl⟩ := List.mem_map.mp hr
    exact IntEntry.length_bytes _
  rw [Records.length_flatten_of_eq hone, isaIntEntries, List.length_map, List.length_range]

theorem isaIntEntries_emits :
    let st := (List.range 16).foldl
      (fun st pin => (st.1.put st.2 (isaIntEntry 0 pin).bytes, st.2 + sizeofEntry)) (m, a)
    Emits m st.1 a isaIntEntries.flatten ∧ st.2 = a + isaIntEntries.flatten.length ∧
      LastId 0 st.1 st.2 := by
  -- behind the first entry there is always one before
  obtain ⟨hemit, hend, hid⟩ := Emits.foldl
    (fun st pin => (st.1.put st.2 (isaIntEntry 0 pin).bytes, st.2 + sizeofEntry))
    (fun pin => (isaIntEntry 0 pin).bytes) (fun m' a' => a' = a ∨ LastId 0 m' a')
    (fun m' a' pin _ => ⟨.put _ _ _, congrArg (a' + ·) (isaIntEntry 0 pin).length_bytes.symm, Or.inr (by
      have hid := put_lastId m' a' (isaIntEntry 0 pin)
      rw [isaIntEntry_id] at hid
      exact hid)⟩) (List.range 16) (m := m) (Or.inl rfl)
  refine ⟨hemit, hend, hid.resolve_left ?_⟩
  rw [hend]
  show a + isaIntEntries.flatten.length ≠ a
  rw [length_isaIntEntries]
  simp [sizeofEntry]

theorem pciInt_emits (si : Slotinfos) (h : LastId 0 m a) :
    Emits m (pciWalkLintr (some si) (mptGeneratePciInt 0) (m, a)).1 a (pciIntEntries si).flatten := by
  rw [pciWalkLintr_eq]
  refine (Emits.foldl _ (fun sp =>
    (pciIntEntry 0 sp.1 (sp.2 + 1) (si sp.1 sp.2).iiIoapicIrq 0).bytes) (LastId 0)
    (fun m a sp hid => ?_) (requested si) h).1
  have hread : m (a - sizeofEntry + 6) = 0 := hid.2
  simp only [mptGeneratePciInt, hread]
  exact ⟨.put _ _ _, congrArg (a + ·) (IntEntry.length_bytes _).symm, put_lastId m a _⟩

theorem iointEntries_emits {businfo : Businfos}
    (hbus : ∀ bus < pciBusmax, businfo (bus + 1) = none) :
    Emits m (mptBuildIointEntries m a 0 businfo) a
      (isaIntEntries ++ pciEntries (businfo 0)).flatten := by
  obtain ⟨hisa, hend, hid⟩ := isaIntEntries_emits m a
  unfold mptBuildIointEntries
  simp only
  rw [walk_single hbus, List.flatten_append]
  refine hisa.append ?_
  cases businfo 0 with
  | none => exact .nil _ _
  | some si =>
    have hpci := pciInt_emits _ _ si hid
    rw [← hend]
    exact hpci

end Emit

/-! ## Checksums -/

theorem mptComputeChecksum_toNat (m : Mem) (base len : Nat) :
    (mptComputeChecksum m base len).toNat = (256 - byteSum (m.slice base len) % 256) % 256 := by
  have hsum := foldl_add_toNat (m.slice base len) 0
  rw [UInt8.toNat_zero, Nat.zero_add] at hsum
  rw [mptComputeChecksum, hsum]
  exact UInt8.toNat_ofNat'

/-- A range with a zero byte for its checksum sums to zero once the checksum is in it. -/
theorem checksum_sum {m : Mem} {base len c : Nat} (hlo : base ≤ c) (hhi : c < base + len)
    (hzero : m c = 0) :
    byteSum ((m.put c [mptComputeChecksum m base len]).slice base len) % 256 = 0 := by
  rw [put_singleton]
  refine byteSum_update hlo hhi hzero ?_
  rw [mptComputeChecksum_toNat]
  omega

/-! ## The table as it grows -/

/-- So many entries are behind the header, which counts them, up to `curraddr`. -/
structure Built (startaddr curraddr : Nat) (m : Mem) (es : List (List UInt8)) : Prop where
  pointer : byteSum (m.slice startaddr sizeofMpfps) % 256 = 0
  unsummed : m (startaddr + sizeofMpfps + 7) = 0
  count : m.load 2 (startaddr + sizeofMpfps + 34) = es.length
  body : m.slice (startaddr + sizeofMpfps + sizeofMpcth) es.flatten.length = es.flatten
  pos : curraddr = startaddr + sizeofMpfps + sizeofMpcth + es.flatten.length

section Grow
variable {m m' : Mem} {startaddr curraddr : Nat} {es new : List (List UInt8)}

theorem mpfp_sum (m : Mem) (mpfp gpa : Nat) :
    byteSum ((mptBuildMpfp m mpfp gpa).slice mpfp sizeofMpfps) % 256 = 0 := by
  refine checksum_sum (Nat.le_add_right _ _) (Nat.add_lt_add_left (by decide) _) ?_
  have hsub : mpfp + 10 - mpfp = 10 := by omega
  rw [Mem.put, if_pos ⟨Nat.le_add_right _ _, by simp [mpfpSig, ascii]⟩, hsub]
  rfl

theorem length_mpch : (mpchSig ++ [0, 0, mpSpecrev, 0] ++ mpchOemid ++ mpchProdid ++
    LittleEndian.bytes 4 0 ++ LittleEndian.bytes 2 0 ++ LittleEndian.bytes 2 0 ++
    LittleEndian.bytes 4 lapicPaddr ++ LittleEndian.bytes 2 0 ++ [0, 0]).length = sizeofMpcth := rfl

theorem built_header (m : Mem) (startaddr : Nat) :
    Built startaddr (startaddr + sizeofMpfps + sizeofMpcth)
      (mptBuildMpch (mptBuildMpfp m startaddr mptableBase) (startaddr + sizeofMpfps)) [] := by
  have hsum := mpfp_sum m startaddr mptableBase
  generalize mptBuildMpfp m startaddr mptableBase = m₁ at hsum ⊢
  have hemit := Emits.put m₁ (startaddr + sizeofMpfps) (mpchSig ++ [0, 0, mpSpecrev, 0] ++ mpchOemid ++
    mpchProdid ++ LittleEndian.bytes 4 0 ++ LittleEndian.bytes 2 0 ++ LittleEndian.bytes 2 0 ++
    LittleEndian.bytes 4 lapicPaddr ++ LittleEndian.bytes 2 0 ++ [0, 0])
  have hbyte : ∀ i < sizeofMpcth, mptBuildMpch m₁ (startaddr + sizeofMpfps) (startaddr + sizeofMpfps + i) =
      (mpchSig ++ [0, 0, mpSpecrev, 0] ++ mpchOemid ++ mpchProdid ++
        LittleEndian.bytes 4 0 ++ LittleEndian.bytes 2 0 ++ LittleEndian.bytes 2 0 ++
        LittleEndian.bytes 4 lapicPaddr ++ LittleEndian.bytes 2 0 ++ [0, 0]).getD i 0 := by
    intro i hi
    have hsub : startaddr + sizeofMpfps + i - (startaddr + sizeofMpfps) = i := by omega
    rw [mptBuildMpch, Mem.put, length_mpch, if_pos ⟨Nat.le_add_right _ _, by omega⟩, hsub]
  constructor
  · rw [mptBuildMpch, hemit.slice_of_disjoint (Or.inl (Nat.le_refl _))]
    exact hsum
  · exact hbyte 7 (by decide)
  · have h34 : mptBuildMpch m₁ (startaddr + sizeofMpfps) (startaddr + sizeofMpfps + 34 + 0) = 0 :=
      hbyte 34 (by decide)
    have h35 : mptBuildMpch m₁ (startaddr + sizeofMpfps) (startaddr + sizeofMpfps + 34 + 1) = 0 :=
      hbyte 35 (by decide)
    have hzero : (mptBuildMpch m₁ (startaddr + sizeofMpfps)).slice (startaddr + sizeofMpfps + 34) 2 =
        [0, 0] := by
      rw [Mem.slice, show List.range 2 = [0, 1] from rfl, List.map_cons, List.map_cons, List.map_nil,
        h34, h35]
    rw [load_eq_slice, hzero]
    rfl
  · rfl
  · rfl

theorem addEntryCount_frame {mpch k x : Nat} (h : x < mpch + 34 ∨ mpch + 36 ≤ x) :
    addEntryCount m mpch k x = m x := by
  rw [addEntryCount, Mem.store_eq_put]
  refine put_of_outside ?_
  rw [LittleEndian.length_bytes]
  omega

theorem Built.emit {k n : Nat} (h : Built startaddr curraddr m es)
    (hemit : Emits m m' curraddr new.flatten) (hk : new.length = k) (hn : new.flatten.length = n)
    (hsmall : es.length + k < 2 ^ 16) :
    Built startaddr (curraddr + n) (addEntryCount m' (startaddr + sizeofMpfps) k) (es ++ new) := by
  have hmpfps : sizeofMpfps = 16 := rfl
  have hmpcth : sizeofMpcth = 44 := rfl
  have hpos := h.pos
  have hload : m'.load 2 (startaddr + sizeofMpfps + 34) = es.length := by
    rw [load_eq_slice, hemit.slice_of_disjoint (by omega), ← load_eq_slice, h.count]
  constructor
  · rw [slice_congr fun x hx hx' => addEntryCount_frame (Or.inl (by omega)),
      hemit.slice_of_disjoint (by omega)]
    exact h.pointer
  · rw [addEntryCount_frame (Or.inl (by omega)), hemit.frame _ (by omega)]
    exact h.unsummed
  · rw [addEntryCount, hload, Mem.load_store (by omega), List.length_append, hk]
  · rw [slice_congr fun x hx hx' => addEntryCount_frame (Or.inr (by omega)), List.flatten_append,
      List.length_append, slice_add, ← hpos, hemit.written, hemit.slice_of_disjoint (by omega), h.body]
  · rw [List.flatten_append, List.length_append, hn, hpos, Nat.add_assoc]

/-- The length and the checksum are in, and the rest as it was. -/
structure Finished (startaddr : Nat) (m : Mem) (es : List (List UInt8)) : Prop where
  pointer : byteSum (m.slice startaddr sizeofMpfps) % 256 = 0
  length : m.load 2 (startaddr + sizeofMpfps + 4) = sizeofMpcth + es.flatten.length
  count : m.load 2 (startaddr + sizeofMpfps + 34) = es.length
  body : m.slice (startaddr + sizeofMpfps + sizeofMpcth) es.flatten.length = es.flatten
  sum : byteSum (m.slice (startaddr + sizeofMpfps) (sizeofMpcth + es.flatten.length)) % 256 = 0

theorem Built.finish (h : Built startaddr curraddr m es)
    (hsmall : sizeofMpcth + es.flatten.length < 2 ^ 16)
    (hstore : m' = m.store 2 (startaddr + sizeofMpfps + 4) (curraddr - (startaddr + sizeofMpfps))) :
    Finished startaddr (m'.put (startaddr + sizeofMpfps + 7)
      [mptComputeChecksum m' (startaddr + sizeofMpfps) (m'.load 2 (startaddr + sizeofMpfps + 4))]) es := by
  have hmpfps : sizeofMpfps = 16 := rfl
  have hmpcth : sizeofMpcth = 44 := rfl
  have hpos := h.pos
  have hlen : curraddr - (startaddr + sizeofMpfps) = sizeofMpcth + es.flatten.length := by omega
  have hload : m'.load 2 (startaddr + sizeofMpfps + 4) = sizeofMpcth + es.flatten.length := by
    rw [hstore, hlen, Mem.load_store hsmall]
  have hemit := Emits.put m (startaddr + sizeofMpfps + 4)
    (LittleEndian.bytes 2 (curraddr - (startaddr + sizeofMpfps)))
  rw [← Mem.store_eq_put, ← hstore] at hemit
  have hword : (LittleEndian.bytes 2 (curraddr - (startaddr + sizeofMpfps))).length = 2 :=
    LittleEndian.length_bytes ..
  rw [hload]
  generalize hv : mptComputeChecksum m' (startaddr + sizeofMpfps) (sizeofMpcth + es.flatten.length) = v
  have hput := Emits.put m' (startaddr + sizeofMpfps + 7) [v]
  have hone : [v].length = 1 := rfl
  constructor
  · rw [hput.slice_of_disjoint (by omega), hemit.slice_of_disjoint (by omega)]
    exact h.pointer
  · rw [load_eq_slice, hput.slice_of_disjoint (by omega), ← load_eq_slice, hload]
  · rw [load_eq_slice, hput.slice_of_disjoint (by omega), hemit.slice_of_disjoint (by omega),
      ← load_eq_slice, h.count]
  · rw [hput.slice_of_disjoint (by omega), hemit.slice_of_disjoint (by omega), h.body]
  · rw [← hv]
    refine checksum_sum (by omega) (by omega) ?_
    rw [hemit.frame _ (by omega)]
    exact h.unsummed

end Grow

/-! ## The whole table -/

/-- The entries in the order they are written. -/
def mpEntries (ncpu : Nat) (bi : Option Slotinfos) : List (List UInt8) :=
  (List.range ncpu).map procEntry ++ [busEntry 0 mpeBusnamePci, busEntry 1 mpeBusnameIsa] ++
    [ioapicEntry 0] ++ (isaIntEntries ++ pciEntries bi) ++
    [(localIntEntry intentryTypeExtint 0).bytes, (localIntEntry intentryTypeNmi 1).bytes]

def vmMaxcpu : Nat := 16

theorem length_pciEntries (bi : Option Slotinfos) :
    (pciEntries bi).length = pciCountLintr bi ∧ (pciEntries bi).length ≤ 128 ∧
      (pciEntries bi).flatten.length = sizeofEntry * (pciEntries bi).length := by
  have hone : ∀ r ∈ pciEntries bi, r.length = sizeofEntry := by
    intro r hr
    cases bi with
    | none => cases hr
    | some si =>
      obtain ⟨sp, -, rfl⟩ := List.mem_map.mp hr
      exact IntEntry.length_bytes _
  refine ⟨?_, ?_, Records.length_flatten_of_eq hone⟩
  · cases bi with
    | none => rfl
    | some si => exact (List.length_map _).trans (pciCountLintr_eq si).symm
  · cases bi with
    | none => exact Nat.zero_le _
    | some si => exact (List.length_map _).trans_le (length_requested_le si)

theorem length_procEntries (ncpu : Nat) :
    ((List.range ncpu).map procEntry).flatten.length = sizeofProcEntry * ncpu := by
  have hone : ∀ r ∈ (List.range ncpu).map procEntry, r.length = sizeofProcEntry := by
    intro r hr
    obtain ⟨i, -, rfl⟩ := List.mem_map.mp hr
    exact length_procEntry i
  rw [Records.length_flatten_of_eq hone, List.length_map, List.length_range]

theorem length_mpEntries (ncpu : Nat) (bi : Option Slotinfos) :
    (mpEntries ncpu bi).flatten.length = 20 * ncpu + 168 + 8 * (pciEntries bi).length := by
  have hflat := (length_pciEntries bi).2.2
  have hisa := length_isaIntEntries
  have hprocs := length_procEntries ncpu
  have hbuses : [busEntry 0 mpeBusnamePci, busEntry 1 mpeBusnameIsa].flatten.length = 16 := rfl
  have hioapic : [ioapicEntry 0].flatten.length = 8 := rfl
  have hlocal : [(localIntEntry intentryTypeExtint 0).bytes,
    (localIntEntry intentryTypeNmi 1).bytes].flatten.length = 16 := rfl
  unfold mpEntries
  simp only [List.flatten_append, List.length_append]
  rw [hprocs, hbuses, hioapic, hisa, hflat, hlocal]
  simp only [sizeofProcEntry, sizeofEntry]
  omega

/-- What a successful build leaves. -/
theorem mptableBuild_finished {ram : GuestRam} {ncpu : Nat} {businfo : Businfos} {m m' : Mem}
    (hncpu : ncpu ≤ vmMaxcpu) (h : mptableBuild ram ncpu businfo m = .ok m') :
    ∃ startaddr, xhVmMapGpa ram mptableBase mptableMaxLength = some startaddr ∧
      Finished startaddr m' (mpEntries ncpu (businfo 0)) := by
  unfold mptableBuild at h
  split at h
  · cases h
  · rename_i startaddr hmap
    split at h
    · cases h
    · rename_i hmany
      have hbus : ∀ bus < pciBusmax, businfo (bus + 1) = none := by
        intro bus hlt
        refine Option.not_isSome_iff_eq_none.mp fun hsome => hmany ?_
        exact List.any_eq_true.mpr ⟨bus, List.mem_range.mpr hlt, hsome⟩
      obtain rfl := Except.ok.inj h
      refine ⟨startaddr, hmap, ?_⟩
      obtain ⟨hcount, hpci, hflat⟩ := length_pciEntries (businfo 0)
      have hioints := countIoint_single hbus
      unfold vmMaxcpu at hncpu
      have hprocsLen : ((List.range ncpu).map procEntry).flatten.length = sizeofProcEntry * ncpu :=
        length_procEntries ncpu
      have hioFlat : (isaIntEntries ++ pciEntries (businfo 0)).flatten.length =
          sizeofEntry * mptCountIointEntries businfo := by
        rw [List.flatten_append, List.length_append, length_isaIntEntries, hflat, hioints, ← hcount,
          Nat.mul_add]
      have hioLen : (isaIntEntries ++ pciEntries (businfo 0)).length = mptCountIointEntries businfo := by
        rw [List.length_append, hioints, ← hcount]
        rfl
      have hprocs := (built_header m startaddr).emit (procEntries_emits _ _ ncpu)
        ((List.length_map _).trans List.length_range) hprocsLen (by simp only [List.length_nil]; omega)
      rw [List.nil_append] at hprocs
      have hbuses := hprocs.emit (busEntries_emits _ _) (k := mpeNumBuses) rfl
        (n := sizeofEntry * mpeNumBuses) rfl (by simp [mpeNumBuses]; omega)
      have hioapic := hbuses.emit (ioapicEntries_emits _ _ 0) (k := 1) rfl (n := sizeofEntry) rfl
        (by simp; omega)
      have hioint := hioapic.emit (iointEntries_emits _ _ hbus) hioLen hioFlat
        (by rw [hioints, ← hcount]; simp; omega)
      have hlocal := hioint.emit (localintEntries_emits _ _) (k := mpeiiNumLocalIrq) rfl
        (n := sizeofEntry * mpeiiNumLocalIrq) rfl
        (by simp [hioLen, hioints, ← hcount, mpeiiNumLocalIrq]; omega)
      have hsmall : sizeofMpcth + (mpEntries ncpu (businfo 0)).flatten.length < 2 ^ 16 := by
        rw [length_mpEntries]
        simp only [sizeofMpcth]
        omega
      rw [← mpEntries] at hlocal
      exact hlocal.finish hsmall rfl

/-- It fails only where there is no memory for it or a second bus. -/
theorem mptableBuild_isOk {ram : GuestRam} {businfo : Businfos} {startaddr : Nat} (ncpu : Nat)
    (m : Mem) (hmap : xhVmMapGpa ram mptableBase mptableMaxLength = some startaddr)
    (hbus : ∀ bus < pciBusmax, businfo (bus + 1) = none) :
    ∃ m', mptableBuild ram ncpu businfo m = .ok m' := by
  rw [mptableBuild, hmap]
  simp only
  rw [if_neg]
  · exact ⟨_, rfl⟩
  · intro hany
    obtain ⟨bus, hmem, hsome⟩ := List.any_eq_true.mp hany
    rw [hbus bus (List.mem_range.mp hmem)] at hsome
    cases hsome

/-! ## Reading it -/

/-- The size of an entry by its type byte. -/
def entrySize (bs : List UInt8) : Nat :=
  if bs.head? = some mpctEntryProcessor then sizeofProcEntry else sizeofEntry

theorem delimited_cons {type : UInt8} {bs : List UInt8}
    (hlen : (type :: bs).length = entrySize [type]) : Records.Delimited entrySize (type :: bs) :=
  fun _ => hlen.symm

theorem mpEntries_delimited {ncpu : Nat} {bi : Option Slotinfos} {e : List UInt8}
    (he : e ∈ mpEntries ncpu bi) : Records.Delimited entrySize e := by
  have hint : ∀ x : IntEntry, x.type ≠ mpctEntryProcessor → Records.Delimited entrySize x.bytes := by
    intro x hx
    refine delimited_cons ((IntEntry.length_bytes x).trans ?_)
    exact (if_neg fun h => hx (Option.some.inj h)).symm
  have hisa : ∀ pin, (isaIntEntry 0 pin).type = mpctEntryInt := by
    intro pin
    unfold isaIntEntry
    simp only
    split_ifs
    all_goals rfl
  unfold mpEntries at he
  simp only [List.mem_append, List.mem_cons, List.not_mem_nil, or_false] at he
  rcases he with (((he | rfl | rfl) | rfl) | he | he) | rfl | rfl
  · obtain ⟨i, -, rfl⟩ := List.mem_map.mp he
    exact delimited_cons (length_procEntry i)
  · exact delimited_cons rfl
  · exact delimited_cons rfl
  · exact delimited_cons rfl
  · obtain ⟨pin, -, rfl⟩ := List.mem_map.mp he
    exact hint _ (by rw [hisa]; decide)
  · cases bi with
    | none => cases he
    | some si =>
      obtain ⟨sp, -, rfl⟩ := List.mem_map.mp he
      exact hint _ (by decide : mpctEntryInt ≠ mpctEntryProcessor)
  · exact hint _ (by decide)
  · exact hint _ (by decide)

/-- What a reader meets that steps over as many entries as the header counts, and what is left then
before the end the header gives. -/
def readEntries (startaddr : Nat) (m : Mem) : List (List UInt8) × List UInt8 :=
  let mpch := startaddr + sizeofMpfps
  Records.read entrySize (m.load 2 (mpch + 34))
    (m.slice (mpch + sizeofMpcth) (m.load 2 (mpch + 4) - sizeofMpcth))

theorem Finished.read {startaddr : Nat} {m : Mem} {ncpu : Nat} {bi : Option Slotinfos}
    (h : Finished startaddr m (mpEntries ncpu bi)) :
    readEntries startaddr m = (mpEntries ncpu bi, []) := by
  have hdelim : ∀ e ∈ mpEntries ncpu bi, Records.Delimited entrySize e :=
    fun e he => mpEntries_delimited he
  have hread := Records.read_flatten hdelim []
  rw [List.append_nil] at hread
  simp only [readEntries]
  rw [h.count, h.length, Nat.add_sub_cancel_left, h.body]
  exact hread

/-- A PCI interrupt entry for this slot and pin. -/
def isPciInt (slot pin : Nat) (e : List UInt8) : Bool :=
  e.getD 0 0 = mpctEntryInt ∧ e.getD 4 0 = 0 ∧ (e.getD 5 0).toNat = slot <<< 2 ||| pin

/-- The I/O APIC pin of an interrupt entry. -/
def dstApicInt (e : List UInt8) : Nat := (e.getD 7 0).toNat

theorem slotPin_inj {slot pin slot' pin' : Nat} (hpin : pin < 4) (hpin' : pin' < 4)
    (h : slot <<< 2 ||| pin = slot' <<< 2 ||| pin') : slot = slot' ∧ pin = pin' := by
  rw [Nat.shiftLeft_eq, Nat.shiftLeft_eq, Nat.mul_comm, Nat.mul_comm slot',
    ← Nat.two_pow_add_eq_or_of_lt hpin, ← Nat.two_pow_add_eq_or_of_lt hpin'] at h
  omega

theorem isPciInt_entry {si : Slotinfos} {sp : Nat × Nat} {slot pin : Nat} (hsp : sp ∈ requested si)
    (hpin : pin < 4) :
    isPciInt slot pin (pciIntEntry 0 sp.1 (sp.2 + 1) (si sp.1 sp.2).iiIoapicIrq 0).bytes = true ↔
      sp = (slot, pin) := by
  obtain ⟨slot', pin'⟩ := sp
  obtain ⟨hslot, hpin', -⟩ := mem_requested.mp hsp
  have hsmall : slot' <<< 2 ||| pin' < 2 ^ 8 :=
    Nat.or_lt_two_pow (by rw [Nat.shiftLeft_eq]; unfold maxslots at hslot; omega) (by omega)
  have hirq : (UInt8.ofNat (slot' <<< 2 ||| (pin' + 1 - 1))).toNat = slot' <<< 2 ||| pin' :=
    UInt8.toNat_ofNat_of_lt hsmall
  have hentry : isPciInt slot pin (pciIntEntry 0 slot' (pin' + 1) (si slot' pin').iiIoapicIrq 0).bytes =
      decide ((UInt8.ofNat (slot' <<< 2 ||| (pin' + 1 - 1))).toNat = slot <<< 2 ||| pin) := by
    simp [isPciInt, IntEntry.bytes, pciIntEntry, LittleEndian.bytes]
  rw [hentry, decide_eq_true_eq, hirq]
  constructor
  · intro h
    obtain ⟨rfl, rfl⟩ := slotPin_inj hpin' hpin h
    rfl
  · intro h
    obtain ⟨rfl, rfl⟩ := Prod.mk.inj h
    rfl

/-- Of the PCI entries, one is for a pin that is requested. -/
theorem filter_pciIntEntries {si : Slotinfos} {slot pin : Nat}
    (hslot : (si slot pin).iiCount ≠ 0 → slot < maxslots) (hpin : pin < 4) :
    (pciIntEntries si).filter (isPciInt slot pin) =
      if (si slot pin).iiCount ≠ 0 then
        [(pciIntEntry 0 slot (pin + 1) (si slot pin).iiIoapicIrq 0).bytes]
      else [] := by
  have hfilter : (requested si).filter (isPciInt slot pin ∘ fun sp =>
      (pciIntEntry 0 sp.1 (sp.2 + 1) (si sp.1 sp.2).iiIoapicIrq 0).bytes) =
      (requested si).filter fun sp => sp = (slot, pin) := by
    refine List.filter_congr fun sp hsp => ?_
    rw [Function.comp_apply, Bool.eq_iff_iff, isPciInt_entry hsp hpin, decide_eq_true_eq]
  rw [pciIntEntries, List.filter_map, hfilter, List.filter_eq]
  split
  · rename_i hcount
    have hmem : (slot, pin) ∈ requested si := mem_requested.mpr ⟨hslot hcount, hpin, hcount⟩
    rw [List.count_eq_one_of_mem (requested_nodup si) hmem]
    rfl
  · rename_i hcount
    rw [List.count_eq_zero_of_not_mem fun hmem => hcount (mem_requested.mp hmem).2.2]
    rfl

theorem isPciInt_ne {type : UInt8} {bs : List UInt8} (slot pin : Nat) (h : type ≠ mpctEntryInt) :
    isPciInt slot pin (type :: bs) = false :=
  decide_eq_false fun hall => h hall.1

/-- No other part of the table has one. -/
theorem filter_mpEntries {ncpu slot pin : Nat} {bi : Option Slotinfos} :
    (mpEntries ncpu bi).filter (isPciInt slot pin) =
      (pciEntries bi).filter (isPciInt slot pin) := by
  have hprocs : ((List.range ncpu).map procEntry).filter (isPciInt slot pin) = [] := by
    refine List.filter_eq_nil_iff.mpr fun e he h => ?_
    obtain ⟨i, -, rfl⟩ := List.mem_map.mp he
    rw [procEntry, List.cons_append, List.cons_append, List.cons_append, List.cons_append,
      isPciInt_ne slot pin (by decide : mpctEntryProcessor ≠ mpctEntryInt)] at h
    cases h
  have hisa : isaIntEntries.filter (isPciInt slot pin) = [] := by
    refine List.filter_eq_nil_iff.mpr fun e he h => ?_
    obtain ⟨i, hi, rfl⟩ := List.mem_map.mp he
    have hbus : ∀ i < 16, (isaIntEntry 0 i).bytes.getD 4 0 ≠ 0 := by decide
    exact hbus i (List.mem_range.mp hi) (of_decide_eq_true h).2.1
  have hbus (id : UInt8) (type : List UInt8) : isPciInt slot pin (busEntry id type) = false :=
    isPciInt_ne slot pin (by decide : mpctEntryBus ≠ mpctEntryInt)
  have hioapic : isPciInt slot pin (ioapicEntry 0) = false :=
    isPciInt_ne slot pin (by decide : mpctEntryIoapic ≠ mpctEntryInt)
  have hlocal (type int : UInt8) : isPciInt slot pin (localIntEntry type int).bytes = false :=
    isPciInt_ne slot pin (by decide : mpctEntryLocalInt ≠ mpctEntryInt)
  rw [mpEntries]
  simp only [List.filter_append, hprocs, hisa, List.nil_append, List.filter_cons, hbus, hioapic,
    hlocal, Bool.false_eq_true, if_false, List.filter_nil, List.append_nil]

/-! ## The pins that are requested, and where they are routed -/

/-- A function on bus 0, after it has requested a pin or not. -/
structure PciFunc where
  slot : Nat
  pi : PciIrq.Devinst
  slot_lt : slot < maxslots
  pin_le : pi.pin ≤ 4

/-- `ii_count` by slot and pin. -/
abbrev Counts := Nat → Nat → Nat

/-- The pin of a slot that the fewest functions are on, and it is counted there. -/
def pciLintrRequest (counts : Counts) (slot : Nat) : Nat × Counts :=
  let bestpin := [1, 2, 3].foldl
    (fun bestpin pin => if counts slot pin < counts slot bestpin then pin else bestpin) 0
  (bestpin + 1, Function.update counts slot
    (Function.update (counts slot) bestpin (counts slot bestpin + 1)))

def PciFunc.requests (f : PciFunc) (slot pin : Nat) : Bool := f.slot = slot ∧ f.pi.pin = pin + 1

/-- Each pin counts the functions on it. -/
def Allocated (counts : Counts) (funcs : List PciFunc) : Prop :=
  ∀ slot pin, counts slot pin = funcs.countP (·.requests slot pin)

/-- `pci_lintr_request` is one way to allocate the pins. -/
theorem Allocated.request {counts : Counts} {funcs : List PciFunc} (h : Allocated counts funcs)
    {f : PciFunc} (hf : f.pi.pin = (pciLintrRequest counts f.slot).1) :
    Allocated (pciLintrRequest counts f.slot).2 (funcs ++ [f]) := by
  intro slot pin
  rw [pciLintrRequest] at hf ⊢
  generalize List.foldl _ 0 [1, 2, 3] = best at hf ⊢
  simp only at hf ⊢
  have hreq : f.requests slot pin = true ↔ f.slot = slot ∧ best = pin := by
    rw [PciFunc.requests, decide_eq_true_eq, hf, Nat.add_right_cancel_iff]
  rw [List.countP_append, ← h slot pin, List.countP_singleton]
  by_cases hs : slot = f.slot
  · subst hs
    rw [Function.update_self]
    by_cases hp : pin = best
    · subst hp
      rw [Function.update_self, if_pos (hreq.mpr ⟨rfl, rfl⟩)]
    · rw [Function.update_of_ne hp, if_neg fun hall => hp (hreq.mp hall).2.symm]
      rfl
  · rw [Function.update_of_ne hs, if_neg fun hall => hs (hreq.mp hall).1.symm]
    rfl

/-- The loop of `init_pci` over bus 0. -/
def routeAll (r : Router) (funcs : List PciFunc) : Option Router :=
  funcs.foldlM (fun r f => (PciIrq.pciLintrRoute r f.slot f.pi).map Prod.fst) r

theorem routeIoapic_keeps (r : Router) {slot pin slot' pin' : Nat}
    (h : (r.intpins slot' pin').ioapicIrq ≠ 0) :
    ((PciIrq.routeIoapic r slot pin).intpins slot' pin').ioapicIrq = (r.intpins slot' pin').ioapicIrq := by
  unfold PciIrq.routeIoapic
  split
  · rename_i hzero
    simp only [PciIrq.ioapicPciAllocIrq, PciIrq.setIntpin_intpins]
    split
    · rename_i hsame
      obtain ⟨rfl, rfl⟩ := hsame
      exact absurd hzero h
    · rfl
  · rfl

theorem routePirq_keeps {r r' : Router} (hok : RouterOk r) {slot pin : Nat}
    (h : PciIrq.routePirq r slot pin = some r') (slot' pin' : Nat) :
    (r'.intpins slot' pin').ioapicIrq = (r.intpins slot' pin').ioapicIrq := by
  unfold PciIrq.routePirq at h
  split at h
  · obtain ⟨⟨p, t⟩, hp, rfl⟩ := Option.map_eq_some_iff.mp h
    obtain ⟨-, hintpins, -⟩ := hok.allocPin hp
    simp only [PciIrq.setIntpin_intpins, hintpins]
    split
    · rename_i hsame
      obtain ⟨rfl, rfl⟩ := hsame
      rfl
    · rfl
  · obtain rfl := Option.some.inj h
    rfl

/-- A function is given an I/O APIC pin, and the pins that are given out stay. -/
theorem pciLintrRoute_keeps {r r' : Router} {slot : Nat} {pi pi' : PciIrq.Devinst} (hok : RouterOk r)
    (h : PciIrq.pciLintrRoute r slot pi = some (r', pi')) : RouterOk r' ∧
      (∀ slot' pin', (r.intpins slot' pin').ioapicIrq ≠ 0 →
        (r'.intpins slot' pin').ioapicIrq = (r.intpins slot' pin').ioapicIrq) ∧
      ∀ pin, pi.pin = pin + 1 → (r'.intpins slot pin).ioapicIrq ≠ 0 := by
  refine ⟨(PciIrq.pciLintrRoute_routed hok h).1, ?_⟩
  unfold PciIrq.pciLintrRoute at h
  split at h
  · rename_i hzero
    cases h
    exact ⟨fun _ _ _ => rfl, fun pin hpin => absurd (hzero.symm.trans hpin) (by omega)⟩
  · obtain ⟨t, ht, heq⟩ := Option.map_eq_some_iff.mp h
    cases heq
    obtain ⟨hio, hne⟩ := hok.routeIoapic slot (pi.pin - 1)
    have hsame := routePirq_keeps hio ht
    refine ⟨fun slot' pin' hne' => (hsame slot' pin').trans (routeIoapic_keeps r hne'), ?_⟩
    intro pin hpin
    have hpred : pi.pin - 1 = pin := by omega
    rw [hpred] at hne hsame
    rw [hsame slot pin]
    exact hne

theorem routeAll_routed {r r' : Router} {funcs : List PciFunc} (hok : RouterOk r)
    (h : routeAll r funcs = some r') : RouterOk r' ∧
      (∀ slot pin, (r.intpins slot pin).ioapicIrq ≠ 0 →
        (r'.intpins slot pin).ioapicIrq = (r.intpins slot pin).ioapicIrq) ∧
      ∀ f ∈ funcs, ∀ pin, f.pi.pin = pin + 1 → (r'.intpins f.slot pin).ioapicIrq ≠ 0 := by
  induction funcs generalizing r with
  | nil =>
    obtain rfl := Option.some.inj h
    exact ⟨hok, fun _ _ _ => rfl, fun f hf => absurd hf List.not_mem_nil⟩
  | cons f funcs ih =>
    rw [routeAll, List.foldlM_cons] at h
    obtain ⟨t, ht, hrest⟩ := Option.bind_eq_some_iff.mp h
    obtain ⟨⟨t', pi'⟩, hroute, rfl⟩ := Option.map_eq_some_iff.mp ht
    obtain ⟨hok', hkeep, hown⟩ := pciLintrRoute_keeps hok hroute
    obtain ⟨hlast, hkeep', hown'⟩ := ih hok' hrest
    refine ⟨hlast, fun slot pin hne => ?_, fun g hg pin hpin => ?_⟩
    · rw [← hkeep slot pin hne]
      refine hkeep' slot pin ?_
      rw [hkeep slot pin hne]
      exact hne
    · rcases List.mem_cons.mp hg with rfl | hg
      · rw [hkeep' _ _ (hown pin hpin)]
        exact hown pin hpin
      · exact hown' g hg pin hpin

/-- Bus 0 as `init_pci` leaves it. -/
structure Wired (funcs : List PciFunc) (r : Router) (bi : Option Slotinfos) : Prop where
  routed : ∃ r₀, RouterOk r₀ ∧ routeAll r₀ funcs = some r
  slots : bi = none ∧ funcs = [] ∨ ∃ counts, Allocated counts funcs ∧
    bi = some fun slot pin => ⟨counts slot pin, (r.intpins slot pin).ioapicIrq⟩

section Wire
variable {funcs : List PciFunc} {r : Router} {bi : Option Slotinfos}

/-- A pin that is requested has an I/O APIC pin that a byte holds. -/
theorem Wired.irq (h : Wired funcs r bi) {f : PciFunc} {slot pin : Nat} (hf : f ∈ funcs)
    (hreq : f.requests slot pin = true) :
    16 ≤ (r.intpins slot pin).ioapicIrq ∧ (r.intpins slot pin).ioapicIrq < PciIrq.redirEntries := by
  obtain ⟨r₀, hok, hroute⟩ := h.routed
  obtain ⟨hok', -, hown⟩ := routeAll_routed hok hroute
  obtain ⟨rfl, hpin⟩ := of_decide_eq_true hreq
  exact (hok'.ioapicIrq f.slot pin).resolve_left (hown f hf pin hpin)

/-- One entry for each pin that a function requests, and none for any other. -/
theorem Wired.filter (h : Wired funcs r bi) {slot pin : Nat} (hpin : pin < 4) :
    ((pciEntries bi).filter (isPciInt slot pin)).map dstApicInt =
      if funcs.any (·.requests slot pin) then [(r.intpins slot pin).ioapicIrq] else [] := by
  rcases h.slots with ⟨rfl, rfl⟩ | ⟨counts, hcounts, rfl⟩
  · rfl
  · have hiff : counts slot pin ≠ 0 ↔ funcs.any (·.requests slot pin) = true := by
      rw [hcounts slot pin, List.any_eq_true, ← Nat.pos_iff_ne_zero, List.countP_pos_iff]
    have hslot : counts slot pin ≠ 0 → slot < maxslots := by
      intro hne
      obtain ⟨f, -, hreq⟩ := List.any_eq_true.mp (hiff.mp hne)
      obtain ⟨rfl, -⟩ := of_decide_eq_true hreq
      exact f.slot_lt
    simp only [pciEntries, Option.map_some, Option.getD_some]
    rw [filter_pciIntEntries hslot hpin]
    by_cases hreq : funcs.any (·.requests slot pin) = true
    · rw [if_pos (hiff.mpr hreq), if_pos hreq]
      obtain ⟨f, hf, hf'⟩ := List.any_eq_true.mp hreq
      have hirq := h.irq hf hf'
      have hsmall : (r.intpins slot pin).ioapicIrq < 2 ^ 8 := by
        have := hirq.2
        unfold PciIrq.redirEntries at this
        omega
      exact congrArg (fun irq => [irq]) (UInt8.toNat_ofNat_of_lt hsmall)
    · rw [if_neg (fun hne => hreq (hiff.mp hne)), if_neg hreq]
      rfl

end Wire

/-! ## The table is well formed -/

/-- What a guest finds at `startaddr`. -/
structure WellFormed (startaddr : Nat) (m : Mem) (ncpu : Nat) (funcs : List PciFunc) (r : Router)
    (bi : Option Slotinfos) : Prop where
  pointer : byteSum (m.slice startaddr sizeofMpfps) % 256 = 0
  table : byteSum (m.slice (startaddr + sizeofMpfps) (m.load 2 (startaddr + sizeofMpfps + 4))) % 256 = 0
  /-- Every entry that was written is met, and the last of them ends where the header says. -/
  entries : readEntries startaddr m = (mpEntries ncpu bi, [])
  pins : ∀ slot pin, pin < 4 →
    (((readEntries startaddr m).1).filter (isPciInt slot pin)).map dstApicInt =
      if funcs.any (·.requests slot pin) then [(r.intpins slot pin).ioapicIrq] else []

theorem mptableBuild_wellFormed {ram : GuestRam} {ncpu : Nat} {businfo : Businfos} {m m' : Mem}
    {funcs : List PciFunc} {r : Router} (hncpu : ncpu ≤ vmMaxcpu)
    (hwired : Wired funcs r (businfo 0)) (h : mptableBuild ram ncpu businfo m = .ok m') :
    ∃ startaddr, xhVmMapGpa ram mptableBase mptableMaxLength = some startaddr ∧
      WellFormed startaddr m' ncpu funcs r (businfo 0) := by
  obtain ⟨startaddr, hmap, hdone⟩ := mptableBuild_finished hncpu h
  refine ⟨startaddr, hmap, hdone.pointer, ?_, hdone.read, fun slot pin hpin => ?_⟩
  · rw [hdone.length]
    exact hdone.sum
  · rw [hdone.read]
    simp only
    rw [filter_mpEntries]
    exact hwired.filter hpin

/-- A function in slot 3 that is alone there. -/
def loneFunc : PciFunc := ⟨3, ⟨1, .idle, 0, 0, false, false, 0⟩, by decide, by decide⟩

def loneRouter : Router := (routeAll PciIrq.pciIrqInit [loneFunc]).getD PciIrq.pciIrqInit

def loneBus : Slotinfos := fun slot pin =>
  ⟨(pciLintrRequest (fun _ _ => 0) 3).2 slot pin, (loneRouter.intpins slot pin).ioapicIrq⟩

theorem noHighmem_lt : 0 < 2 ^ 47 := by decide

/-- Two mebibytes of guest memory. -/
def loneRam : GuestRam where
  lowmem := 0x200000
  highmem := 0
  lowmemAddr := 0x11000000
  highmemAddr := 0x12000000
  lowmem_lt := by decide
  highmem_lt := noHighmem_lt
  lowmemAddr_aligned := by decide
  highmemAddr_aligned := by decide
  lowmemAddr_pos _ := by decide
  highmemAddr_pos _ := by decide

theorem loneBus_wired : Wired [loneFunc] loneRouter (some loneBus) where
  routed := ⟨PciIrq.pciIrqInit, PciIrq.pciIrqInit_ok, rfl⟩
  slots := by
    have hnone : Allocated (fun _ _ => 0) [] := fun _ _ => rfl
    exact Or.inr ⟨_, hnone.request (f := loneFunc) rfl, rfl⟩

theorem mptableBuild_wellFormed_lone : (loneRouter.intpins 3 0).ioapicIrq = 16 ∧
    ∃ m', mptableBuild loneRam 1 (fun bus => if bus = 0 then some loneBus else none) (fun _ => 0) =
      .ok m' ∧
    ∃ startaddr, xhVmMapGpa loneRam mptableBase mptableMaxLength = some startaddr ∧
      WellFormed startaddr m' 1 [loneFunc] loneRouter (some loneBus) := by
  obtain ⟨m', hm'⟩ := @mptableBuild_isOk loneRam
    (fun bus => if bus = 0 then some loneBus else none) _ 1 (fun _ => 0) rfl fun _ _ => rfl
  exact ⟨rfl, m', hm', mptableBuild_wellFormed (by decide) loneBus_wired hm'⟩

end Xhyve.Firmware.MpTable
