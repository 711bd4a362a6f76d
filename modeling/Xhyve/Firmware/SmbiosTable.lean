import Xhyve.Firmware.MpTable

/-!
# The SMBIOS table

`smbios_build` puts the entry point and the structures behind it into guest memory. Every initializer
appends what its template holds, filled in with the guest's processors and memory, and the last step
sets the lengths, the count and the checksums of the entry point.
-/

namespace Xhyve.Firmware.SmbiosTable

open Xhyve.Lib Xhyve.Lib.Mem
open Xhyve.Virtio (GuestRam xhVmMapGpa)
open MpTable (ascii vmMaxcpu)

def smbiosBase : Nat := 0xF1000
def smbiosMaxLength : Nat := 0xF2400 - 0xF1000
def gb : Nat := 1024 * 1024 * 1024

def smbiosTypeBios : UInt8 := 0
def smbiosTypeSystem : UInt8 := 1
def smbiosTypeChassis : UInt8 := 3
def smbiosTypeProcessor : UInt8 := 4
def smbiosTypeMemarray : UInt8 := 16
def smbiosTypeMemdevice : UInt8 := 17
def smbiosTypeMemarraymap : UInt8 := 19
def smbiosTypeBoot : UInt8 := 32
def smbiosTypeEot : UInt8 := 127

/-! ## The templates -/

/-- `struct smbios_template_entry`; the initializers are in `smbiosTemplate`. -/
structure SmbiosTemplateEntry where
  entry : List UInt8
  strings : Option (List (List UInt8))
  length_le : 4 ≤ entry.length
  /-- The byte behind the type is the size of the structure. -/
  length_eq : (entry.getD 1 0).toNat = entry.length
  strings_ne : strings ≠ some []
  plain : NulStrings.Plain (strings.getD [])

def smbiosFlIsa : Nat := 0x00000010
def smbiosFlPci : Nat := 0x00000080
def smbiosFlShadow : Nat := 0x00001000
def smbiosFlCdboot : Nat := 0x00008000
def smbiosFlEdd : Nat := 0x00080000
def smbiosXb1FlAcpi : UInt8 := 1
def smbiosXb2FlBbs : UInt8 := 1
def smbiosXb2FlVm : UInt8 := 0x10

def smbiosType0 : SmbiosTemplateEntry where
  entry := [smbiosTypeBios, 24, 0, 0, 1, 2] ++ LittleEndian.bytes 2 0xF000 ++ [3, 0] ++
    LittleEndian.bytes 8
      (smbiosFlIsa ||| smbiosFlPci ||| smbiosFlShadow ||| smbiosFlCdboot ||| smbiosFlEdd) ++
    [smbiosXb1FlAcpi, smbiosXb2FlBbs ||| smbiosXb2FlVm] ++ [0, 0, 0xff, 0xff]
  strings := some [ascii ['B', 'H', 'Y', 'V', 'E'], ascii ['1', '.', '0', '0'],
    ascii ['0', '3', '/', '1', '4', '/', '2', '0', '1', '4']]
  length_le := by decide
  length_eq := rfl
  strings_ne := by decide
  plain := by decide

def blank : List UInt8 := ascii [' ']
def noneString : List UInt8 := ascii ['N', 'o', 'n', 'e']

def smbiosWakeupSwitch : UInt8 := 6

def smbiosType1 : SmbiosTemplateEntry where
  entry := [smbiosTypeSystem, 27, 0, 0, 1, 2, 3, 4] ++ LittleEndian.bytes 16 0 ++
    [smbiosWakeupSwitch, 5, 6]
  strings := some [blank, ascii ['B', 'H', 'Y', 'V', 'E'], ascii ['1', '.', '0'], noneString, noneString,
    blank]
  length_le := by decide
  length_eq := rfl
  strings_ne := by decide
  plain := by decide

def smbiosChtUnknown : UInt8 := 2
def smbiosChstSafe : UInt8 := 3
def smbiosChscNone : UInt8 := 3

def smbiosType3 : SmbiosTemplateEntry where
  entry := [smbiosTypeChassis, 18, 0, 0, 1, smbiosChtUnknown, 2, 3, 4, smbiosChstSafe, smbiosChstSafe,
    smbiosChstSafe, smbiosChscNone, 0, 0, 0, 0, 5]
  strings := some [blank, ascii ['1', '.', '0'], noneString, noneString, noneString]
  length_le := by decide
  length_eq := rfl
  strings_ne := by decide
  plain := by decide

def smbiosPrtCentral : UInt8 := 3
def smbiosPrfOther : Nat := 1
def smbiosPrsPresent : UInt8 := 0x40
def smbiosPrsEnabled : UInt8 := 1
def smbiosPruNone : UInt8 := 6
def smbiosPfl64b : Nat := 4
/-- `(uint16_t) (-1)`. -/
def noHandle : Nat := 0xffff

def smbiosType4 : SmbiosTemplateEntry where
  entry := [smbiosTypeProcessor, 42, 0, 0, 1, smbiosPrtCentral, UInt8.ofNat smbiosPrfOther, 2] ++
    LittleEndian.bytes 8 0 ++ [3, 0] ++ LittleEndian.bytes 2 0 ++ LittleEndian.bytes 2 0 ++
    LittleEndian.bytes 2 0 ++ [smbiosPrsPresent ||| smbiosPrsEnabled, smbiosPruNone] ++
    LittleEndian.bytes 2 noHandle ++ LittleEndian.bytes 2 noHandle ++ LittleEndian.bytes 2 noHandle ++
    [4, 5, 6, 0, 0, 0] ++ LittleEndian.bytes 2 smbiosPfl64b ++ LittleEndian.bytes 2 smbiosPrfOther
  strings := some [blank, blank, blank, noneString, noneString, noneString]
  length_le := by decide
  length_eq := rfl
  strings_ne := by decide
  plain := by decide

def sizeofType4 : Nat := 42

def smbiosMalSysmb : UInt8 := 3
def smbiosMauSystem : UInt8 := 3
def smbiosMaeNone : UInt8 := 3

def smbiosType16 : SmbiosTemplateEntry where
  entry := [smbiosTypeMemarray, 23, 0, 0, smbiosMalSysmb, smbiosMauSystem, smbiosMaeNone] ++
    LittleEndian.bytes 4 0x80000000 ++ LittleEndian.bytes 2 noHandle ++ LittleEndian.bytes 2 0 ++
    LittleEndian.bytes 8 0
  strings := none
  length_le := by decide
  length_eq := rfl
  strings_ne := by decide
  plain := by decide

def smbiosMdffUnknown : UInt8 := 2
def smbiosMdtUnknown : UInt8 := 2
def smbiosMdfUnknown : Nat := 4

def smbiosType17 : SmbiosTemplateEntry where
  entry := [smbiosTypeMemdevice, 40, 0, 0] ++ LittleEndian.bytes 2 noHandle ++
    LittleEndian.bytes 2 noHandle ++ LittleEndian.bytes 2 64 ++ LittleEndian.bytes 2 64 ++
    LittleEndian.bytes 2 0x7fff ++ [smbiosMdffUnknown, 0, 1, 2, smbiosMdtUnknown] ++
    LittleEndian.bytes 2 smbiosMdfUnknown ++ LittleEndian.bytes 2 0 ++ [3, 4, 5, 6, 0] ++
    LittleEndian.bytes 4 0 ++ LittleEndian.bytes 2 0 ++ LittleEndian.bytes 2 0 ++
    LittleEndian.bytes 2 0 ++ LittleEndian.bytes 2 0
  strings := some [blank, blank, blank, noneString, noneString, noneString]
  length_le := by decide
  length_eq := rfl
  strings_ne := by decide
  plain := by decide

def smbiosType19 : SmbiosTemplateEntry where
  entry := [smbiosTypeMemarraymap, 31, 0, 0] ++ LittleEndian.bytes 4 0xffffffff ++
    LittleEndian.bytes 4 0xffffffff ++ LittleEndian.bytes 2 noHandle ++ [1] ++
    LittleEndian.bytes 8 0 ++ LittleEndian.bytes 8 0
  strings := none
  length_le := by decide
  length_eq := rfl
  strings_ne := by decide
  plain := by decide

def smbiosBootNormal : UInt8 := 0

def smbiosType32 : SmbiosTemplateEntry where
  entry := [smbiosTypeBoot, 11, 0, 0, 0, 0, 0, 0, 0, 0, smbiosBootNormal]
  strings := none
  length_le := by decide
  length_eq := rfl
  strings_ne := by decide
  plain := by decide

def smbiosType127 : SmbiosTemplateEntry where
  entry := [smbiosTypeEot, 4, 0, 0]
  strings := none
  length_le := by decide
  length_eq := rfl
  strings_ne := by decide
  plain := by decide

/-! ## The initializers -/

/-- What the initializers share: the memory, the number of structures so far, and the static
`type16_handle`. -/
structure Build where
  mem : Mem
  n : Nat
  type16Handle : Nat

/-- The string section of a template; without strings it is two NULs. -/
def putStrings (strings : Option (List (List UInt8))) (m : Mem) (curaddr : Nat) : Mem × Nat :=
  match strings with
  | some strings =>
    let r := strings.foldl
      (fun r string => (r.1.put r.2 (string ++ [0]), r.2 + (string.length + 1))) (m, curaddr)
    (r.1.put r.2 [0], r.2 + 1)
  | none => ((m.put curaddr [0]).put (curaddr + 1) [0], curaddr + 2)

/-- Returns `*endaddr` too. -/
def smbiosGenericInitializer (t : SmbiosTemplateEntry) (curaddr : Nat) (st : Build) : Build × Nat :=
  let m := st.mem.put curaddr t.entry
  let m := m.store 2 (curaddr + 2) (st.n + 1)
  let r := putStrings t.strings m (curaddr + t.entry.length)
  ({ st with mem := r.1, n := (st.n + 1) % 2 ^ 16 }, r.2)

/-- The 16 bytes of a UUID. -/
abbrev Uuid := { bs : List UInt8 // bs.length = 16 }

/-- `uuid` is what `guest_uuid_str`, or else a digest of the host's name, comes to; `none` where either
is not to be had. -/
def smbiosType1Initializer (uuid : Option Uuid) (t : SmbiosTemplateEntry) (curaddr : Nat) (st : Build) :
    Option (Build × Nat) :=
  let r := smbiosGenericInitializer t curaddr st
  uuid.map fun uuid => ({ r.1 with mem := r.1.mem.put (curaddr + 8) uuid.val }, r.2)

/-- `"CPU #%d"`. -/
def cpuString (i : Nat) : List UInt8 := ascii (['C', 'P', 'U', ' ', '#'] ++ Nat.toDigits 10 i)

/-- The turn of the loop for processor `i`: its socket string goes over the last NUL. -/
def smbiosType4Turn (t : SmbiosTemplateEntry) (r : Build × Nat) (i : Nat) : Build × Nat :=
  let curaddr := r.2
  let r := smbiosGenericInitializer t curaddr r.1
  let p := curaddr + sizeofType4
  let nstrings := (r.1.mem.slice p (r.2 - 1 - p)).count 0
  let m := r.1.mem.put (r.2 - 1) (cpuString i ++ [0])
  let endaddr := r.2 + (cpuString i).length
  let m := m.put endaddr [0]
  ({ r.1 with mem := m.put (curaddr + 4) [UInt8.ofNat (nstrings + 1)] }, endaddr + 1)

def smbiosType4Initializer (guestNcpus : Nat) (t : SmbiosTemplateEntry) (curaddr : Nat) (st : Build) :
    Build × Nat :=
  (List.range guestNcpus).foldl (smbiosType4Turn t) (st, curaddr)

def smbiosType16Initializer (guestLomem guestHimem : Nat) (t : SmbiosTemplateEntry) (curaddr : Nat)
    (st : Build) : Build × Nat :=
  let st := { st with type16Handle := st.n }
  let r := smbiosGenericInitializer t curaddr st
  let m := r.1.mem.store 8 (curaddr + 15) (guestLomem + guestHimem)
  ({ r.1 with mem := m.store 2 (curaddr + 13) (if guestHimem > 0 then 2 else 1) }, r.2)

/-- One structure of `smbios_type17_initializer`. -/
def smbiosType17One (xsize : Nat) (t : SmbiosTemplateEntry) (curaddr : Nat) (st : Build) : Build × Nat :=
  let r := smbiosGenericInitializer t curaddr st
  let m := r.1.mem.store 2 (curaddr + 4) r.1.type16Handle
  ({ r.1 with mem := m.store 4 (curaddr + 28) xsize }, r.2)

def smbiosType17Initializer (guestLomem guestHimem : Nat) (t : SmbiosTemplateEntry) (curaddr : Nat)
    (st : Build) : Build × Nat :=
  let r := smbiosType17One guestLomem t curaddr st
  if guestHimem > 0 then smbiosType17One guestHimem t r.2 r.1 else r

/-- One structure of `smbios_type19_initializer`. -/
def smbiosType19One (xsaddr xeaddr : Nat) (t : SmbiosTemplateEntry) (curaddr : Nat) (st : Build) :
    Build × Nat :=
  let r := smbiosGenericInitializer t curaddr st
  let m := r.1.mem.store 2 (curaddr + 12) r.1.type16Handle
  let m := m.store 8 (curaddr + 15) xsaddr
  ({ r.1 with mem := m.store 8 (curaddr + 23) xeaddr }, r.2)

def smbiosType19Initializer (guestLomem guestHimem : Nat) (t : SmbiosTemplateEntry) (curaddr : Nat)
    (st : Build) : Build × Nat :=
  let r := smbiosType19One 0 guestLomem t curaddr st
  if guestHimem > 0 then smbiosType19One (4 * gb) guestHimem t r.2 r.1 else r

/-! ## The entry point and the whole table -/

def smbiosEntryEanchor : List UInt8 := ascii ['_', 'S', 'M', '_']
def smbiosEntryIanchor : List UInt8 := ascii ['_', 'D', 'M', 'I', '_']
def sizeofEntryPoint : Nat := 0x1F

def smbiosEpInitializer (m : Mem) (smbiosEp staddr : Nat) : Mem :=
  m.put smbiosEp (smbiosEntryEanchor ++ [0, 0x1F, 2, 6] ++ LittleEndian.bytes 2 0 ++
    [0, 0, 0, 0, 0, 0] ++ smbiosEntryIanchor ++ [0] ++ LittleEndian.bytes 2 0 ++
    LittleEndian.bytes 4 staddr ++ LittleEndian.bytes 2 0 ++ [0x24])

def smbiosEpFinalizer (m : Mem) (smbiosEp len num maxssize : Nat) : Mem :=
  let m := m.store 2 (smbiosEp + 8) maxssize
  let m := m.store 2 (smbiosEp + 22) len
  let m := m.store 2 (smbiosEp + 28) num
  let m := m.put (smbiosEp + 21) [(m.slice (smbiosEp + 0x10) 0xf).foldl (· - ·) 0]
  m.put (smbiosEp + 4) [(m.slice smbiosEp 0x1f).foldl (· - ·) 0]

structure Guest where
  ncpus : Nat
  lomem : Nat
  himem : Nat
  uuid : Option Uuid

def smbiosTemplate (g : Guest) : List (Nat → Build → Option (Build × Nat)) :=
  [fun curaddr st => some (smbiosGenericInitializer smbiosType0 curaddr st),
    smbiosType1Initializer g.uuid smbiosType1,
    fun curaddr st => some (smbiosGenericInitializer smbiosType3 curaddr st),
    fun curaddr st => some (smbiosType4Initializer g.ncpus smbiosType4 curaddr st),
    fun curaddr st => some (smbiosType16Initializer g.lomem g.himem smbiosType16 curaddr st),
    fun curaddr st => some (smbiosType17Initializer g.lomem g.himem smbiosType17 curaddr st),
    fun curaddr st => some (smbiosType19Initializer g.lomem g.himem smbiosType19 curaddr st),
    fun curaddr st => some (smbiosGenericInitializer smbiosType32 curaddr st),
    fun curaddr st => some (smbiosGenericInitializer smbiosType127 curaddr st)]

inductive Errno
  | enomem
  /-- What an initializer returned. -/
  | initializer
  /-- The assertion on the length. -/
  | assertion
deriving DecidableEq, Repr

/-- The larger of each turn's `size` and the largest before. No initializer stores to `size`, so that
its value in each turn is what the stack holds. -/
def maxssize (size : Nat → UInt16) (turns : Nat) : UInt16 :=
  (List.range turns).foldl (fun maxssize i => if size i > maxssize then size i else maxssize) 0

def smbiosBuild (ram : GuestRam) (guestNcpus : Nat) (uuid : Option Uuid) (size : Nat → UInt16)
    (m : Mem) : Except Errno Mem :=
  match xhVmMapGpa ram smbiosBase smbiosMaxLength with
  | none => .error .enomem
  | some startaddr =>
    let m := smbiosEpInitializer m startaddr (smbiosBase + sizeofEntryPoint)
    let ststartaddr := startaddr + sizeofEntryPoint
    let template := smbiosTemplate ⟨guestNcpus, ram.lowmem, ram.highmem, uuid⟩
    match template.foldlM (fun r initializer => initializer r.2 r.1) (⟨m, 0, 0⟩, ststartaddr) with
    | none => .error .initializer
    | some (st, curaddr) =>
      if curaddr - startaddr < smbiosMaxLength then
        .ok (smbiosEpFinalizer st.mem startaddr ((curaddr - ststartaddr) % 2 ^ 16) st.n
          (maxssize size template.length).toNat)
      else .error .assertion

/-! ## Reading the structures -/

/-- The formatted part by its length byte, and the strings up to two NULs. -/
def structSize (bs : List UInt8) : Nat :=
  (bs.getD 1 0).toNat + NulStrings.size (bs.drop (bs.getD 1 0).toNat)

def structType (r : List UInt8) : UInt8 := r.getD 0 0

/-- `n` bytes at `k`. -/
def field (r : List UInt8) (k n : Nat) : Nat := LittleEndian.toNat ((r.drop k).take n)

def structHandle (r : List UInt8) : Nat := field r 2 2

def structString (r : List UInt8) (v : Nat) : Option (List UInt8) :=
  NulStrings.get v (r.drop (r.getD 1 0).toNat)

/-- Where the formatted part holds numbers of strings. -/
def stringFields (type : UInt8) : List Nat :=
  if type = smbiosTypeBios then [4, 5, 8]
  else if type = smbiosTypeSystem then [4, 5, 6, 7, 25, 26]
  else if type = smbiosTypeChassis then [4, 6, 7, 8, 17]
  else if type = smbiosTypeProcessor then [4, 7, 16, 32, 33, 34]
  else if type = smbiosTypeMemdevice then [16, 17, 23, 24, 25, 26]
  else []

/-- Where a structure names the memory array. -/
def arrayField (type : UInt8) : Option Nat :=
  if type = smbiosTypeMemdevice then some 4
  else if type = smbiosTypeMemarraymap then some 12
  else none

/-- What a reader makes of one structure. -/
structure Sound (r : List UInt8) : Prop where
  delimited : Records.Delimited structSize r
  strings : ∀ k ∈ stringFields (structType r), (structString r (r.getD k 0).toNat).isSome

theorem sound_of {f : List UInt8} {ss : List (List UInt8)} (hplain : NulStrings.Plain ss)
    (hlen : 2 ≤ f.length ∧ (f.getD 1 0).toNat = f.length)
    (hnum : ∀ k ∈ stringFields (structType f), k < f.length ∧ f.getD k 0 ≠ 0 ∧
      (f.getD k 0).toNat ≤ ss.length) : Sound (f ++ NulStrings.encode ss) := by
  have hbyte : ∀ (rest : List UInt8) {k : Nat}, k < f.length → (f ++ rest).getD k 0 = f.getD k 0 := by
    intro rest k hk
    simp only [List.getD_eq_getElem?_getD]
    rw [List.getElem?_append_left hk]
  have hdrop : ∀ rest : List UInt8, (f ++ rest).drop ((f ++ rest).getD 1 0).toNat = rest := by
    intro rest
    rw [hbyte rest (by omega), hlen.2, List.drop_left]
  constructor
  · intro rest
    rw [structSize, List.append_assoc, hdrop, hbyte _ (by omega), hlen.2,
      NulStrings.size_encode hplain, List.length_append]
  · intro k hk
    rw [structType, hbyte _ (by omega)] at hk
    obtain ⟨hin, hne, hle⟩ := hnum k hk
    obtain ⟨v, hv⟩ : ∃ v, (f.getD k 0).toNat = v + 1 :=
      Nat.exists_eq_succ_of_ne_zero fun hzero => hne (UInt8.toNat_inj.mp hzero)
    have hlt : v < ss.length := by omega
    rw [structString, hdrop, hbyte _ hin, hv, NulStrings.get_encode hplain, List.getElem?_eq_getElem hlt]
    rfl

/-! ## The structures that are written -/

section Records

/-- A template with its handle. -/
def handled (t : SmbiosTemplateEntry) (handle : Nat) : List UInt8 :=
  patch 2 (LittleEndian.bytes 2 handle) t.entry

def genericRecord (t : SmbiosTemplateEntry) (handle : Nat) : List UInt8 :=
  handled t handle ++ NulStrings.encode (t.strings.getD [])

def type1Record (uuid : Uuid) (handle : Nat) : List UInt8 :=
  patch 8 uuid.val (handled smbiosType1 handle) ++ NulStrings.encode (smbiosType1.strings.getD [])

def type4Strings (i : Nat) : List (List UInt8) := smbiosType4.strings.getD [] ++ [cpuString i]

def type4Record (i handle : Nat) : List UInt8 :=
  patch 4 [7] (handled smbiosType4 handle) ++ NulStrings.encode (type4Strings i)

def type16Record (guestLomem guestHimem handle : Nat) : List UInt8 :=
  patch 13 (LittleEndian.bytes 2 (if guestHimem > 0 then 2 else 1))
    (patch 15 (LittleEndian.bytes 8 (guestLomem + guestHimem)) (handled smbiosType16 handle)) ++
    NulStrings.encode []

def type17Record (array xsize handle : Nat) : List UInt8 :=
  patch 28 (LittleEndian.bytes 4 xsize)
    (patch 4 (LittleEndian.bytes 2 array) (handled smbiosType17 handle)) ++
    NulStrings.encode (smbiosType17.strings.getD [])

def type19Record (array xsaddr xeaddr handle : Nat) : List UInt8 :=
  patch 23 (LittleEndian.bytes 8 xeaddr) (patch 15 (LittleEndian.bytes 8 xsaddr)
    (patch 12 (LittleEndian.bytes 2 array) (handled smbiosType19 handle))) ++ NulStrings.encode []

theorem cpuString_plain (i : Nat) : cpuString i ≠ [] ∧ 0 ∉ cpuString i := by
  refine ⟨by simp [cpuString, ascii], fun hmem => ?_⟩
  rw [cpuString, ascii, List.map_append] at hmem
  rcases List.mem_append.mp hmem with hfront | hdigits
  · have hplain : (0 : UInt8) ∉ ascii ['C', 'P', 'U', ' ', '#'] := by decide
    exact hplain hfront
  · obtain ⟨c, hc, hzero⟩ := List.mem_map.mp hdigits
    have hdigit := Char.isDigit_iff_toNat.mp (Nat.isDigit_of_mem_toDigits (by omega) (by omega) hc)
    have hnat : c.toNat % 256 = 0 := congrArg UInt8.toNat hzero
    have hlo : '0'.toNat = 48 := rfl
    have hhi : '9'.toNat = 57 := rfl
    omega

theorem type4Strings_plain (i : Nat) : NulStrings.Plain (type4Strings i) := by
  intro s hs
  rcases List.mem_append.mp hs with hs | hs
  · exact smbiosType4.plain s hs
  · obtain rfl := List.mem_singleton.mp hs
    exact cpuString_plain i

theorem handled_length (t : SmbiosTemplateEntry) (handle : Nat) :
    (handled t handle).length = t.entry.length := by
  have hle := t.length_le
  exact length_patch (by rw [LittleEndian.length_bytes]; omega)

/-- What an initializer has made of a template: the type, the length and the numbers of the strings are
still the template's. -/
structure Fills (t : SmbiosTemplateEntry) (f : List UInt8) : Prop where
  length : f.length = t.entry.length
  kept : ∀ k ∈ 0 :: 1 :: stringFields (structType t.entry), f.getD k 0 = t.entry.getD k 0

/-- A range without the bytes that have to stay. -/
def Free (t : SmbiosTemplateEntry) (k n : Nat) : Prop :=
  k + n ≤ t.entry.length ∧ ∀ j ∈ 0 :: 1 :: stringFields (structType t.entry), j < k ∨ k + n ≤ j

instance (t : SmbiosTemplateEntry) (k n : Nat) : Decidable (Free t k n) := inferInstanceAs (Decidable (_ ∧ _))

theorem Fills.patched {t : SmbiosTemplateEntry} {f cs : List UInt8} {k : Nat} (h : Fills t f)
    (hfree : Free t k cs.length) : Fills t (patch k cs f) := by
  have hfit : k + cs.length ≤ f.length := by
    rw [h.length]
    exact hfree.1
  exact ⟨(length_patch hfit).trans h.length,
    fun j hj => (getD_patch (hfree.2 j hj) hfit).trans (h.kept j hj)⟩

theorem Fills.bytes {t : SmbiosTemplateEntry} {f : List UInt8} {k n : Nat} (h : Fills t f)
    (hfree : Free t k n) (v : Nat) : Fills t (patch k (LittleEndian.bytes n v) f) :=
  h.patched (by rw [LittleEndian.length_bytes]; exact hfree)

theorem handled_fills {t : SmbiosTemplateEntry} (hfree : Free t 2 2) (handle : Nat) :
    Fills t (handled t handle) :=
  Fills.bytes ⟨rfl, fun _ _ => rfl⟩ hfree handle

/-- The numbers of the strings are those of strings there are. -/
def Numbered (t : SmbiosTemplateEntry) (n : Nat) : Prop :=
  ∀ k ∈ stringFields (structType t.entry), k < t.entry.length ∧ t.entry.getD k 0 ≠ 0 ∧
    (t.entry.getD k 0).toNat ≤ n

instance (t : SmbiosTemplateEntry) (n : Nat) : Decidable (Numbered t n) :=
  inferInstanceAs (Decidable (∀ _ ∈ _, _ ∧ _ ∧ _))

theorem Fills.sound {t : SmbiosTemplateEntry} {f : List UInt8} {ss : List (List UInt8)} (h : Fills t f)
    (hplain : NulStrings.Plain ss) (hnum : Numbered t ss.length) : Sound (f ++ NulStrings.encode ss) := by
  have hle := t.length_le
  have htype : structType f = structType t.entry := h.kept 0 (by simp)
  have hbyte : f.getD 1 0 = t.entry.getD 1 0 := h.kept 1 (by simp)
  refine sound_of hplain ⟨by rw [h.length]; omega, ?_⟩ fun k hk => ?_
  · rw [hbyte, h.length]
    exact t.length_eq
  · rw [htype] at hk
    rw [h.length, h.kept k (List.mem_cons_of_mem _ (List.mem_cons_of_mem _ hk))]
    exact hnum k hk

variable (handle : Nat)

theorem generic_sound {t : SmbiosTemplateEntry} (hfree : Free t 2 2)
    (hnum : Numbered t (t.strings.getD []).length) : Sound (genericRecord t handle) :=
  (handled_fills hfree handle).sound t.plain hnum

theorem type1_fills (uuid : Uuid) : Fills smbiosType1 (patch 8 uuid.val (handled smbiosType1 handle)) :=
  (handled_fills (by decide) handle).patched (by rw [uuid.property]; decide)

/-- The socket's string is the last. -/
theorem type4_sound (i : Nat) : Sound (type4Record i handle) :=
  sound_of (type4Strings_plain i) (of_decide_eq_true rfl) (of_decide_eq_true rfl)

theorem type16_fills (guestLomem guestHimem : Nat) : Fills smbiosType16
    (patch 13 (LittleEndian.bytes 2 (if guestHimem > 0 then 2 else 1))
      (patch 15 (LittleEndian.bytes 8 (guestLomem + guestHimem)) (handled smbiosType16 handle))) :=
  ((handled_fills (by decide) handle).bytes (by decide) _).bytes (by decide) _

theorem type17_fills (array xsize : Nat) : Fills smbiosType17
    (patch 28 (LittleEndian.bytes 4 xsize)
      (patch 4 (LittleEndian.bytes 2 array) (handled smbiosType17 handle))) :=
  ((handled_fills (by decide) handle).bytes (by decide) _).bytes (by decide) _

theorem type19_fills (array xsaddr xeaddr : Nat) : Fills smbiosType19
    (patch 23 (LittleEndian.bytes 8 xeaddr) (patch 15 (LittleEndian.bytes 8 xsaddr)
      (patch 12 (LittleEndian.bytes 2 array) (handled smbiosType19 handle)))) :=
  (((handled_fills (by decide) handle).bytes (by decide) _).bytes (by decide) _).bytes (by decide) _

end Records

/-! ## What each initializer appends -/

/-- The structures are at the pointer now, it has moved behind them, and they are counted; their
handles go on with the count. -/
structure Adds (st : Build) (curaddr : Nat) (out : Build × Nat) (new : List (List UInt8)) : Prop where
  emits : Emits st.mem out.1.mem curaddr new.flatten
  endaddr : out.2 = curaddr + new.flatten.length
  n : st.n + new.length < 2 ^ 16 → out.1.n = st.n + new.length
  handles : st.n + new.length < 2 ^ 16 → new.map structHandle = List.range' (st.n + 1) new.length

theorem field_append {f : List UInt8} {k n : Nat} (h : k + n ≤ f.length) (rest : List UInt8) :
    field (f ++ rest) k n = field f k n := by
  rw [field, field, List.drop_append_of_le_length (by omega),
    List.take_append_of_le_length (by rw [List.length_drop]; omega)]

theorem field_bytes {f : List UInt8} {k n : Nat} (h : k + n ≤ f.length) (v : Nat) :
    field (patch k (LittleEndian.bytes n v) f) k n = v % 256 ^ n := by
  have hcut := @take_drop_patch k f (LittleEndian.bytes n v)
    (by rw [LittleEndian.length_bytes]; exact h)
  rw [LittleEndian.length_bytes] at hcut
  rw [field, hcut, LittleEndian.toNat_bytes]

theorem field_patch {f cs : List UInt8} {j k n : Nat} (hj : j + n ≤ k ∨ k + cs.length ≤ j)
    (h : k + cs.length ≤ f.length) : field (patch k cs f) j n = field f j n :=
  congrArg LittleEndian.toNat (take_drop_patch_of_outside hj h)

theorem structHandle_handled (t : SmbiosTemplateEntry) (handle : Nat) (rest : List UInt8) :
    structHandle (handled t handle ++ rest) = handle % 2 ^ 16 := by
  have hle := t.length_le
  rw [structHandle, field_append (by rw [handled_length]; omega), handled, field_bytes (by omega)]
  rfl

theorem structHandle_patch {k : Nat} {f cs : List UInt8} (hk : 4 ≤ k) (hfit : k + cs.length ≤ f.length)
    (rest : List UInt8) : structHandle (patch k cs f ++ rest) = structHandle (f ++ rest) := by
  rw [structHandle, structHandle, field_append (by rw [length_patch hfit]; omega),
    field_append (by omega), field_patch (Or.inl hk) hfit]

section Initializers
variable {st : Build} {curaddr : Nat} {out out' : Build × Nat} {new new' : List (List UInt8)}
variable {f rest cs : List UInt8}

theorem Adds.append (h : Adds st curaddr out new) (h' : Adds out.1 out.2 out' new') :
    Adds st curaddr out' (new ++ new') := by
  have hstart := h.endaddr
  have hn := h.n
  have hn' := h'.n
  constructor
  · rw [List.flatten_append]
    exact h.emits.append (hstart ▸ h'.emits)
  · rw [h'.endaddr, hstart, List.flatten_append, List.length_append, Nat.add_assoc]
  · rw [List.length_append]
    intro hlt
    have hmid := hn (by omega)
    rw [hn' (by omega), hmid, Nat.add_assoc]
  · rw [List.length_append, List.map_append]
    intro hlt
    have hmid := hn (by omega)
    rw [h.handles (by omega), h'.handles (by omega), hmid, Nat.add_right_comm, List.range'_append_1]

theorem Adds.put (h : Adds st curaddr out [f ++ rest]) {k : Nat} (h4 : 4 ≤ k)
    (hk : k + cs.length ≤ f.length) :
    Adds st curaddr ({ out.1 with mem := out.1.mem.put (curaddr + k) cs }, out.2)
      [patch k cs f ++ rest] := by
  have hemits := h.emits
  have hend := h.endaddr
  rw [List.flatten_singleton] at hemits hend
  refine ⟨?_, ?_, h.n, fun hlt => ?_⟩
  · rw [List.flatten_singleton, ← patch_append hk]
    exact hemits.patch (by rw [List.length_append]; omega)
  · rw [List.flatten_singleton, List.length_append, length_patch hk, ← List.length_append]
    exact hend
  · rw [List.map_singleton, structHandle_patch h4 hk]
    exact h.handles hlt

theorem Adds.store (h : Adds st curaddr out [f ++ rest]) {k n : Nat} (h4 : 4 ≤ k)
    (hk : k + n ≤ f.length) (v : Nat) :
    Adds st curaddr ({ out.1 with mem := out.1.mem.store n (curaddr + k) v }, out.2)
      [patch k (LittleEndian.bytes n v) f ++ rest] := by
  rw [Mem.store_eq_put]
  exact h.put h4 (by rw [LittleEndian.length_bytes]; exact hk)

theorem putStrings_emits {strings : Option (List (List UInt8))} (hne : strings ≠ some []) (m : Mem)
    (a : Nat) : Emits m (putStrings strings m a).1 a (NulStrings.encode (strings.getD [])) ∧
      (putStrings strings m a).2 = a + (NulStrings.encode (strings.getD [])).length := by
  cases strings with
  | none => exact ⟨(Emits.put m a [0]).append (.put _ _ [0]), rfl⟩
  | some ss =>
    have hss : ss ≠ [] := fun h => hne (congrArg some h)
    obtain ⟨hemits, hend, -⟩ := Emits.foldl
      (fun r string => (r.1.put r.2 (string ++ [0]), r.2 + (string.length + 1))) (· ++ [0])
      (fun _ _ => True) (fun m a s _ => ⟨.put m a (s ++ [0]), by simp, trivial⟩) ss (m := m) (a := a) trivial
    have hcode : NulStrings.encode ss = ss.flatMap (· ++ [0]) ++ [0] := by
      rw [NulStrings.encode, if_neg hss]
    have hlast := Emits.put (putStrings (some ss) m a).1 a [0]
    rw [Option.getD_some, hcode]
    refine ⟨hemits.append ?_, ?_⟩
    · rw [← hend]
      exact .put _ _ [0]
    · rw [List.length_append, ← Nat.add_assoc, ← hend]
      rfl

theorem generic_adds (t : SmbiosTemplateEntry) (curaddr : Nat) (st : Build) :
    Adds st curaddr (smbiosGenericInitializer t curaddr st) [genericRecord t (st.n + 1)] := by
  have hle := t.length_le
  have hword : 2 + (LittleEndian.bytes 2 (st.n + 1)).length ≤ t.entry.length := by
    rw [LittleEndian.length_bytes]
    omega
  have hentry := (Emits.put st.mem curaddr t.entry).patch hword
  rw [← Mem.store_eq_put] at hentry
  obtain ⟨hstrings, hend⟩ := putStrings_emits t.strings_ne
    ((st.mem.put curaddr t.entry).store 2 (curaddr + 2) (st.n + 1)) (curaddr + t.entry.length)
  have hlen := handled_length t (st.n + 1)
  constructor
  · rw [List.flatten_singleton]
    refine hentry.append ?_
    rw [← handled, hlen]
    exact hstrings
  · rw [List.flatten_singleton, genericRecord, List.length_append, hlen, ← Nat.add_assoc]
    exact hend
  · exact fun hlt => Nat.mod_eq_of_lt hlt
  · intro hlt
    rw [List.map_singleton, genericRecord, structHandle_handled]
    exact congrArg (fun handle => [handle]) (Nat.mod_eq_of_lt hlt)

theorem type1_adds {uuid : Uuid} (curaddr : Nat) (st : Build)
    (h : smbiosType1Initializer (some uuid) smbiosType1 curaddr st = some out) :
    Adds st curaddr out [type1Record uuid (st.n + 1)] := by
  obtain rfl := Option.some.inj h
  refine (generic_adds smbiosType1 curaddr st).put (by decide) ?_
  rw [uuid.property, handled_length]
  decide

theorem type16_adds (guestLomem guestHimem curaddr : Nat) (st : Build) :
    Adds st curaddr (smbiosType16Initializer guestLomem guestHimem smbiosType16 curaddr st)
      [type16Record guestLomem guestHimem (st.n + 1)] := by
  have hlen := handled_length smbiosType16 (st.n + 1)
  have hsize := (generic_adds smbiosType16 curaddr { st with type16Handle := st.n }).store (k := 15)
    (n := 8) (by decide) (by rw [hlen]; decide) (guestLomem + guestHimem)
  have hndevs := hsize.store (k := 13) (n := 2) (by decide)
    (by rw [length_patch (by rw [LittleEndian.length_bytes, hlen]; decide), hlen]; decide)
    (if guestHimem > 0 then 2 else 1)
  exact ⟨hndevs.emits, hndevs.endaddr, hndevs.n, hndevs.handles⟩

theorem type17One_adds (xsize curaddr : Nat) (st : Build) :
    Adds st curaddr (smbiosType17One xsize smbiosType17 curaddr st)
      [type17Record st.type16Handle xsize (st.n + 1)] := by
  have hlen := handled_length smbiosType17 (st.n + 1)
  have harray := (generic_adds smbiosType17 curaddr st).store (k := 4) (n := 2) (by decide)
    (by rw [hlen]; decide) st.type16Handle
  refine harray.store (by decide) ?_ _
  rw [length_patch (by rw [LittleEndian.length_bytes, hlen]; decide), hlen]
  decide

theorem type19One_adds (xsaddr xeaddr curaddr : Nat) (st : Build) :
    Adds st curaddr (smbiosType19One xsaddr xeaddr smbiosType19 curaddr st)
      [type19Record st.type16Handle xsaddr xeaddr (st.n + 1)] := by
  have hlen := handled_length smbiosType19 (st.n + 1)
  have harray := (generic_adds smbiosType19 curaddr st).store (k := 12) (n := 2) (by decide)
    (by rw [hlen]; decide) st.type16Handle
  have hlen' : (patch 12 (LittleEndian.bytes 2 st.type16Handle)
      (handled smbiosType19 (st.n + 1))).length = smbiosType19.entry.length :=
    (length_patch (by rw [LittleEndian.length_bytes, hlen]; decide)).trans hlen
  have hstart := harray.store (k := 15) (n := 8) (by decide) (by rw [hlen']; decide) xsaddr
  refine hstart.store (by decide) ?_ _
  rw [length_patch (by rw [LittleEndian.length_bytes, hlen']; decide), hlen']
  decide

/-- The strings of the template, up to the last NUL. -/
def type4Front (handle : Nat) : List UInt8 :=
  handled smbiosType4 handle ++ (smbiosType4.strings.getD []).flatMap (· ++ [0])

theorem type4Front_eq (i handle : Nat) :
    genericRecord smbiosType4 handle = type4Front handle ++ [0] ∧
      handled smbiosType4 handle ++ NulStrings.encode (type4Strings i) =
        type4Front handle ++ (cpuString i ++ [0] ++ [0]) := by
  have hcode : NulStrings.encode (type4Strings i) =
      (smbiosType4.strings.getD []).flatMap (· ++ [0]) ++ (cpuString i ++ [0] ++ [0]) := by
    have hne : type4Strings i ≠ [] := by simp [type4Strings]
    rw [NulStrings.encode, if_neg hne, type4Strings, List.flatMap_append, List.append_assoc]
    simp
  refine ⟨rfl, ?_⟩
  rw [hcode, type4Front]
  exact (List.append_assoc ..).symm

/-- The template has six strings, so that the one for the socket is number 7. -/
theorem type4Turn_adds (curaddr : Nat) (st : Build) (i : Nat) :
    Adds st curaddr (smbiosType4Turn smbiosType4 (st, curaddr) i) [type4Record i (st.n + 1)] := by
  have hgen := generic_adds smbiosType4 curaddr st
  obtain ⟨hold, hnew⟩ := type4Front_eq i (st.n + 1)
  have hlen : (handled smbiosType4 (st.n + 1)).length = sizeofType4 := handled_length _ _
  have hfront : (type4Front (st.n + 1)).length = sizeofType4 + 21 := by
    rw [type4Front, List.length_append, hlen]
    rfl
  have hemits := hgen.emits
  have hend := hgen.endaddr
  rw [List.flatten_singleton, hold] at hemits hend
  rw [List.length_append, List.length_singleton, hfront] at hend
  have hcount : ((smbiosGenericInitializer smbiosType4 curaddr st).1.mem.slice (curaddr + sizeofType4)
      21).count 0 = 6 := by
    have hwritten := hemits.written
    rw [type4Front, List.append_assoc, List.length_append, slice_add, hlen] at hwritten
    have hback := (List.append_inj hwritten (by rw [length_slice, hlen])).2
    rw [List.length_append, slice_add] at hback
    have hstrings : (smbiosGenericInitializer smbiosType4 curaddr st).1.mem.slice
        (curaddr + sizeofType4) 21 = (smbiosType4.strings.getD []).flatMap (· ++ [0]) :=
      (List.append_inj hback (length_slice ..)).1
    rw [hstrings]
    rfl
  simp only [smbiosType4Turn]
  generalize smbiosGenericInitializer smbiosType4 curaddr st = r at hgen hemits hend hcount ⊢
  have hlast : r.2 - 1 = curaddr + (type4Front (st.n + 1)).length := by omega
  have hspan : r.2 - 1 - (curaddr + sizeofType4) = 21 := by omega
  have hcpu := (Emits.put r.1.mem (curaddr + (type4Front (st.n + 1)).length) (cpuString i ++ [0])).append
    (.put _ _ [0])
  have hover := hemits.overwrite hcpu (by simp)
  rw [← hnew, ← hlast] at hover
  have hnext : r.2 - 1 + (cpuString i ++ [0]).length = r.2 + (cpuString i).length := by
    rw [List.length_append, List.length_singleton]
    omega
  rw [hnext] at hover
  have hadds : Adds st curaddr ({ r.1 with
      mem := (r.1.mem.put (r.2 - 1) (cpuString i ++ [0])).put (r.2 + (cpuString i).length) [0] },
      r.2 + (cpuString i).length + 1)
      [handled smbiosType4 (st.n + 1) ++ NulStrings.encode (type4Strings i)] := by
    refine ⟨?_, ?_, hgen.n, fun hlt => ?_⟩
    · rw [List.flatten_singleton]
      exact hover
    · rw [List.flatten_singleton, hnew]
      simp only [List.length_append, List.length_singleton]
      omega
    · rw [List.map_singleton, structHandle_handled]
      exact congrArg (fun handle => [handle]) (Nat.mod_eq_of_lt hlt)
  rw [hspan, hcount]
  have hfits : 4 + ([7] : List UInt8).length ≤ (handled smbiosType4 (st.n + 1)).length := by
    rw [hlen]
    decide
  exact hadds.put (by decide) hfits

theorem type4_adds (curaddr : Nat) (st : Build) {guestNcpus : Nat} (hn : st.n + guestNcpus < 2 ^ 16) :
    Adds st curaddr (smbiosType4Initializer guestNcpus smbiosType4 curaddr st)
      ((List.range guestNcpus).map fun i => type4Record i (st.n + i + 1)) := by
  unfold smbiosType4Initializer
  induction guestNcpus with
  | zero => exact ⟨.nil _ _, rfl, fun _ => rfl, fun _ => rfl⟩
  | succ k ih =>
    have hfirst := ih (by omega)
    have hcount := hfirst.n (by rw [List.length_map, List.length_range]; omega)
    rw [List.length_map, List.length_range] at hcount
    rw [List.range_succ, List.foldl_append, List.map_append, List.foldl_cons, List.foldl_nil,
      List.map_singleton]
    refine hfirst.append ?_
    have hturn := type4Turn_adds (List.foldl (smbiosType4Turn smbiosType4) (st, curaddr) (List.range k)).2
      (List.foldl (smbiosType4Turn smbiosType4) (st, curaddr) (List.range k)).1 k
    rw [hcount] at hturn
    exact hturn

def type17Records (array guestLomem guestHimem handle : Nat) : List (List UInt8) :=
  type17Record array guestLomem handle ::
    if guestHimem > 0 then [type17Record array guestHimem (handle + 1)] else []

theorem type17_adds (guestLomem guestHimem curaddr : Nat) (st : Build) (hn : st.n + 1 < 2 ^ 16) :
    Adds st curaddr (smbiosType17Initializer guestLomem guestHimem smbiosType17 curaddr st)
      (type17Records st.type16Handle guestLomem guestHimem (st.n + 1)) := by
  have hfirst := type17One_adds guestLomem curaddr st
  have hcount : (smbiosType17One guestLomem smbiosType17 curaddr st).1.n = st.n + 1 := hfirst.n hn
  have hhandle : (smbiosType17One guestLomem smbiosType17 curaddr st).1.type16Handle = st.type16Handle :=
    rfl
  simp only [smbiosType17Initializer, type17Records]
  generalize smbiosType17One guestLomem smbiosType17 curaddr st = r at hfirst hcount hhandle ⊢
  split
  · have hsecond := type17One_adds guestHimem r.2 r.1
    rw [hcount, hhandle] at hsecond
    exact hfirst.append hsecond
  · exact hfirst

/-- The second range ends at the size of high memory. -/
def type19Records (array guestLomem guestHimem handle : Nat) : List (List UInt8) :=
  type19Record array 0 guestLomem handle ::
    if guestHimem > 0 then [type19Record array (4 * gb) guestHimem (handle + 1)] else []

theorem type19_adds (guestLomem guestHimem curaddr : Nat) (st : Build) (hn : st.n + 1 < 2 ^ 16) :
    Adds st curaddr (smbiosType19Initializer guestLomem guestHimem smbiosType19 curaddr st)
      (type19Records st.type16Handle guestLomem guestHimem (st.n + 1)) := by
  have hfirst := type19One_adds 0 guestLomem curaddr st
  have hcount : (smbiosType19One 0 guestLomem smbiosType19 curaddr st).1.n = st.n + 1 := hfirst.n hn
  have hhandle : (smbiosType19One 0 guestLomem smbiosType19 curaddr st).1.type16Handle =
      st.type16Handle := rfl
  simp only [smbiosType19Initializer, type19Records]
  generalize smbiosType19One 0 guestLomem smbiosType19 curaddr st = r at hfirst hcount hhandle ⊢
  split
  · have hsecond := type19One_adds (4 * gb) guestHimem r.2 r.1
    rw [hcount, hhandle] at hsecond
    exact hfirst.append hsecond
  · exact hfirst

theorem type17_handle (guestLomem guestHimem curaddr : Nat) (st : Build) :
    (smbiosType17Initializer guestLomem guestHimem smbiosType17 curaddr st).1.type16Handle =
      st.type16Handle := by
  simp only [smbiosType17Initializer]
  split
  all_goals rfl

/-- One structure more of types 17 and 19 each where there is high memory. -/
def more (guestHimem : Nat) : Nat := if guestHimem > 0 then 1 else 0

theorem length_type17Records (array guestLomem guestHimem handle : Nat) :
    (type17Records array guestLomem guestHimem handle).length = 1 + more guestHimem := by
  rw [type17Records, more]
  split
  all_goals rfl

theorem length_type19Records (array guestLomem guestHimem handle : Nat) :
    (type19Records array guestLomem guestHimem handle).length = 1 + more guestHimem := by
  rw [type19Records, more]
  split
  all_goals rfl

end Initializers

/-! ## The whole table -/

/-- The structures in the order they are written. Types 17 and 19 name the handle before that of type
16. -/
def smbiosStructs (g : Guest) (uuid : Uuid) : List (List UInt8) :=
  [genericRecord smbiosType0 1] ++ [type1Record uuid 2] ++ [genericRecord smbiosType3 3] ++
    ((List.range g.ncpus).map fun i => type4Record i (3 + i + 1)) ++
    [type16Record g.lomem g.himem (g.ncpus + 4)] ++
    type17Records (g.ncpus + 3) g.lomem g.himem (g.ncpus + 5) ++
    type19Records (g.ncpus + 3) g.lomem g.himem (g.ncpus + 6 + more g.himem) ++
    [genericRecord smbiosType32 (g.ncpus + 7 + 2 * more g.himem)] ++
    [genericRecord smbiosType127 (g.ncpus + 8 + 2 * more g.himem)]

theorem more_le (guestHimem : Nat) : more guestHimem ≤ 1 := by
  rw [more]
  split
  all_goals decide

/-- What the loop over the templates has come to after some of them. -/
structure Reached (inits : List (Nat → Build → Option (Build × Nat))) (m : Mem) (curaddr : Nat)
    (out : Build × Nat) (new : List (List UInt8)) (num : Nat) : Prop where
  run : inits.foldlM (fun r initializer => initializer r.2 r.1) (⟨m, 0, 0⟩, curaddr) = some out
  adds : Adds ⟨m, 0, 0⟩ curaddr out new
  count : out.1.n = num
  length : new.length = num

section Run
variable {inits : List (Nat → Build → Option (Build × Nat))} {m : Mem} {curaddr num num' : Nat}
variable {out out' : Build × Nat} {new new' : List (List UInt8)}

theorem Reached.start (m : Mem) (curaddr : Nat) : Reached [] m curaddr (⟨m, 0, 0⟩, curaddr) [] 0 :=
  ⟨rfl, ⟨.nil _ _, rfl, fun _ => rfl, fun _ => rfl⟩, rfl, rfl⟩

theorem Reached.next (h : Reached inits m curaddr out new num)
    (init : Nat → Build → Option (Build × Nat)) (hinit : init out.2 out.1 = some out')
    (hadds : Adds out.1 out.2 out' new') (hnum : num + new'.length = num') (hlt : num' < 2 ^ 16) :
    Reached (inits ++ [init]) m curaddr out' (new ++ new') num' := by
  refine ⟨?_, h.adds.append hadds, ?_, ?_⟩
  · rw [List.foldlM_append, h.run]
    change (init out.2 out.1).bind some = some out'
    rw [hinit]
    rfl
  · rw [hadds.n (by rw [h.count, hnum]; exact hlt), h.count, hnum]
  · rw [List.length_append, h.length, hnum]

/-- A template that is written as it is. -/
theorem Reached.generic (h : Reached inits m curaddr out new num) (t : SmbiosTemplateEntry)
    (hlt : num + 1 < 2 ^ 16) : ∃ out',
      Reached (inits ++ [fun curaddr st => some (smbiosGenericInitializer t curaddr st)]) m curaddr out'
        (new ++ [genericRecord t (num + 1)]) (num + 1) := by
  have hadds := generic_adds t out.2 out.1
  rw [h.count] at hadds
  exact ⟨_, h.next _ rfl hadds rfl hlt⟩

end Run

/-- A run over the templates, one after the other. -/
theorem template_reached {g : Guest} {uuid : Uuid} (huuid : g.uuid = some uuid)
    (hncpu : g.ncpus ≤ vmMaxcpu) (m : Mem) (curaddr : Nat) :
    ∃ out, Reached (smbiosTemplate g) m curaddr out (smbiosStructs g uuid)
      (g.ncpus + 8 + 2 * more g.himem) := by
  have hmore := more_le g.himem
  have hmax : g.ncpus ≤ 16 := hncpu
  obtain ⟨r₀, h₀⟩ := (Reached.start m curaddr).generic smbiosType0 (by omega)
  obtain ⟨r₁, h₁⟩ : ∃ r, Reached _ m curaddr r (_ ++ [type1Record uuid 2]) 2 := by
    have hadds := type1_adds r₀.2 r₀.1 (rfl : smbiosType1Initializer (some uuid) smbiosType1 _ _ = _)
    rw [h₀.count] at hadds
    exact ⟨_, h₀.next (smbiosType1Initializer g.uuid smbiosType1) (by rw [huuid]; rfl) hadds rfl
      (by omega)⟩
  obtain ⟨r₃, h₃⟩ := h₁.generic smbiosType3 (by omega)
  obtain ⟨r₄, h₄⟩ : ∃ r, Reached _ m curaddr r (_ ++ _) (3 + g.ncpus) := by
    have hroom : r₃.1.n + g.ncpus < 2 ^ 16 := by
      rw [h₃.count]
      omega
    have hadds := type4_adds r₃.2 r₃.1 hroom
    rw [h₃.count] at hadds
    exact ⟨_, h₃.next (fun curaddr st => some (smbiosType4Initializer g.ncpus smbiosType4 curaddr st))
      rfl hadds (by simp) (by omega)⟩
  obtain ⟨r₁₆, h₁₆, ha₁₆⟩ : ∃ r, Reached _ m curaddr r (_ ++ [type16Record g.lomem g.himem (g.ncpus + 4)])
      (g.ncpus + 4) ∧ r.1.type16Handle = g.ncpus + 3 := by
    have hadds := type16_adds g.lomem g.himem r₄.2 r₄.1
    rw [h₄.count, Nat.add_comm 3] at hadds
    refine ⟨_, h₄.next (fun curaddr st =>
      some (smbiosType16Initializer g.lomem g.himem smbiosType16 curaddr st)) rfl hadds ?_ (by omega), ?_⟩
    · rw [List.length_singleton]
      omega
    · exact h₄.count.trans (Nat.add_comm ..)
  obtain ⟨r₁₇, h₁₇, ha₁₇⟩ : ∃ r, Reached _ m curaddr r
      (_ ++ type17Records (g.ncpus + 3) g.lomem g.himem (g.ncpus + 5)) (g.ncpus + 5 + more g.himem) ∧
      r.1.type16Handle = g.ncpus + 3 := by
    have hadds := type17_adds g.lomem g.himem r₁₆.2 r₁₆.1 (by rw [h₁₆.count]; omega)
    rw [h₁₆.count, ha₁₆] at hadds
    refine ⟨_, h₁₆.next (fun curaddr st =>
      some (smbiosType17Initializer g.lomem g.himem smbiosType17 curaddr st)) rfl hadds ?_ (by omega), ?_⟩
    · rw [length_type17Records]
      omega
    · exact (type17_handle ..).trans ha₁₆
  obtain ⟨r₁₉, h₁₉⟩ : ∃ r, Reached _ m curaddr r
      (_ ++ type19Records (g.ncpus + 3) g.lomem g.himem (g.ncpus + 6 + more g.himem))
      (g.ncpus + 6 + 2 * more g.himem) := by
    have hadds := type19_adds g.lomem g.himem r₁₇.2 r₁₇.1 (by rw [h₁₇.count]; omega)
    rw [h₁₇.count, ha₁₇, Nat.add_right_comm] at hadds
    refine ⟨_, h₁₇.next (fun curaddr st =>
      some (smbiosType19Initializer g.lomem g.himem smbiosType19 curaddr st)) rfl hadds ?_ (by omega)⟩
    rw [length_type19Records]
    omega
  obtain ⟨r₃₂, h₃₂⟩ := h₁₉.generic smbiosType32 (by omega)
  obtain ⟨r₁₂₇, h₁₂₇⟩ := h₃₂.generic smbiosType127 (by omega)
  refine ⟨r₁₂₇, ?_⟩
  have hlast : g.ncpus + 6 + 2 * more g.himem + 1 + 1 = g.ncpus + 8 + 2 * more g.himem := by omega
  have hbefore : g.ncpus + 6 + 2 * more g.himem + 1 = g.ncpus + 7 + 2 * more g.himem := by omega
  rw [hlast, hbefore] at h₁₂₇
  exact h₁₂₇

/-- The entry point when it is finished. -/
structure EntryPoint (startaddr : Nat) (m : Mem) (stlen stnum maxssize staddr : Nat) : Prop where
  maxssize : m.load 2 (startaddr + 8) = maxssize
  stlen : m.load 2 (startaddr + 22) = stlen
  staddr : m.load 4 (startaddr + 24) = staddr
  stnum : m.load 2 (startaddr + 28) = stnum
  ichecksum : byteSum (m.slice (startaddr + 0x10) 0xf) % 256 = 0
  echecksum : byteSum (m.slice startaddr 0x1f) % 256 = 0

theorem load_put_of_disjoint {m : Mem} {a b n : Nat} {bs : List UInt8}
    (h : b + n ≤ a ∨ a + bs.length ≤ b) : (m.put a bs).load n b = m.load n b := by
  rw [load_eq_slice, load_eq_slice, (Emits.put m a bs).slice_of_disjoint h]

theorem finalizer_entryPoint {m : Mem} {startaddr len num maxssize staddr : Nat}
    (hec : m (startaddr + 4) = 0) (hic : m (startaddr + 21) = 0)
    (hst : m.load 4 (startaddr + 24) = staddr) (hlen : len < 2 ^ 16) (hnum : num < 2 ^ 16)
    (hmax : maxssize < 2 ^ 16) :
    EntryPoint startaddr (smbiosEpFinalizer m startaddr len num maxssize) len num maxssize staddr ∧
      ∀ x, startaddr + sizeofEntryPoint ≤ x →
        smbiosEpFinalizer m startaddr len num maxssize x = m x := by
  obtain ⟨m₁, hm₁⟩ : ∃ m₁, m₁ = ((m.store 2 (startaddr + 8) maxssize).store 2 (startaddr + 22) len).store 2
      (startaddr + 28) num := ⟨_, rfl⟩
  have hkeep : ∀ x, x ≠ startaddr + 8 → x ≠ startaddr + 9 → x ≠ startaddr + 22 → x ≠ startaddr + 23 →
      x ≠ startaddr + 28 → x ≠ startaddr + 29 → m₁ x = m x := by
    intro x h₁ h₂ h₃ h₄ h₅ h₆
    rw [hm₁, Mem.store_eq_put, Mem.store_eq_put, Mem.store_eq_put]
    rw [put_of_outside (by rw [LittleEndian.length_bytes]; omega),
      put_of_outside (by rw [LittleEndian.length_bytes]; omega),
      put_of_outside (by rw [LittleEndian.length_bytes]; omega)]
  have hfields : m₁.load 2 (startaddr + 8) = maxssize ∧ m₁.load 2 (startaddr + 22) = len ∧
      m₁.load 4 (startaddr + 24) = staddr ∧ m₁.load 2 (startaddr + 28) = num := by
    refine ⟨?_, ?_, ?_, ?_⟩
    · rw [hm₁, Mem.load_store_of_disjoint (by omega), Mem.load_store_of_disjoint (by omega),
        Mem.load_store (by omega)]
    · rw [hm₁, Mem.load_store_of_disjoint (by omega), Mem.load_store (by omega)]
    · rw [hm₁, Mem.load_store_of_disjoint (by omega), Mem.load_store_of_disjoint (by omega),
        Mem.load_store_of_disjoint (by omega), hst]
    · rw [hm₁, Mem.load_store (by omega)]
  have hfinal : smbiosEpFinalizer m startaddr len num maxssize =
      (m₁.put (startaddr + 21) [(m₁.slice (startaddr + 0x10) 0xf).foldl (· - ·) 0]).put (startaddr + 4)
        [((m₁.put (startaddr + 21) [(m₁.slice (startaddr + 0x10) 0xf).foldl (· - ·) 0]).slice startaddr
          0x1f).foldl (· - ·) 0] := by
    rw [hm₁]
    rfl
  obtain ⟨m₂, hm₂⟩ : ∃ m₂, m₂ = m₁.put (startaddr + 21)
      [(m₁.slice (startaddr + 0x10) 0xf).foldl (· - ·) 0] := ⟨_, rfl⟩
  rw [hfinal, ← hm₂]
  have hone : ∀ v : UInt8, [v].length = 1 := fun _ => rfl
  have hzero : m₂ (startaddr + 4) = 0 := by
    rw [hm₂, put_of_outside (by omega), hkeep _ (by omega) (by omega) (by omega) (by omega) (by omega)
      (by omega), hec]
  have hinner : byteSum (m₂.slice (startaddr + 0x10) 0xf) % 256 = 0 := by
    rw [hm₂]
    refine byteSum_negate (by omega) (by omega) ?_
    rw [hkeep _ (by omega) (by omega) (by omega) (by omega) (by omega) (by omega), hic]
  refine ⟨⟨?_, ?_, ?_, ?_, ?_, byteSum_negate (by omega) (by omega) hzero⟩, fun x hx => ?_⟩
  · rw [load_put_of_disjoint (by rw [hone]; omega), hm₂, load_put_of_disjoint (by rw [hone]; omega)]
    exact hfields.1
  · rw [load_put_of_disjoint (by rw [hone]; omega), hm₂, load_put_of_disjoint (by rw [hone]; omega)]
    exact hfields.2.1
  · rw [load_put_of_disjoint (by rw [hone]; omega), hm₂, load_put_of_disjoint (by rw [hone]; omega)]
    exact hfields.2.2.1
  · rw [load_put_of_disjoint (by rw [hone]; omega), hm₂, load_put_of_disjoint (by rw [hone]; omega)]
    exact hfields.2.2.2
  · rw [(Emits.put m₂ _ _).slice_of_disjoint (by rw [hone]; omega)]
    exact hinner
  · unfold sizeofEntryPoint at hx
    rw [put_of_outside (by rw [hone]; omega), hm₂, put_of_outside (by rw [hone]; omega),
      hkeep _ (by omega) (by omega) (by omega) (by omega) (by omega) (by omega)]

theorem Fills.length_le {t : SmbiosTemplateEntry} {f : List UInt8} (h : Fills t f) {ss : List (List UInt8)}
    (hle : t.entry.length + (NulStrings.encode ss).length ≤ 100) :
    (f ++ NulStrings.encode ss).length ≤ 100 := by
  rw [List.length_append, h.length]
  exact hle

/-- Each structure is far shorter than the room there is for all of them. -/
theorem length_smbiosStruct_le {g : Guest} {uuid : Uuid} (hncpu : g.ncpus ≤ vmMaxcpu) {r : List UInt8}
    (h : r ∈ smbiosStructs g uuid) : r.length ≤ 100 := by
  simp only [smbiosStructs, type17Records, type19Records, List.mem_append, List.mem_cons, List.mem_map,
    List.not_mem_nil, or_false] at h
  rcases h with (((((((rfl | rfl) | rfl) | ⟨i, hi, rfl⟩) | rfl) | rfl | h) | rfl | h) | rfl) | rfl
  · exact (handled_fills (by decide) _).length_le (by decide)
  · exact (type1_fills _ uuid).length_le (by decide)
  · exact (handled_fills (by decide) _).length_le (by decide)
  · have hcpu : ∀ i < 16, (NulStrings.encode (type4Strings i)).length ≤ 32 := by decide
    have hsmall := hcpu i (Nat.lt_of_lt_of_le (List.mem_range.mp hi) hncpu)
    have hlen : (patch 4 [7] (handled smbiosType4 (3 + i + 1))).length = 42 := rfl
    rw [type4Record, List.length_append, hlen]
    omega
  · exact (type16_fills ..).length_le (by decide)
  · exact (type17_fills ..).length_le (by decide)
  · split at h
    · obtain rfl := List.mem_singleton.mp h
      exact (type17_fills ..).length_le (by decide)
    · cases h
  · exact (type19_fills ..).length_le (by decide)
  · split at h
    · obtain rfl := List.mem_singleton.mp h
      exact (type19_fills ..).length_le (by decide)
    · cases h
  · exact (handled_fills (by decide) _).length_le (by decide)
  · exact (handled_fills (by decide) _).length_le (by decide)

/-- With memory for it and a UUID the table is built: the assertion on its length holds. -/
theorem smbiosBuild_isOk {ram : GuestRam} {guestNcpus startaddr : Nat} (uuid : Uuid)
    (size : Nat → UInt16) (m : Mem) (hncpu : guestNcpus ≤ vmMaxcpu)
    (hmap : xhVmMapGpa ram smbiosBase smbiosMaxLength = some startaddr) :
    ∃ m', smbiosBuild ram guestNcpus (some uuid) size m = .ok m' := by
  obtain ⟨g, hg⟩ : ∃ g : Guest, g = ⟨guestNcpus, ram.lowmem, ram.highmem, some uuid⟩ := ⟨_, rfl⟩
  have hgn : g.ncpus ≤ vmMaxcpu := by rw [hg]; exact hncpu
  have hmax : g.ncpus ≤ 16 := hgn
  have hmore := more_le g.himem
  obtain ⟨⟨st, curaddr⟩, hreach⟩ := template_reached (by rw [hg] : g.uuid = some uuid) hgn
    (smbiosEpInitializer m startaddr (smbiosBase + sizeofEntryPoint)) (startaddr + sizeofEntryPoint)
  have hend : curaddr = startaddr + sizeofEntryPoint + (smbiosStructs g uuid).flatten.length :=
    hreach.adds.endaddr
  have hlen := Records.length_flatten_le fun r (hr : r ∈ smbiosStructs g uuid) => length_smbiosStruct_le hgn hr
  rw [hreach.length] at hlen
  have hfits : curaddr - startaddr < smbiosMaxLength := by
    have hthirty : sizeofEntryPoint = 31 := rfl
    have hroom : smbiosMaxLength = 0x1400 := rfl
    omega
  rw [smbiosBuild, hmap]
  simp only
  rw [← hg, hreach.run]
  simp only
  rw [if_pos hfits]
  exact ⟨_, rfl⟩

/-- The structures a reader meets: as many as the entry point counts, from the address it gives. -/
def structs (startaddr : Nat) (m : Mem) : List (List UInt8) :=
  (Records.read structSize (m.load 2 (startaddr + 28))
    (m.slice (startaddr + (m.load 4 (startaddr + 24) - smbiosBase))
      (smbiosMaxLength - sizeofEntryPoint))).1

theorem smbiosStructs_sound {g : Guest} {uuid : Uuid} {r : List UInt8} (h : r ∈ smbiosStructs g uuid) :
    Sound r := by
  simp only [smbiosStructs, type17Records, type19Records, List.mem_append, List.mem_cons, List.mem_map,
    List.not_mem_nil, or_false] at h
  have h17 (xsize handle : Nat) : Sound (type17Record (g.ncpus + 3) xsize handle) :=
    (type17_fills ..).sound smbiosType17.plain (by decide)
  have h19 (xsaddr xeaddr handle : Nat) : Sound (type19Record (g.ncpus + 3) xsaddr xeaddr handle) :=
    (type19_fills ..).sound (by decide) (by decide)
  rcases h with (((((((rfl | rfl) | rfl) | ⟨i, -, rfl⟩) | rfl) | rfl | h) | rfl | h) | rfl) | rfl
  · exact generic_sound _ (by decide) (by decide)
  · exact (type1_fills _ uuid).sound smbiosType1.plain (by decide)
  · exact generic_sound _ (by decide) (by decide)
  · exact type4_sound _ i
  · exact (type16_fills ..).sound (by decide) (by decide)
  · exact h17 ..
  · split at h
    · obtain rfl := List.mem_singleton.mp h
      exact h17 ..
    · cases h
  · exact h19 ..
  · split at h
    · obtain rfl := List.mem_singleton.mp h
      exact h19 ..
    · cases h
  · exact generic_sound _ (by decide) (by decide)
  · exact generic_sound _ (by decide) (by decide)

theorem epInitializer_bytes (m : Mem) (startaddr : Nat) :
    smbiosEpInitializer m startaddr (smbiosBase + sizeofEntryPoint) (startaddr + 4) = 0 ∧
      smbiosEpInitializer m startaddr (smbiosBase + sizeofEntryPoint) (startaddr + 21) = 0 ∧
      (smbiosEpInitializer m startaddr (smbiosBase + sizeofEntryPoint)).load 4 (startaddr + 24) =
        smbiosBase + sizeofEntryPoint := by
  rw [smbiosEpInitializer]
  refine ⟨put_at (by decide), put_at (by decide), ?_⟩
  have hbytes : ((List.range 4).map fun i => smbiosEpInitializer m startaddr
      (smbiosBase + sizeofEntryPoint) (startaddr + 24 + i)) =
      LittleEndian.bytes 4 (smbiosBase + sizeofEntryPoint) := by
    refine (List.map_congr_left fun i hi => ?_).trans (rfl : ((List.range 4).map fun i =>
      (LittleEndian.bytes 4 (smbiosBase + sizeofEntryPoint)).getD i 0) = _)
    have hi4 : ∀ i < 4, 24 + i < 31 := by omega
    rw [Nat.add_assoc, smbiosEpInitializer, put_at (hi4 i (List.mem_range.mp hi))]
    have hat : ∀ i < 4, (smbiosEntryEanchor ++ [0, 0x1F, 2, 6] ++ LittleEndian.bytes 2 0 ++
        [0, 0, 0, 0, 0, 0] ++ smbiosEntryIanchor ++ [0] ++ LittleEndian.bytes 2 0 ++
        LittleEndian.bytes 4 (smbiosBase + sizeofEntryPoint) ++ LittleEndian.bytes 2 0 ++
        [0x24]).getD (24 + i) 0 = (LittleEndian.bytes 4 (smbiosBase + sizeofEntryPoint)).getD i 0 := by
      decide
    exact hat i (List.mem_range.mp hi)
  exact congrArg LittleEndian.toNat hbytes

/-- What a successful build leaves. -/
theorem smbiosBuild_spec {ram : GuestRam} {guestNcpus : Nat} {uuid : Option Uuid} {size : Nat → UInt16}
    {m m' : Mem} (hncpu : guestNcpus ≤ vmMaxcpu)
    (h : smbiosBuild ram guestNcpus uuid size m = .ok m') : ∃ startaddr g u,
      g = ⟨guestNcpus, ram.lowmem, ram.highmem, uuid⟩ ∧
      xhVmMapGpa ram smbiosBase smbiosMaxLength = some startaddr ∧
      structs startaddr m' = smbiosStructs g u ∧
      EntryPoint startaddr m' (smbiosStructs g u).flatten.length (smbiosStructs g u).length
        (maxssize size 9).toNat (smbiosBase + sizeofEntryPoint) ∧
      (smbiosStructs g u).map structHandle = List.range' 1 (smbiosStructs g u).length := by
  unfold smbiosBuild at h
  split at h
  · cases h
  · rename_i startaddr hmap
    simp only at h
    obtain ⟨g, hg⟩ : ∃ g : Guest, g = ⟨guestNcpus, ram.lowmem, ram.highmem, uuid⟩ := ⟨_, rfl⟩
    cases huuid : uuid with
    | none =>
      rw [huuid] at h
      cases h
    | some u =>
      have hgu : g.uuid = some u := by rw [hg, ← huuid]
      have hgn : g.ncpus ≤ vmMaxcpu := by rw [hg]; exact hncpu
      have hn16 : g.ncpus ≤ 16 := hgn
      have hmore := more_le g.himem
      obtain ⟨hec, hic, hst⟩ := epInitializer_bytes m startaddr
      obtain ⟨m₀, hm₀⟩ : ∃ m₀, m₀ = smbiosEpInitializer m startaddr (smbiosBase + sizeofEntryPoint) :=
        ⟨_, rfl⟩
      rw [← hm₀] at hec hic hst
      obtain ⟨⟨st, curaddr⟩, hreach⟩ := template_reached hgu hgn m₀ (startaddr + sizeofEntryPoint)
      rw [← hg, ← hm₀, hreach.run] at h
      simp only at h
      split at h
      · rename_i hfits
        obtain rfl := Except.ok.inj h
        have hemits := hreach.adds.emits
        have hend : curaddr = startaddr + sizeofEntryPoint + (smbiosStructs g u).flatten.length :=
          hreach.adds.endaddr
        have hnum : st.n = (smbiosStructs g u).length := hreach.count.trans hreach.length.symm
        have hsmall : (smbiosStructs g u).length < 2 ^ 16 := by
          rw [hreach.length]
          omega
        have hthirty : sizeofEntryPoint = 31 := rfl
        have hspan : curaddr - startaddr < 0x1400 := hfits
        have hlen : (curaddr - (startaddr + sizeofEntryPoint)) % 2 ^ 16 =
            (smbiosStructs g u).flatten.length := by omega
        rw [hlen, hnum]
        have hbelow : ∀ x, x < startaddr + sizeofEntryPoint → st.mem x = m₀ x :=
          fun x hx => hemits.frame x (Or.inl hx)
        have hload : st.mem.load 4 (startaddr + 24) = smbiosBase + sizeofEntryPoint := by
          rw [Mem.load_congr fun i hi => hbelow _ (by omega)]
          exact hst
        have hflat : (smbiosStructs g u).flatten.length < 2 ^ 16 := by omega
        obtain ⟨hentry, hkeep⟩ := finalizer_entryPoint
          ((hbelow _ (by omega)).trans hec) ((hbelow _ (by omega)).trans hic) hload hflat hsmall
          (UInt16.toNat_lt (maxssize size (smbiosTemplate g).length))
        refine ⟨startaddr, g, u, ?_, hmap, ?_, hentry, ?_⟩
        · rw [hg, huuid]
        · obtain ⟨k, hk⟩ : ∃ k, smbiosMaxLength - sizeofEntryPoint =
              (smbiosStructs g u).flatten.length + k :=
            ⟨0x1400 - 31 - (smbiosStructs g u).flatten.length, by
              have hmax : smbiosMaxLength = 0x1400 := rfl
              omega⟩
          have hslice : (smbiosEpFinalizer st.mem startaddr (smbiosStructs g u).flatten.length
              (smbiosStructs g u).length (maxssize size (smbiosTemplate g).length).toNat).slice
              (startaddr + sizeofEntryPoint) (smbiosStructs g u).flatten.length =
              (smbiosStructs g u).flatten :=
            (slice_congr fun x hx _ => hkeep x hx).trans hemits.written
          rw [structs, hentry.stnum, hentry.staddr, Nat.add_sub_cancel_left, hk, slice_add, hslice,
            Records.read_flatten fun r hr => (smbiosStructs_sound hr).delimited]
        · have hhandles := hreach.adds.handles (by rw [Nat.zero_add]; exact hsmall)
          rw [Nat.zero_add] at hhandles
          exact hhandles
      · cases h

/-! ## What holds of the table, and what does not -/

/-- What a reader can rely on: the totals are right, the last structure ends the table, every number of
a string names one, no handle comes twice, and the checksums are right. -/
structure Readable (startaddr : Nat) (m : Mem) : Prop where
  stnum : (structs startaddr m).length = m.load 2 (startaddr + 28)
  stlen : ((structs startaddr m).map List.length).sum = m.load 2 (startaddr + 22)
  whole : ∀ r ∈ structs startaddr m, structSize r = r.length
  last : (structs startaddr m).getLast?.map structType = some smbiosTypeEot
  strings : ∀ r ∈ structs startaddr m, ∀ k ∈ stringFields (structType r),
    (structString r (r.getD k 0).toNat).isSome
  handles : ((structs startaddr m).map structHandle).Nodup
  ichecksum : byteSum (m.slice (startaddr + 0x10) 0xf) % 256 = 0
  echecksum : byteSum (m.slice startaddr 0x1f) % 256 = 0

/-- Each structure that names a memory array names one of type 16. -/
def ArraysNamed (rs : List (List UInt8)) : Prop :=
  ∀ r ∈ rs, ∀ k ∈ arrayField (structType r), ∃ a ∈ rs,
    structType a = smbiosTypeMemarray ∧ structHandle a = field r k 2

/-- The ranges of type 19. -/
def mappedRanges (rs : List (List UInt8)) : List (Nat × Nat) :=
  (rs.filter fun r => structType r = smbiosTypeMemarraymap).map fun r => (field r 15 8, field r 23 8)

/-- Where the guest's memory starts and ends. -/
def segments (ram : GuestRam) : List (Nat × Nat) :=
  (0, ram.lowmem) :: if ram.highmem > 0 then [(4 * gb, 4 * gb + ram.highmem)] else []

def largest (rs : List (List UInt8)) : Nat := (rs.map List.length).foldl max 0

structure WellFormed (ram : GuestRam) (startaddr : Nat) (m : Mem) : Prop where
  readable : Readable startaddr m
  arrays : ArraysNamed (structs startaddr m)
  ranges : mappedRanges (structs startaddr m) = segments ram
  maxssize : m.load 2 (startaddr + 8) = largest (structs startaddr m)

section Outcome
variable {g : Guest} {u : Uuid}

theorem type16Record_handle (guestLomem guestHimem handle : Nat) :
    structHandle (type16Record guestLomem guestHimem handle) = handle % 2 ^ 16 :=
  LittleEndian.toNat_bytes 2 handle

/-- Type 16 comes once, and has the handle behind the one that types 17 and 19 name. -/
theorem memarray_handle {a : List UInt8} (ha : a ∈ smbiosStructs g u)
    (htype : structType a = smbiosTypeMemarray) : structHandle a = (g.ncpus + 4) % 2 ^ 16 := by
  simp only [smbiosStructs, type17Records, type19Records, List.mem_append, List.mem_cons, List.mem_map,
    List.not_mem_nil, or_false] at ha
  rcases ha with (((((((rfl | rfl) | rfl) | ⟨i, -, rfl⟩) | rfl) | rfl | h) | rfl | h) | rfl) | rfl
  · cases htype
  · cases htype
  · cases htype
  · cases htype
  · exact type16Record_handle ..
  · cases htype
  · split at h
    · obtain rfl := List.mem_singleton.mp h
      cases htype
    · cases h
  · cases htype
  · split at h
    · obtain rfl := List.mem_singleton.mp h
      cases htype
    · cases h
  · cases htype
  · cases htype

theorem not_arraysNamed (hncpu : g.ncpus ≤ vmMaxcpu) : ¬ ArraysNamed (smbiosStructs g u) := by
  intro harrays
  have hn : g.ncpus ≤ 16 := hncpu
  have hmem : type17Record (g.ncpus + 3) g.lomem (g.ncpus + 5) ∈ smbiosStructs g u := by
    simp [smbiosStructs, type17Records]
  obtain ⟨a, ha, htype, hhandle⟩ := harrays _ hmem 4 rfl
  rw [memarray_handle ha htype] at hhandle
  have hfield : field (type17Record (g.ncpus + 3) g.lomem (g.ncpus + 5)) 4 2 = (g.ncpus + 3) % 2 ^ 16 :=
    LittleEndian.toNat_bytes 2 _
  omega

theorem filter_memarraymap : (smbiosStructs g u).filter (fun r => structType r = smbiosTypeMemarraymap) =
    type19Records (g.ncpus + 3) g.lomem g.himem (g.ncpus + 6 + more g.himem) := by
  have hprocs : ((List.range g.ncpus).map fun i => type4Record i (3 + i + 1)).filter
      (fun r => structType r = smbiosTypeMemarraymap) = [] := by
    refine List.filter_eq_nil_iff.mpr fun r hr h => ?_
    obtain ⟨i, -, rfl⟩ := List.mem_map.mp hr
    cases of_decide_eq_true h
  have h17 : (type17Records (g.ncpus + 3) g.lomem g.himem (g.ncpus + 5)).filter
      (fun r => structType r = smbiosTypeMemarraymap) = [] := by
    rw [type17Records]
    split
    all_goals rfl
  have h19 : (type19Records (g.ncpus + 3) g.lomem g.himem (g.ncpus + 6 + more g.himem)).filter
      (fun r => structType r = smbiosTypeMemarraymap) =
      type19Records (g.ncpus + 3) g.lomem g.himem (g.ncpus + 6 + more g.himem) := by
    rw [type19Records]
    split
    all_goals rfl
  have hone : ∀ r : List UInt8, structType r ≠ smbiosTypeMemarraymap →
      [r].filter (fun r => structType r = smbiosTypeMemarraymap) = [] := by
    intro r hr
    exact List.filter_cons_of_neg fun h => hr (of_decide_eq_true h)
  rw [smbiosStructs]
  simp only [List.filter_append, hprocs, h17, h19]
  rw [hone _ (by intro h; cases h), hone _ (by intro h; cases h), hone _ (by intro h; cases h),
    hone _ (by intro h; cases h), hone _ (by intro h; cases h), hone _ (by intro h; cases h)]
  simp only [List.nil_append, List.append_nil]

theorem type19_range (array xsaddr xeaddr handle : Nat) :
    field (type19Record array xsaddr xeaddr handle) 15 8 = xsaddr % 2 ^ 64 ∧
      field (type19Record array xsaddr xeaddr handle) 23 8 = xeaddr % 2 ^ 64 := by
  have hlen := (type19_fills handle array xsaddr xeaddr).length
  have hentry : smbiosType19.entry.length = 31 := rfl
  rw [type19Record, field_append (by omega), field_append (by omega)]
  have hinner : (patch 15 (LittleEndian.bytes 8 xsaddr)
      (patch 12 (LittleEndian.bytes 2 array) (handled smbiosType19 handle))).length = 31 :=
    (((handled_fills (by decide) handle).bytes (by decide) _).bytes (by decide) _).length
  have hfirst : (patch 12 (LittleEndian.bytes 2 array) (handled smbiosType19 handle)).length = 31 :=
    ((handled_fills (by decide) handle).bytes (by decide) _).length
  have hword : (LittleEndian.bytes 8 xeaddr).length = 8 := LittleEndian.length_bytes ..
  constructor
  · rw [field_patch (by omega) (by omega), field_bytes (by omega)]
    rfl
  · rw [field_bytes (by omega)]
    rfl

theorem mappedRanges_eq : mappedRanges (smbiosStructs g u) =
    (0, g.lomem % 2 ^ 64) :: if g.himem > 0 then [(4 * gb, g.himem % 2 ^ 64)] else [] := by
  have hrange : ∀ xsaddr xeaddr handle,
      (field (type19Record (g.ncpus + 3) xsaddr xeaddr handle) 15 8,
        field (type19Record (g.ncpus + 3) xsaddr xeaddr handle) 23 8) =
      (xsaddr % 2 ^ 64, xeaddr % 2 ^ 64) := by
    intro xsaddr xeaddr handle
    rw [(type19_range ..).1, (type19_range ..).2]
  rw [mappedRanges, filter_memarraymap, type19Records, List.map_cons, hrange]
  split
  · rw [List.map_singleton, hrange]
    rfl
  · rfl

theorem smbiosStructs_readable {startaddr : Nat} {m : Mem} {maxssize staddr : Nat}
    (hstructs : structs startaddr m = smbiosStructs g u)
    (hentry : EntryPoint startaddr m (smbiosStructs g u).flatten.length (smbiosStructs g u).length
      maxssize staddr)
    (hhandles : (smbiosStructs g u).map structHandle = List.range' 1 (smbiosStructs g u).length) :
    Readable startaddr m := by
  constructor
  · rw [hstructs, hentry.stnum]
  · rw [hstructs, hentry.stlen, List.length_flatten]
  · intro r hr
    have hdelim := (smbiosStructs_sound (hstructs ▸ hr)).delimited []
    rwa [List.append_nil] at hdelim
  · rw [hstructs, smbiosStructs, List.getLast?_append]
    rfl
  · exact fun r hr => (smbiosStructs_sound (hstructs ▸ hr)).strings
  · rw [hstructs, hhandles]
    exact List.nodup_range' ..
  · exact hentry.ichecksum
  · exact hentry.echecksum

end Outcome

/-- The table can be read, but types 17 and 19 never name the array that there is. The ranges are right
without high memory only, and the largest size where the stack happens to hold it. -/
theorem smbiosBuild_malformed {ram : GuestRam} {guestNcpus : Nat} {uuid : Option Uuid}
    {size : Nat → UInt16} {m m' : Mem} (hncpu : guestNcpus ≤ vmMaxcpu)
    (h : smbiosBuild ram guestNcpus uuid size m = .ok m') : ∃ startaddr,
      xhVmMapGpa ram smbiosBase smbiosMaxLength = some startaddr ∧
      Readable startaddr m' ∧
      ¬ ArraysNamed (structs startaddr m') ∧
      (mappedRanges (structs startaddr m') = segments ram ↔ ram.highmem = 0) ∧
      (m'.load 2 (startaddr + 8) = largest (structs startaddr m') ↔
        (maxssize size 9).toNat = largest (structs startaddr m')) ∧
      ¬ WellFormed ram startaddr m' := by
  obtain ⟨startaddr, g, u, hg, hmap, hstructs, hentry, hhandles⟩ := smbiosBuild_spec hncpu h
  have hgn : g.ncpus ≤ vmMaxcpu := by rw [hg]; exact hncpu
  have hlo : g.lomem = ram.lowmem := by rw [hg]
  have hhi : g.himem = ram.highmem := by rw [hg]
  have harrays : ¬ ArraysNamed (structs startaddr m') := hstructs ▸ not_arraysNamed hgn
  refine ⟨startaddr, hmap, smbiosStructs_readable hstructs hentry hhandles, harrays, ?_, ?_,
    fun hwell => harrays hwell.arrays⟩
  · have hlowmem := ram.lowmem_lt
    have hhighmem := ram.highmem_lt
    rw [hstructs, mappedRanges_eq, hlo, hhi, segments, Nat.mod_eq_of_lt (by omega),
      Nat.mod_eq_of_lt (by omega)]
    by_cases hhigh : ram.highmem > 0
    · rw [if_pos hhigh, if_pos hhigh]
      simp [gb]
      omega
    · rw [if_neg hhigh, if_neg hhigh]
      exact iff_of_true rfl (Nat.eq_zero_of_not_pos hhigh)
  · rw [hentry.maxssize]

def zeroUuid : Uuid := ⟨List.replicate 16 0, by decide⟩

/-- A guest with memory above 4 GiB. -/
def highRam : GuestRam where
  lowmem := 0x30000000
  highmem := 0x14000000
  lowmemAddr := 0x700000000
  highmemAddr := 0x740000000
  lowmem_lt := by decide
  highmem_lt := by decide
  lowmemAddr_aligned := by decide
  highmemAddr_aligned := by decide
  lowmemAddr_pos _ := by decide
  highmemAddr_pos _ := by decide

theorem smbiosBuild_malformed_high : ∃ m',
    smbiosBuild highRam 2 (some zeroUuid) (fun _ => 0) (fun _ => 0) = .ok m' ∧ ∃ startaddr,
      xhVmMapGpa highRam smbiosBase smbiosMaxLength = some startaddr ∧
      Readable startaddr m' ∧
      ¬ ArraysNamed (structs startaddr m') ∧
      (mappedRanges (structs startaddr m') = segments highRam ↔ highRam.highmem = 0) ∧
      (m'.load 2 (startaddr + 8) = largest (structs startaddr m') ↔
        (maxssize (fun _ => 0) 9).toNat = largest (structs startaddr m')) ∧
      ¬ WellFormed highRam startaddr m' := by
  obtain ⟨m', hm'⟩ := @smbiosBuild_isOk highRam 2 _ zeroUuid (fun _ => 0) (fun _ => 0) (by decide) rfl
  exact ⟨m', hm', smbiosBuild_malformed (by decide) hm'⟩

/-- One processor, and no high memory. -/
theorem smbiosBuild_array_unnamed : ∃ m' startaddr,
    smbiosBuild MpTable.loneRam 1 (some zeroUuid) (fun _ => 0) (fun _ => 0) = .ok m' ∧
    xhVmMapGpa MpTable.loneRam smbiosBase smbiosMaxLength = some startaddr ∧
    ¬ WellFormed MpTable.loneRam startaddr m' := by
  obtain ⟨m', hm'⟩ :=
    @smbiosBuild_isOk MpTable.loneRam 1 _ zeroUuid (fun _ => 0) (fun _ => 0) (by decide) rfl
  obtain ⟨startaddr, g, u, hg, hmap, hstructs, -⟩ := smbiosBuild_spec (by decide) hm'
  refine ⟨m', startaddr, hm', hmap, fun hwell => ?_⟩
  have hncpu : g.ncpus ≤ vmMaxcpu := by
    rw [hg]
    decide
  exact not_arraysNamed hncpu (hstructs ▸ hwell.arrays)

end Xhyve.Firmware.SmbiosTable
