import Xhyve.Emul.PciWindows
import Xhyve.Manager.Config

/-!
# From a machine's configuration to the hypervisor's options

`start_machine` joins the fields of a section with commas; `firmware_parse` and `pci_parse_slot` cut
the strings apart again. A pointer that may be `NULL` is an `Option`.
-/

namespace Xhyve.Manager.CommandLine

open Xhyve.Manager.Ini
open Xhyve.Manager.Config
open Xhyve.Emul

/-! ## `start_machine` -/

/-- The format is walked to its end; an `s` takes the next argument, and a `NULL` leaves nothing. -/
def formConfigString : Str → List (Option Str) → Str → Str
  | [], _, ret => ret
  | c :: fmt, args, ret =>
    if c = 's' then
      match args with
      | some s :: args =>
        formConfigString fmt args (if fmt ≠ [] then ret ++ s ++ [','] else ret ++ s)
      | none :: args => formConfigString fmt args ret
      | [] => formConfigString fmt [] ret
    else formConfigString fmt args ret

/-- `form_config_string(&dest, "ss", dest, value)`. -/
def append (dest : Option Str) (value : Str) : Str :=
  formConfigString "ss".toList [dest, some value] []

def getFirmwareType (machine : Machine) : Option Str :=
  if machine .machineType = "bsd".toList then some "fbsd".toList
  else if machine .machineType = "linux".toList then some "kexec".toList
  else none

/-- The strings `start_machine` builds. -/
structure Args where
  firmware : Str
  acpi : Option Str
  bridge : Option Str
  lpc : Option Str
  lpcDev : Option Str
  networking : Option Str
  internalStorage : Option Str
  externalStorage : Option Str
deriving DecidableEq, Repr

/-- What `start_machine` makes of one line of `config.def`. -/
def addField (machine : Machine) (a : Args) (f : Field) : Args :=
  let value := machine f
  let a := if f.sect = "boot".toList then
    { a with firmware := append (some a.firmware) value } else a
  let a := if f.sect = "bridge".toList ∧ value ≠ [] then
    { a with bridge := some (append a.bridge value) } else a
  let a := if f.sect = "lpc".toList ∧ value ≠ [] then
    { a with lpc := some (append a.lpc value) } else a
  let a := if f.sect = "lpc_dev".toList ∧ value ≠ [] then
    { a with lpcDev := some (append a.lpcDev value) } else a
  let a := if f.sect = "networking".toList ∧ value ≠ [] then
    { a with networking := some (append a.networking value) } else a
  let a := if f.sect = "internal_storage".toList ∧ value ≠ [] then
    { a with internalStorage := some (append a.internalStorage value) } else a
  let a := if f.sect = "external_storage".toList ∧ machine .externalStorageConfiginfo ≠ [] then
    { a with externalStorage := some (append a.externalStorage value) } else a
  if f.sect = "acpi".toList ∧ machine .acpiEnabled = "true".toList then
    { a with acpi := some (formConfigString "s".toList [some "-A".toList] []) } else a

/-- The strings of the command line; a machine of another type ends the program. -/
def startArgs (machine : Machine) : Option Args :=
  (getFirmwareType machine).map fun firmware =>
    config.foldl (addField machine)
      { firmware := firmware, acpi := none, bridge := none, lpc := none, lpcDev := none,
        networking := none, internalStorage := none, externalStorage := none }

/-! ## The hypervisor's side -/

/-- The text before and after the first comma `strchr` finds. -/
def cutComma (s : Str) : Option (Str × Str) :=
  if ',' ∈ s then some (s.takeWhile (· ≠ ','), (s.dropWhile (· ≠ ',')).tail) else none

/-- An empty string is passed on as `NULL`. -/
def nullable (s : Str) : Option Str := if s.length ≠ 0 then some s else none

inductive FwFunc
  | kexec
  | fbsdLoad
deriving DecidableEq, Repr

/-- What `kexec_init` and `fbsd_init` are called with. -/
structure Firmware where
  func : FwFunc
  opt1 : Option Str
  opt2 : Option Str
  opt3 : Option Str
deriving DecidableEq, Repr

def fwFunc (fw : Str) : Option FwFunc :=
  if "kexec".toList <+: fw then some .kexec
  else if "fbsd".toList <+: fw then some .fbsdLoad
  else none

/-- `none` where the argument is refused. -/
def firmwareParse (opt : Str) : Option Firmware := do
  let func ← fwFunc opt
  let (_, opt1) ← cutComma opt
  let (opt1, opt2) ← cutComma opt1
  let (opt2, opt3) ← cutComma opt2
  return { func := func, opt1 := some opt1, opt2 := nullable opt2, opt3 := nullable opt3 }

/-- The digits from the front, with the value before them. -/
def scanDigits : Nat → Str → Nat × Str
  | v, [] => (v, [])
  | v, c :: s => if c.isDigit then scanDigits (10 * v + (c.toNat - 48)) s else (v, c :: s)

/-- The conversion `%d`: blanks, a sign and digits. -/
def scanD (s : Str) : Option (Int × Str) :=
  let s := lskip s
  let negative := s.head? = some '-'
  let digits := if negative ∨ s.head? = some '+' then s.tail else s
  if digits.head?.any Char.isDigit then
    let r := scanDigits 0 digits
    some ((if negative then -(r.1 : Int) else r.1).bmod (2 ^ 32), r.2)
  else none

/-- What `sscanf` assigns for a format of so many `%d` with colons between them. -/
def sscanf : Nat → Str → List Int
  | 0, _ => []
  | n + 1, s =>
    match scanD s with
    | none => []
    | some (v, rest) => v :: (if rest.head? = some ':' then sscanf n rest.tail else [])

/-- `bnum`, `snum` and `fnum`. -/
def slotNumbers (str : Str) : Int × Int × Int :=
  match sscanf 3 str with
  | [bnum, snum, fnum] => (bnum, snum, fnum)
  | _ =>
    match sscanf 2 str with
    | [snum, fnum] => (0, snum, fnum)
    | _ =>
      match sscanf 1 str with
      | [snum] => (0, snum, 0)
      | _ => (0, -1, 0)

/-- `fi_name` and `fi_param` of each bus, slot and function. -/
abbrev Funcs := Int → Int → Int → Option (Str × Option Str)

/-- The parts of a slot option. -/
structure Slot where
  str : Str
  emul : Str
  config : Option Str
deriving DecidableEq, Repr

def splitSlot (opt : Str) : Option Slot :=
  (cutComma opt).map fun r =>
    match cutComma r.2 with
    | some e => { str := r.1, emul := e.1, config := some e.2 }
    | none => { str := r.1, emul := r.2, config := none }

/-- The rest of `pci_parse_slot` once the option is cut apart. -/
def addSlot (funcs : Funcs) (slot : Slot) : Option Funcs :=
  let (bnum, snum, fnum) := slotNumbers slot.str
  if bnum < 0 ∨ Pci.maxbuses ≤ bnum ∨ snum < 0 ∨ Pci.maxslots ≤ snum ∨ fnum < 0 ∨
      Pci.maxfuncs ≤ fnum then none
  else if (funcs bnum snum fnum).isSome then none
  else if (Pci.pciEmulFinddev (String.ofList slot.emul)).isNone then none
  else some fun b s f =>
    if b = bnum ∧ s = snum ∧ f = fnum then some (slot.emul, slot.config) else funcs b s f

def pciParseSlot (funcs : Funcs) (opt : Str) : Option Funcs :=
  (splitSlot opt).bind (addSlot funcs)

/-! ## Cutting apart what was joined -/

theorem append_none (value : Str) : append none value = value := rfl

theorem append_some (dest value : Str) : append (some dest) value = dest ++ ',' :: value := by
  change [] ++ dest ++ [','] ++ value = _
  simp

theorem cutComma_append {a : Str} (ha : ',' ∉ a) (s : Str) :
    cutComma (a ++ ',' :: s) = some (a, s) := by
  have hall : ∀ c ∈ a, decide (c ≠ ',') = true := by
    intro c hc
    have : c ≠ ',' := fun h => ha (h ▸ hc)
    simpa using this
  rw [cutComma, if_pos (by simp), List.takeWhile_append_of_pos hall,
    List.dropWhile_append_of_pos hall]
  simp

theorem cutComma_none {a : Str} (ha : ',' ∉ a) : cutComma a = none := by
  rw [cutComma, if_neg ha]

/-- A device's option: its config only where there is one. -/
def slotOption (slot driver config : Str) : Str :=
  if config = [] then slot ++ ',' :: driver else slot ++ ',' :: driver ++ ',' :: config

theorem splitSlot_slotOption {slot driver : Str} (hslot : ',' ∉ slot) (hdriver : ',' ∉ driver)
    (config : Str) :
    splitSlot (slotOption slot driver config) =
      some { str := slot, emul := driver, config := nullable config } := by
  by_cases hc : config = []
  · rw [slotOption, if_pos hc, splitSlot, cutComma_append hslot]
    simp only [Option.map_some, cutComma_none hdriver, nullable, hc, List.length_nil, ne_eq,
      not_true, if_false]
  · have hlen : config.length ≠ 0 := fun h => hc (List.length_eq_zero_iff.1 h)
    rw [slotOption, if_neg hc, List.append_assoc, List.cons_append, splitSlot,
      cutComma_append hslot]
    simp only [Option.map_some, cutComma_append hdriver, nullable, ne_eq, hlen, not_false_iff,
      if_true]

theorem addSlot_stored {funcs funcs' : Funcs} {slot : Slot} (h : addSlot funcs slot = some funcs') :
    funcs' (slotNumbers slot.str).1 (slotNumbers slot.str).2.1 (slotNumbers slot.str).2.2 =
      some (slot.emul, slot.config) := by
  revert h
  unfold addSlot
  generalize slotNumbers slot.str = n
  obtain ⟨bnum, snum, fnum⟩ := n
  intro h
  simp only at h
  split_ifs at h
  rw [← Option.some.inj h]
  exact if_pos ⟨rfl, rfl, rfl⟩

theorem firmwareParse_joined {fw kernel initrd : Str} {func : FwFunc}
    (hfunc : ∀ s, fwFunc (fw ++ s) = some func) (hfw : ',' ∉ fw) (hkernel : ',' ∉ kernel)
    (hinitrd : ',' ∉ initrd) (options : Str) :
    firmwareParse (fw ++ ',' :: kernel ++ ',' :: initrd ++ ',' :: options) =
      some { func := func, opt1 := some kernel, opt2 := nullable initrd,
             opt3 := nullable options } := by
  simp only [List.append_assoc, List.cons_append]
  simp only [firmwareParse, hfunc, cutComma_append hfw, cutComma_append hkernel,
    cutComma_append hinitrd, Option.bind_eq_bind, Option.bind_some, Option.pure_def]

/-! ## The whole command line -/

/-- The devices of `config.def` that become slot options. -/
inductive Device
  | bridge
  | lpc
  | networking
  | internalStorage
  | externalStorage
deriving DecidableEq, Repr

def Device.slot : Device → Field
  | .bridge => .bridgeSlot
  | .lpc => .lpcSlot
  | .networking => .networkingSlot
  | .internalStorage => .internalStorageSlot
  | .externalStorage => .externalStorageSlot

def Device.driver : Device → Field
  | .bridge => .bridgeDriver
  | .lpc => .lpcDriver
  | .networking => .networkingDriver
  | .internalStorage => .internalStorageDriver
  | .externalStorage => .externalStorageDriver

/-- The LPC bridge has no field for a config. -/
def Device.config (machine : Machine) : Device → Str
  | .bridge => machine .bridgeConfiginfo
  | .lpc => []
  | .networking => machine .networkingConfiginfo
  | .internalStorage => machine .internalStorageConfiginfo
  | .externalStorage => machine .externalStorageConfiginfo

def Args.device (a : Args) : Device → Option Str
  | .bridge => a.bridge
  | .lpc => a.lpc
  | .networking => a.networking
  | .internalStorage => a.internalStorage
  | .externalStorage => a.externalStorage

/-- A machine whose strings can be told apart once they are joined. -/
structure Plain (machine : Machine) : Prop where
  type : machine .machineType = "linux".toList ∨ machine .machineType = "bsd".toList
  kernel : ',' ∉ machine .bootKernel
  initrd : ',' ∉ machine .bootInitrd
  slot : ∀ d : Device, ',' ∉ machine d.slot ∧ machine d.slot ≠ []
  driver : ∀ d : Device, ',' ∉ machine d.driver ∧ machine d.driver ≠ []

/-- A value joined to the ones before it, unless it is empty. -/
def appendNonempty (dest : Option Str) (value : Str) : Option Str :=
  if value ≠ [] then some (append dest value) else dest

theorem appendNonempty_device {slot driver : Str} (hslot : slot ≠ []) (hdriver : driver ≠ [])
    (config : Str) :
    appendNonempty (appendNonempty (appendNonempty none slot) driver) config =
      some (slotOption slot driver config) := by
  simp only [appendNonempty, if_pos hslot, if_pos hdriver, append_none, append_some]
  by_cases hc : config = []
  · rw [if_neg (not_not.2 hc), slotOption, if_pos hc]
  · rw [if_pos hc, slotOption, if_neg hc]

/-- What a field of each section adds, without the comparisons of the section's name. -/
theorem addField_eq (machine : Machine) (a : Args) (f : Field) :
    addField machine a f =
      match f with
      | .bootKernel | .bootInitrd | .bootOptions =>
        { a with firmware := append (some a.firmware) (machine f) }
      | .bridgeSlot | .bridgeDriver | .bridgeConfiginfo =>
        { a with bridge := appendNonempty a.bridge (machine f) }
      | .lpcSlot | .lpcDriver => { a with lpc := appendNonempty a.lpc (machine f) }
      | .lpcDevConfig => { a with lpcDev := appendNonempty a.lpcDev (machine f) }
      | .networkingSlot | .networkingDriver | .networkingConfiginfo =>
        { a with networking := appendNonempty a.networking (machine f) }
      | .internalStorageSlot | .internalStorageDriver | .internalStorageConfiginfo =>
        { a with internalStorage := appendNonempty a.internalStorage (machine f) }
      | .externalStorageSlot | .externalStorageDriver | .externalStorageConfiginfo =>
        { a with
          externalStorage :=
            if machine .externalStorageConfiginfo ≠ [] then
              some (append a.externalStorage (machine f))
            else a.externalStorage }
      | .acpiEnabled =>
        { a with acpi := if machine .acpiEnabled = "true".toList then some "-A".toList else a.acpi }
      | _ => a := by
  cases f <;> simp [addField, Field.sect, cfg, formConfigString, appendNonempty] <;>
    split_ifs <;> rfl

variable {machine : Machine}

/-- The options a machine's devices become. -/
theorem foldl_addField (h : Plain machine) (firmware : Str) :
    ∃ a, config.foldl (addField machine)
        { firmware := firmware, acpi := none, bridge := none, lpc := none, lpcDev := none,
          networking := none, internalStorage := none, externalStorage := none } = a ∧
      a.firmware = firmware ++ ',' :: machine .bootKernel ++ ',' :: machine .bootInitrd ++
        ',' :: machine .bootOptions ∧
      ∀ d : Device, a.device d =
        if d = .externalStorage ∧ d.config machine = [] then none
        else some (slotOption (machine d.slot) (machine d.driver) (d.config machine)) := by
  refine ⟨_, rfl, ?_, ?_⟩
  · simp only [config, List.foldl_cons, List.foldl_nil, addField_eq, append_some]
  · intro d
    have hslot := (h.slot d).2
    have hdriver := (h.driver d).2
    have hopt := appendNonempty_device hslot hdriver (d.config machine)
    simp only [config, List.foldl_cons, List.foldl_nil, addField_eq]
    cases d with
    | bridge => exact hopt
    | lpc => exact hopt
    | networking => exact hopt
    | internalStorage => exact hopt
    | externalStorage =>
      simp only [Args.device, append_none, true_and]
      by_cases hc : machine .externalStorageConfiginfo = []
      · have hc' : Device.externalStorage.config machine = [] := hc
        rw [if_pos hc', if_neg (not_not.2 hc), if_neg (not_not.2 hc), if_neg (not_not.2 hc)]
      · have hc' : Device.externalStorage.config machine ≠ [] := hc
        rw [if_neg hc', if_pos hc, if_pos hc, if_pos hc, slotOption, if_neg hc', append_some,
          append_some]
        rfl

theorem fwFunc_kexec (s : Str) : fwFunc ("kexec".toList ++ s) = some .kexec := by
  rw [fwFunc, if_pos (List.prefix_append _ s)]

theorem fwFunc_fbsd (s : Str) : fwFunc ("fbsd".toList ++ s) = some .fbsdLoad := by
  have hne : ¬"kexec".toList <+: "fbsd".toList ++ s := by
    intro h
    exact absurd (List.cons_prefix_cons.1 h).1 (by decide)
  rw [fwFunc, if_neg hne, if_pos (List.prefix_append _ s)]

/-- What is joined is cut apart again: firmware, kernel, initrd and options come back, and so does
every device that is passed; the external storage is passed only when it has a config. -/
theorem command_line_parsed (h : Plain machine) :
    ∃ a, startArgs machine = some a ∧
      firmwareParse a.firmware =
        some { func := if machine .machineType = "linux".toList then .kexec else .fbsdLoad
               opt1 := some (machine .bootKernel)
               opt2 := nullable (machine .bootInitrd)
               opt3 := nullable (machine .bootOptions) } ∧
      (∀ d : Device, (a.device d).isSome ↔ (d = .externalStorage → d.config machine ≠ [])) ∧
      ∀ (d : Device) (opt : Str), a.device d = some opt →
        splitSlot opt = some { str := machine d.slot, emul := machine d.driver,
                               config := nullable (d.config machine) } ∧
        ∀ funcs funcs', pciParseSlot funcs opt = some funcs' →
          funcs' (slotNumbers (machine d.slot)).1 (slotNumbers (machine d.slot)).2.1
              (slotNumbers (machine d.slot)).2.2 =
            some (machine d.driver, nullable (d.config machine)) := by
  -- the name of the firmware holds no comma, and is told by its first letters
  obtain ⟨firmware, hfirmware, hcomma, hfunc⟩ : ∃ firmware, getFirmwareType machine = some firmware ∧
      ',' ∉ firmware ∧ ∀ s, fwFunc (firmware ++ s) =
        some (if machine .machineType = "linux".toList then .kexec else .fbsdLoad) := by
    rcases h.type with htype | htype
    · refine ⟨"kexec".toList, ?_, by decide, fun s => ?_⟩
      · rw [getFirmwareType, htype, if_neg (by decide), if_pos rfl]
      · rw [htype, if_pos rfl, fwFunc_kexec]
    · refine ⟨"fbsd".toList, ?_, by decide, fun s => ?_⟩
      · rw [getFirmwareType, htype, if_pos rfl]
      · rw [htype, if_neg (by decide), fwFunc_fbsd]
  obtain ⟨a, hfold, hfw, hdev⟩ := foldl_addField h firmware
  refine ⟨a, ?_, ?_, ?_, ?_⟩
  · rw [startArgs, hfirmware, Option.map_some, hfold]
  · rw [hfw]
    exact firmwareParse_joined hfunc hcomma h.kernel h.initrd _
  · intro d
    rw [hdev d]
    split_ifs with hc
    · exact iff_of_false (by decide) fun himp => himp hc.1 hc.2
    · exact iff_of_true rfl fun hd hconfig => hc ⟨hd, hconfig⟩
  · intro d opt hopt
    have hsplit : splitSlot opt = some { str := machine d.slot, emul := machine d.driver,
                                         config := nullable (d.config machine) } := by
      rw [hdev d] at hopt
      split_ifs at hopt
      rw [← Option.some.inj hopt]
      exact splitSlot_slotOption (h.slot d).1 (h.driver d).1 _
    refine ⟨hsplit, fun funcs funcs' hparse => ?_⟩
    rw [pciParseSlot, hsplit, Option.bind_some] at hparse
    have hstored := addSlot_stored hparse
    simp only at hstored
    exact hstored

/-- A machine booted from a CD image, with commas in its options and in a device's config. -/
def cdMachine : Machine := fun f =>
  match f with
  | .bootOptions => "console=ttyS0,115200".toList
  | .externalStorageConfiginfo => "/tmp/a,b.iso".toList
  | f => initializeMachineConfig f

theorem command_line_parsed_cd :
    Plain cdMachine ∧
      ∃ a, startArgs cdMachine = some a ∧
        firmwareParse a.firmware =
          some { func := .kexec, opt1 := some "vmlinuz".toList, opt2 := some "initrd.gz".toList,
                 opt3 := some "console=ttyS0,115200".toList } ∧
        ∃ opt, a.externalStorage = some opt ∧
          splitSlot opt = some { str := "3".toList, emul := "ahci-cd".toList,
                                 config := some "/tmp/a,b.iso".toList } := by
  have hplain : Plain cdMachine :=
    { type := Or.inl rfl
      kernel := by decide
      initrd := by decide
      slot := fun d => by cases d <;> decide
      driver := fun d => by cases d <;> decide }
  obtain ⟨a, hargs, hfw, hpassed, hdev⟩ := command_line_parsed hplain
  refine ⟨hplain, a, hargs, hfw, ?_⟩
  obtain ⟨opt, hopt⟩ := Option.isSome_iff_exists.1
    ((hpassed .externalStorage).2 fun _ => by decide)
  exact ⟨opt, hopt, (hdev .externalStorage opt hopt).1⟩

/-- Every string comes back, an empty one as `NULL`, and every device is passed. -/
def ParsedBack (machine : Machine) (a : Args) : Prop :=
  firmwareParse a.firmware =
      some { func := if machine .machineType = "linux".toList then .kexec else .fbsdLoad
             opt1 := nullable (machine .bootKernel)
             opt2 := nullable (machine .bootInitrd)
             opt3 := nullable (machine .bootOptions) } ∧
    ∀ d : Device, ∃ opt, a.device d = some opt ∧
      splitSlot opt = some { str := machine d.slot, emul := machine d.driver,
                             config := nullable (d.config machine) }

/-- With the defaults of `config.def` the external storage is not passed at all, and an empty kernel
comes back as an empty string. -/
theorem command_line_differs :
    (Plain initializeMachineConfig ∧
      ∀ a, startArgs initializeMachineConfig = some a → ¬ParsedBack initializeMachineConfig a) ∧
    (Plain (Function.update cdMachine .bootKernel []) ∧
      ∀ a, startArgs (Function.update cdMachine .bootKernel []) = some a →
        ¬ParsedBack (Function.update cdMachine .bootKernel []) a) := by
  refine ⟨⟨?_, ?_⟩, ⟨?_, ?_⟩⟩
  · exact
      { type := Or.inl rfl
        kernel := by decide
        initrd := by decide
        slot := fun d => by cases d <;> decide
        driver := fun d => by cases d <;> decide }
  · intro a ha hback
    obtain ⟨opt, hopt, -⟩ := hback.2 .externalStorage
    have hnone : (startArgs initializeMachineConfig).map Args.externalStorage = some none := by
      decide
    rw [ha, Option.map_some] at hnone
    exact absurd (hopt.symm.trans (Option.some.inj hnone)) (by simp)
  · exact
      { type := Or.inl rfl
        kernel := by decide
        initrd := by decide
        slot := fun d => by cases d <;> decide
        driver := fun d => by cases d <;> decide }
  · intro a ha hback
    have hempty : ((startArgs (Function.update cdMachine .bootKernel [])).bind fun a =>
        firmwareParse a.firmware).map Firmware.opt1 = some (some []) := by
      decide
    rw [ha, Option.bind_some, hback.1] at hempty
    exact absurd hempty (by decide)

end Xhyve.Manager.CommandLine
