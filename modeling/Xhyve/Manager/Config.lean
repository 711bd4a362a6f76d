import Xhyve.Manager.Ini

/-!
# Machine configurations on disk

The fields of `config.def`, the file `write_machine_config` makes of them and what
`load_machine_config` reads back. Values are written as they are, so they come back only where the
parser leaves them alone.
-/

namespace Xhyve.Manager.Config

open Xhyve.Lib
open Xhyve.Manager.Ini

/-! ## The fields -/

/-- The fields of `xhyve_virtual_machine`, in the order of `config.def`. -/
inductive Field
  | machineName | machineType | machineUuid
  | bootKernel | bootInitrd | bootOptions
  | acpiEnabled
  | processorCpus
  | memorySize
  | bridgeSlot | bridgeDriver | bridgeConfiginfo
  | lpcSlot | lpcDriver
  | lpcDevConfig
  | internalStorageSlot | internalStorageDriver | internalStorageConfiginfo
  | externalStorageSlot | externalStorageDriver | externalStorageConfiginfo
  | networkingSlot | networkingDriver | networkingConfiginfo
deriving DecidableEq, Repr

/-- The lines `CFG(section, name, default)` of `config.def`. -/
def cfg : Field → String × String × String
  | .machineName => ("machine", "name", "default")
  | .machineType => ("machine", "type", "linux")
  | .machineUuid => ("machine", "uuid", "")
  | .bootKernel => ("boot", "kernel", "vmlinuz")
  | .bootInitrd => ("boot", "initrd", "initrd.gz")
  | .bootOptions => ("boot", "options", "earlyprintk=serial console=ttyS0 acpi=off")
  | .acpiEnabled => ("acpi", "enabled", "false")
  | .processorCpus => ("processor", "cpus", "1")
  | .memorySize => ("memory", "size", "1G")
  | .bridgeSlot => ("bridge", "slot", "0:0")
  | .bridgeDriver => ("bridge", "driver", "hostbridge")
  | .bridgeConfiginfo => ("bridge", "configinfo", "")
  | .lpcSlot => ("lpc", "slot", "31")
  | .lpcDriver => ("lpc", "driver", "lpc")
  | .lpcDevConfig => ("lpc_dev", "config", "com1,stdio")
  | .internalStorageSlot => ("internal_storage", "slot", "4")
  | .internalStorageDriver => ("internal_storage", "driver", "virtio-blk")
  | .internalStorageConfiginfo =>
    ("internal_storage", "configinfo", "/usr/local/Library/xhyve/vdisks/hdd.img")
  | .externalStorageSlot => ("external_storage", "slot", "3")
  | .externalStorageDriver => ("external_storage", "driver", "ahci-cd")
  | .externalStorageConfiginfo => ("external_storage", "configinfo", "")
  | .networkingSlot => ("networking", "slot", "2:0")
  | .networkingDriver => ("networking", "driver", "virtio-net")
  | .networkingConfiginfo => ("networking", "configinfo", "")

def config : List Field :=
  [.machineName, .machineType, .machineUuid, .bootKernel, .bootInitrd, .bootOptions, .acpiEnabled,
    .processorCpus, .memorySize, .bridgeSlot, .bridgeDriver, .bridgeConfiginfo, .lpcSlot,
    .lpcDriver, .lpcDevConfig, .internalStorageSlot, .internalStorageDriver,
    .internalStorageConfiginfo, .externalStorageSlot, .externalStorageDriver,
    .externalStorageConfiginfo, .networkingSlot, .networkingDriver, .networkingConfiginfo]

def Field.sect (f : Field) : Str := (cfg f).1.toList
def Field.name (f : Field) : Str := (cfg f).2.1.toList
def Field.default (f : Field) : Str := (cfg f).2.2.toList

theorem mem_config (f : Field) : f ∈ config := by cases f <;> decide

theorem sect_word (f : Field) : Word f.sect := by cases f <;> decide

theorem sect_ne_nil (f : Field) : f.sect ≠ [] := by cases f <;> decide

theorem sect_length (f : Field) : f.sect.length < maxSection := by cases f <;> decide

theorem name_word (f : Field) : Word f.name := by cases f <;> decide

theorem name_ne_nil (f : Field) : f.name ≠ [] := by cases f <;> decide

theorem name_length (f : Field) : f.name.length ≤ 10 := by cases f <;> decide

theorem default_length (f : Field) : f.default.length ≤ 41 := by cases f <;> decide

/-! ## Writing and loading -/

abbrev Machine := Field → Str

/-- `BUFSIZ` of `stdio.h`. -/
def bufsiz : Nat := 1024

/-- What `get_input` leaves in its buffer: at the end of the input the buffer is not touched. -/
def getInput (input stdin : Str) : Str :=
  let input := match fgets bufsiz stdin with
    | none => input
    | some r => r.1
  input.takeWhile (· ∉ ['\x00', '\r', '\n'])

def initializeMachineConfig : Machine := Field.default

/-- The chain of `else if` over `config.def`. -/
def handler : Handler Machine := fun machine sect name value =>
  match config.find? fun f => sect = f.sect ∧ name = f.name with
  | some f => (Function.update machine f value, true)
  | none => (machine, true)

/-- The text of one field and its value. -/
def fieldText (machine : Machine) (f : Field) : Str :=
  f.name ++ (' ' :: '=' :: ' ' :: machine f)

/-- The text from some field on, when `sect` is the section written last. -/
def writeFields (machine : Machine) : Str → List Field → Str
  | _, [] => []
  | sect, f :: fs =>
    (if sect ≠ f.sect then '\n' :: ('[' :: (f.sect ++ [']']) ++ ['\n']) else []) ++
      (fieldText machine f ++ '\n' :: writeFields machine f.sect fs)

def writeMachineConfig (machine : Machine) : Str := writeFields machine [] config

/-- The machine loaded from the file, or `none` where the program exits. -/
def loadMachineConfig (file : Option Str) (newFile : Bool) : Option Machine :=
  let r := iniParse handler file initializeMachineConfig
  if r.2 < 0 ∧ newFile = false then none else some r.1

/-- Text of one line, as it can be typed. -/
def Typed (v : Str) : Prop := ∀ c ∈ v, c ∉ ['\x00', '\r', '\n']

instance (v : Str) : Decidable (Typed v) :=
  List.decidableBAll (fun c => c ∉ ['\x00', '\r', '\n']) v

theorem typed_getInput (input stdin : Str) : Typed (getInput input stdin) := by
  intro c hc
  simpa using List.mem_takeWhile_imp hc

/-- Field and value fit one line of the parser's buffer. -/
def Fits (f : Field) (v : Str) : Prop := f.name.length + 3 + v.length < iniMaxLine

instance (f : Field) (v : Str) : Decidable (Fits f v) :=
  inferInstanceAs (Decidable (f.name.length + 3 + v.length < iniMaxLine))

theorem handler_field (machine : Machine) (f : Field) (v : Str) :
    handler machine f.sect f.name v = (Function.update machine f v, true) := by
  have hfind : config.find? (fun g => f.sect = g.sect ∧ f.name = g.name) = some f := by
    cases f <;> decide
  rw [handler, hfind]

theorem handler_cases (machine : Machine) (sect name v : Str) :
    (handler machine sect name v).1 = machine ∨
      ∃ f : Field, f.name = name ∧ (handler machine sect name v).1 = Function.update machine f v := by
  simp only [handler]
  split
  · rename_i f hf
    have := List.find?_some hf
    simp only [decide_eq_true_eq] at this
    exact Or.inr ⟨f, this.2.symm, rfl⟩
  · exact Or.inl rfl

theorem foldl_update_apply (g : Machine) (fs : List Field) (m : Machine) {f : Field}
    (hf : f ∈ fs ∨ m f = g f) : fs.foldl (fun m f => Function.update m f (g f)) m f = g f := by
  induction fs generalizing m with
  | nil => simpa using hf
  | cons f' fs ih =>
    rw [List.foldl_cons]
    apply ih
    by_cases heq : f = f'
    · subst heq
      exact Or.inr (Function.update_self ..)
    · rw [Function.update_of_ne heq]
      exact hf.imp_left fun h => (List.mem_cons.1 h).resolve_left heq

theorem loadMachineConfig_some (stream : Str) (newFile : Bool) :
    loadMachineConfig (some stream) newFile =
      some (iniParseStream handler stream initializeMachineConfig).user := by
  have hopened : ¬((iniParse handler (some stream) initializeMachineConfig).2 < 0 ∧
      newFile = false) := by
    rintro ⟨h, -⟩
    simp only [iniParse] at h
    omega
  simp only [loadMachineConfig, if_neg hopened]
  rfl

section Written

variable {machine : Machine} (htyped : ∀ f, Typed (machine f))
include htyped

theorem value_clean (f : Field) : '\x00' ∉ machine f ∧ '\n' ∉ machine f :=
  ⟨fun h => htyped f _ h (by simp), fun h => htyped f _ h (by simp)⟩

theorem newline_not_mem (f : Field) : '\n' ∉ fieldText machine f := by
  have hname := (name_word f).not_mem (d := '\n') (by decide)
  have hv := (value_clean htyped f).2
  simp only [fieldText, List.mem_append, List.mem_cons, not_or]
  exact ⟨hname, by decide, by decide, by decide, hv⟩

/-- The lines the parser gets from the text of a field on. -/
theorem streamLines_field (sect : Str) (f : Field) (fs : List Field) :
    streamLines (writeFields machine sect (f :: fs)) =
      (if sect ≠ f.sect then [['\n'], '[' :: (f.sect ++ [']']) ++ ['\n']] else []) ++
        (BoundedLines.pieces '\n' (iniMaxLine - 1) (fieldText machine f) ++
          streamLines (writeFields machine f.sect fs)) := by
  have hpair : streamLines (fieldText machine f ++ '\n' :: writeFields machine f.sect fs) =
      BoundedLines.pieces '\n' (iniMaxLine - 1) (fieldText machine f) ++
        streamLines (writeFields machine f.sect fs) :=
    BoundedLines.lines_line (by decide) (newline_not_mem htyped f) _
  rw [writeFields, ← hpair]
  split_ifs with hsect
  · have hclean : '\n' ∉ '[' :: (f.sect ++ [']']) := by
      have := (sect_word f).not_mem (d := '\n') (by decide)
      simpa using this
    have hlen : ('[' :: (f.sect ++ [']'])).length < iniMaxLine - 1 := by
      have := sect_length f
      simp only [maxSection] at this
      simp only [List.length_cons, List.length_append, List.length_nil, iniMaxLine]
      omega
    rw [List.cons_append, List.append_assoc, List.singleton_append]
    have hheader := BoundedLines.lines_line (n := iniMaxLine - 1) (by decide) hclean
      (fieldText machine f ++ '\n' :: writeFields machine f.sect fs)
    have hblank := BoundedLines.lines_line (n := iniMaxLine - 1) (by decide)
      (List.not_mem_nil (a := '\n'))
      ('[' :: (f.sect ++ [']']) ++ '\n' :: (fieldText machine f ++
        '\n' :: writeFields machine f.sect fs))
    rw [BoundedLines.pieces_fits hlen] at hheader
    rw [BoundedLines.pieces_fits (by decide), hheader] at hblank
    exact hblank
  · rfl

/-- A field that fits reaches the handler, whether or not its terminator is in the same line. -/
theorem parse_fitting {f : Field} (hfit : Fits f (machine f)) {st : Parser Machine}
    (hsect : st.sect = f.sect) :
    ((BoundedLines.pieces '\n' (iniMaxLine - 1) (fieldText machine f)).foldl
        (parseLine handler) st).user = Function.update st.user f (survivor (machine f)) ∧
      ((BoundedLines.pieces '\n' (iniMaxLine - 1) (fieldText machine f)).foldl
        (parseLine handler) st).sect = f.sect := by
  have hlen : (fieldText machine f).length = f.name.length + 3 + (machine f).length := by
    simp only [fieldText, List.length_append, List.length_cons]
    omega
  have hle : (fieldText machine f).length ≤ iniMaxLine - 1 := by
    rw [Fits] at hfit
    omega
  have hread : ∀ t, t = [] ∨ t = ['\n'] →
      parseLine handler st (fieldText machine f ++ t) = callHandler handler
        { st with lineno := st.lineno + 1, prevName := strncpy0 f.name maxName } f.name
        (survivor (machine f)) := fun t ht =>
    parseLine_pair (name_word f) (name_ne_nil f) (value_clean htyped f).1 ht
  have huser : ∀ t, t = [] ∨ t = ['\n'] →
      (parseLine handler st (fieldText machine f ++ t)).user =
          Function.update st.user f (survivor (machine f)) ∧
        (parseLine handler st (fieldText machine f ++ t)).sect = f.sect := by
    intro t ht
    rw [hread t ht, callHandler_user, callHandler_sect]
    simp only [hsect, handler_field, and_self]
  rcases Nat.lt_or_eq_of_le hle with hlt | heq
  · rw [BoundedLines.pieces_fits hlt]
    exact huser ['\n'] (Or.inr rfl)
  · -- the buffer is full: the terminator comes as a blank line
    rw [BoundedLines.pieces_full (by decide) heq.ge, List.take_of_length_le hle,
      List.drop_eq_nil_of_le hle, BoundedLines.pieces_fits (by decide)]
    have h := huser [] (Or.inl rfl)
    rw [List.append_nil] at h
    simp only [List.foldl_cons, List.foldl_nil, List.nil_append, parseLine_blank]
    exact h

theorem parse_fields (hfit : ∀ f, Fits f (machine f)) (fs : List Field) (sect : Str)
    (st : Parser Machine) (hsect : sect ≠ [] → st.sect = sect) :
    ((streamLines (writeFields machine sect fs)).foldl (parseLine handler) st).user =
      fs.foldl (fun m f => Function.update m f (survivor (machine f))) st.user := by
  induction fs generalizing sect st with
  | nil =>
    have : streamLines (writeFields machine sect []) = [] := BoundedLines.lines_nil
    rw [this]
    rfl
  | cons f fs ih =>
    rw [streamLines_field htyped, List.foldl_append, List.foldl_append, List.foldl_cons]
    -- after a section line, if one was written, the parser is in the field's section
    have hheader : ∀ lines, lines = (if sect ≠ f.sect then
          [['\n'], '[' :: (f.sect ++ [']']) ++ ['\n']] else []) →
        (lines.foldl (parseLine handler) st).sect = f.sect ∧
          (lines.foldl (parseLine handler) st).user = st.user := by
      rintro lines rfl
      split_ifs with hs
      · rw [List.foldl_cons, List.foldl_cons, List.foldl_nil, parseLine_blank,
          parseLine_section (sect_word f) (sect_length f)]
        exact ⟨rfl, rfl⟩
      · have heq : sect = f.sect := not_not.1 hs
        exact ⟨(hsect (heq ▸ sect_ne_nil f)).trans heq, rfl⟩
    obtain ⟨hin, huser⟩ := hheader _ rfl
    have hpair := parse_fitting htyped (hfit f) hin
    rw [ih f.sect _ fun _ => hpair.2, hpair.1, huser]

/-- A machine whose fields all fit comes back with what the parser leaves of its values. -/
theorem load_fitting (hfit : ∀ f, Fits f (machine f)) (newFile : Bool) :
    loadMachineConfig (some (writeMachineConfig machine)) newFile =
      some fun f => survivor (machine f) := by
  rw [loadMachineConfig_some, iniParseStream, writeMachineConfig,
    parse_fields htyped hfit config [] _ fun h => absurd rfl h]
  congr 1
  funext f
  exact foldl_update_apply _ config _ (Or.inl (mem_config f))

end Written

/-! ## Values that cannot come back -/

/-- Every value is within its field's bound. -/
def Held (bound : Field → Nat) (machine : Machine) : Prop := ∀ f, (machine f).length ≤ bound f

theorem held_handler {bound : Field → Nat} {machine : Machine} {sect name v : Str}
    (h : Held bound machine) (hv : ∀ f : Field, f.name = name → v.length ≤ bound f) :
    Held bound (handler machine sect name v).1 := by
  rcases handler_cases machine sect name v with heq | ⟨f, hname, heq⟩
  · rw [heq]
    exact h
  · rw [heq]
    intro g
    by_cases hg : g = f
    · subst hg
      rw [Function.update_self]
      exact hv g hname
    · rw [Function.update_of_ne hg]
      exact h g

/-- The line leaves every value within its bound, whatever came before. -/
def Keeps (bound : Field → Nat) (line : Str) : Prop :=
  ∀ st : Parser Machine, Held bound st.user → Held bound (parseLine handler st line).user

theorem keeps_of_length {bound : Field → Nat} {line : Str}
    (hline : ∀ f, line.length ≤ bound f + 1) : Keeps bound line := by
  intro st h
  rcases parseLine_user st line with heq | ⟨name, v, heq, hlt⟩
  · rw [heq]
    exact h
  · rw [heq]
    refine held_handler h fun f _ => ?_
    have := hline f
    omega

theorem held_foldl {bound : Field → Nat} {lines : List Str} (hlines : ∀ l ∈ lines, Keeps bound l)
    {st : Parser Machine} (h : Held bound st.user) :
    Held bound (lines.foldl (parseLine handler) st).user := by
  induction lines generalizing st with
  | nil => exact h
  | cons l lines ih =>
    rw [List.foldl_cons]
    exact ih (fun l' hl' => hlines l' (List.mem_cons_of_mem l hl'))
      (hlines l List.mem_cons_self st h)

theorem held_load {bound : Field → Nat} {machine loaded : Machine} {newFile : Bool}
    (hdefault : ∀ f, 41 ≤ bound f)
    (hlines : ∀ l ∈ streamLines (writeMachineConfig machine), Keeps bound l)
    (hload : loadMachineConfig (some (writeMachineConfig machine)) newFile = some loaded) :
    Held bound loaded := by
  rw [loadMachineConfig_some] at hload
  rw [← Option.some.inj hload]
  exact held_foldl hlines fun f => (default_length f).trans (hdefault f)

/-- What a line has room for after a field's name. -/
def room (f : Field) : Nat := iniMaxLine - 1 - (f.name.length + 3)

theorem le_room (f : Field) : 186 ≤ room f := by
  have := name_length f
  simp only [room, iniMaxLine]
  omega

theorem take_fieldText (machine : Machine) (f : Field) :
    (fieldText machine f).take (iniMaxLine - 1) =
      f.name ++ (' ' :: '=' :: ' ' :: (machine f).take (room f)) := by
  have hname := name_length f
  have hlen : iniMaxLine - 1 - f.name.length = room f + 3 := by
    simp only [room, iniMaxLine]
    omega
  rw [fieldText, List.take_append, hlen, List.take_of_length_le (by simp only [iniMaxLine]; omega)]
  rfl

/-- Where no value is longer than 198 bytes, what is cut off a line is too short to be a value that
did not fit, so no field ends up with more than fits its own line. -/
theorem keeps_room {machine : Machine} (htyped : ∀ f, Typed (machine f))
    (hlen : ∀ f, (machine f).length ≤ iniMaxLine - 2) (fs : List Field) (sect : Str) :
    ∀ l ∈ streamLines (writeFields machine sect fs), Keeps room l := by
  induction fs generalizing sect with
  | nil =>
    intro l hl
    have : streamLines (writeFields machine sect []) = [] := BoundedLines.lines_nil
    rw [this] at hl
    cases hl
  | cons f fs ih =>
    intro l hl
    have hshort : ∀ l : Str, l.length ≤ 187 → Keeps room l := by
      intro l hl
      refine keeps_of_length fun g => ?_
      have := le_room g
      omega
    have hvalue := hlen f
    have hname := name_length f
    simp only [iniMaxLine] at hvalue
    have htext : (fieldText machine f).length = f.name.length + 3 + (machine f).length := by
      simp only [fieldText, List.length_append, List.length_cons]
      omega
    have hpair : ∀ v t : Str, '\x00' ∉ v → (t = [] ∨ t = ['\n']) → v.length ≤ room f →
        Keeps room (f.name ++ (' ' :: '=' :: ' ' :: v) ++ t) := by
      intro v t hv ht hroom st h
      rw [parseLine_pair (name_word f) (name_ne_nil f) hv ht, callHandler_user]
      refine held_handler h fun g hg => ?_
      have hle : (survivor v).length ≤ v.length := (pairValue_length _).trans (rstrip_length v)
      rw [room, hg, ← room]
      exact hle.trans hroom
    rw [streamLines_field htyped, List.mem_append, List.mem_append] at hl
    rcases hl with hl | hl | hl
    · apply hshort
      have := sect_length f
      simp only [maxSection] at this
      split_ifs at hl
      · simp only [List.mem_cons, List.not_mem_nil, or_false] at hl
        rcases hl with rfl | rfl
        · decide
        · simp only [List.length_append, List.length_cons, List.length_nil]
          omega
      · cases hl
    · by_cases hfull : iniMaxLine - 1 ≤ (fieldText machine f).length
      · rw [BoundedLines.pieces_full (by decide) hfull] at hl
        rcases List.mem_cons.1 hl with rfl | hl
        · rw [take_fieldText, ← List.append_nil (_ ++ _)]
          refine hpair _ _ (fun h => (value_clean htyped f).1 (List.mem_of_mem_take h))
            (Or.inl rfl) ?_
          exact List.length_take_le _ _
        · apply hshort
          have hrest := BoundedLines.length_le_of_mem_pieces hl
          rw [List.length_drop, htext] at hrest
          simp only [iniMaxLine] at hrest
          omega
      · rw [BoundedLines.pieces_fits (by omega), List.mem_singleton] at hl
        subst hl
        refine hpair _ _ (value_clean htyped f).1 (Or.inr rfl) ?_
        simp only [room]
        omega
    · exact ih f.sect l hl

/-- A machine comes back from its file exactly when each field fits its line, and no value starts or
ends with a blank or has a `;` right after one. -/
theorem config_round_trip {machine : Machine} (htyped : ∀ f, Typed (machine f)) (newFile : Bool) :
    loadMachineConfig (some (writeMachineConfig machine)) newFile = some machine ↔
      ∀ f, Fits f (machine f) ∧ Kept (machine f) := by
  constructor
  · intro hload
    have hlen : Held (fun _ => iniMaxLine - 2) machine := by
      refine held_load (fun _ => by decide) (fun l hl => keeps_of_length fun _ => ?_) hload
      exact BoundedLines.length_le_of_mem_lines hl
    have hroom : Held room machine := by
      refine held_load (fun f => (by decide : 41 ≤ 186).trans (le_room f)) ?_ hload
      exact keeps_room htyped hlen config []
    have hfit : ∀ f, Fits f (machine f) := by
      intro f
      have h := hroom f
      have hname := name_length f
      simp only [room, iniMaxLine] at h
      simp only [Fits, iniMaxLine]
      omega
    rw [load_fitting htyped hfit] at hload
    intro f
    exact ⟨hfit f, (survivor_eq_iff _).1 (congrFun (Option.some.inj hload) f)⟩
  · intro h
    rw [load_fitting htyped fun f => (h f).1]
    congr 1
    funext f
    exact (survivor_eq_iff _).2 (h f).2

/-- A machine whose kernel is given options of its own. -/
def machineWith (options : String) : Machine :=
  Function.update initializeMachineConfig .bootOptions options.toList

theorem config_round_trip_rescue :
    (∀ f, Typed (machineWith "rw root=/dev/vda1;2 init=#sh[0]" f)) ∧
      (loadMachineConfig (some (writeMachineConfig (machineWith "rw root=/dev/vda1;2 init=#sh[0]")))
          false = some (machineWith "rw root=/dev/vda1;2 init=#sh[0]") ↔
        ∀ f, Fits f (machineWith "rw root=/dev/vda1;2 init=#sh[0]" f) ∧
          Kept (machineWith "rw root=/dev/vda1;2 init=#sh[0]" f)) ∧
      ∀ f, Fits f (machineWith "rw root=/dev/vda1;2 init=#sh[0]" f) ∧
        Kept (machineWith "rw root=/dev/vda1;2 init=#sh[0]" f) := by
  have htyped : ∀ f, Typed (machineWith "rw root=/dev/vda1;2 init=#sh[0]" f) := by
    intro f
    cases f <;> decide
  refine ⟨htyped, config_round_trip htyped false, ?_⟩
  intro f
  cases f <;> decide

/-- Options with a `;` after a blank are cut there. -/
theorem config_options_cut :
    (∀ f, Typed (machineWith "console=ttyS0 ; rw" f)) ∧
      loadMachineConfig (some (writeMachineConfig (machineWith "console=ttyS0 ; rw"))) false ≠
        some (machineWith "console=ttyS0 ; rw") := by
  have htyped : ∀ f, Typed (machineWith "console=ttyS0 ; rw" f) := by
    intro f
    cases f <;> decide
  have hfit : ∀ f, Fits f (machineWith "console=ttyS0 ; rw" f) := by
    intro f
    cases f <;> decide
  refine ⟨htyped, ?_⟩
  rw [load_fitting htyped hfit]
  intro h
  have hcut := congrFun (Option.some.inj h) .bootOptions
  have hshort : survivor (machineWith "console=ttyS0 ; rw" .bootOptions) =
      "console=ttyS0".toList := by decide
  rw [hshort] at hcut
  exact absurd hcut (by decide)

end Xhyve.Manager.Config
