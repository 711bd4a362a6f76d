import Mathlib.Tactic
import Xhyve.Lib.BitFlags
import Xhyve.Lib.Locks

/-!
# The ACPI power management registers

The event registers, the SCI they drive and the SMI command port are guarded by `pm_lock`; the control
register and the reset register are not, and their handlers read a register again after they have
written it. The handlers run on the threads of the virtual CPUs and, for the power button, on that
of the event loop; every access to a register outside the lock is a step of its own.
-/

namespace Xhyve.Emul.AcpiPm

open Xhyve.Lib Xhyve.Lib.Locks

def pm1TmrSts : BitVec 16 := 0x0001
def pm1BmSts : BitVec 16 := 0x0010
def pm1GblSts : BitVec 16 := 0x0020
def pm1PwrbtnSts : BitVec 16 := 0x0100
def pm1SlpbtnSts : BitVec 16 := 0x0200
def pm1RtcSts : BitVec 16 := 0x0400
def pm1WakSts : BitVec 16 := 0x8000

def pm1TmrEn : BitVec 16 := 0x0001
def pm1GblEn : BitVec 16 := 0x0020
def pm1PwrbtnEn : BitVec 16 := 0x0100
def pm1SlpbtnEn : BitVec 16 := 0x0200
def pm1RtcEn : BitVec 16 := 0x0400

def pm1SciEn : BitVec 16 := 0x0001
def pm1SlpTyp : BitVec 16 := 0x1c00
def pm1SlpEn : BitVec 32 := 0x2000
def pm1AlwaysZero : BitVec 32 := 0xc003

def bhyveAcpiEnable : BitVec 32 := 0xa0
def bhyveAcpiDisable : BitVec 32 := 0xa1

inductive SuspendHow
  | reset | poweroff
deriving DecidableEq, Repr

/-- What is done for `SIGTERM`. -/
inductive Sig
  | dfl | ign
deriving DecidableEq, Repr

/-- What the registers do to the rest of the machine, and what has been written to them. -/
inductive Event
  /-- `xh_vm_isa_assert_irq(SCI_INT, SCI_INT)` and its counterpart. -/
  | assertIrq | deassertIrq
  /-- The answer to a read. -/
  | read (eax : BitVec 32)
  | wroteReset (val : BitVec 8)
  | wroteControl (eax : BitVec 32)
  /-- The SMI command that enables or disables ACPI. -/
  | smi (on : Bool)
deriving DecidableEq, Repr

structure Pm where
  resetControl : BitVec 8
  sciActive : Bool
  pm1Enable : BitVec 16
  pm1Status : BitVec 16
  pm1Control : BitVec 16
  /-- Whether there is a `power_button` event. -/
  powerButton : Bool
  oldPowerHandler : Sig
  sigterm : Sig
  /-- `vm->suspend`. -/
  suspended : Option SuspendHow
  /-- An assertion has failed. -/
  aborted : Bool
  /-- Most recent first. -/
  trace : List Event
deriving DecidableEq, Repr

def Pm.log (v : Pm) (e : Event) : Pm := { v with trace := e :: v.trace }

def sciAssert (v : Pm) : Pm :=
  if v.sciActive then v else { v.log .assertIrq with sciActive := true }

def sciDeassert (v : Pm) : Pm :=
  if v.sciActive then { v.log .deassertIrq with sciActive := false } else v

/-- `need_sci`. -/
def needSci (v : Pm) : Bool :=
  (v.pm1Enable &&& pm1TmrEn ≠ 0 ∧ v.pm1Status &&& pm1TmrSts ≠ 0) ∨
  (v.pm1Enable &&& pm1GblEn ≠ 0 ∧ v.pm1Status &&& pm1GblSts ≠ 0) ∨
  (v.pm1Enable &&& pm1PwrbtnEn ≠ 0 ∧ v.pm1Status &&& pm1PwrbtnSts ≠ 0) ∨
  (v.pm1Enable &&& pm1SlpbtnEn ≠ 0 ∧ v.pm1Status &&& pm1SlpbtnSts ≠ 0) ∨
  (v.pm1Enable &&& pm1RtcEn ≠ 0 ∧ v.pm1Status &&& pm1RtcSts ≠ 0)

def statusWrite (v : Pm) (eax : BitVec 32) : Pm :=
  { v with pm1Status := ((v.pm1Status.setWidth 32) &&& ~~~(eax &&&
      (pm1WakSts ||| pm1RtcSts ||| pm1SlpbtnSts ||| pm1PwrbtnSts ||| pm1BmSts).setWidth 32)).setWidth 16 }

def enableWrite (v : Pm) (eax : BitVec 32) : Pm :=
  { v with pm1Enable := (eax &&& (pm1PwrbtnEn ||| pm1GblEn).setWidth 32).setWidth 16 }

/-- The control register after a write, `control` before it. -/
def controlValue (control : BitVec 16) (eax : BitVec 32) : BitVec 16 :=
  ((control &&& pm1SciEn).setWidth 32 ||| (eax &&& ~~~(pm1SlpEn ||| pm1AlwaysZero))).setWidth 16

/-- The SMI command on the control register. -/
def smiValue (on : Bool) (control : BitVec 16) : BitVec 16 :=
  if on then control ||| pm1SciEn else control &&& ~~~pm1SciEn

/-- `xh_vm_suspend`, whose result is the error itself, and the assertion behind it, which looks at `errno`. -/
def suspend (v : Pm) (how : SuspendHow) (errnoEalready : Bool) : Pm :=
  match v.suspended with
  | none => { v with suspended := some how }
  | some _ => if errnoEalready then v else { v with aborted := true }

/-- `mevent_add` and `signal` where there is no event yet; without one `mevent_add` may still fail. -/
def buttonAdd (v : Pm) (added : Bool) : Pm :=
  if v.powerButton then v
  else { v with powerButton := added, oldPowerHandler := v.sigterm, sigterm := .ign }

def buttonDelete (v : Pm) : Pm :=
  if v.powerButton then { v with powerButton := false, sigterm := v.oldPowerHandler } else v

/-! ## The handlers -/

/-- What a handler that takes `pm_lock` is called for. A port is read without a value. -/
inductive Job
  | status (eax : Option (BitVec 32))
  | enable (eax : Option (BitVec 32))
  | button
  | smi (eax : BitVec 32)
deriving DecidableEq, Repr

inductive Pc
  | out
  | lock (job : Job)
  | held (job : Job)
  /-- `sci_update` before it looks, and before it acts. -/
  | sciUpdate
  | sciDrive (needSci : Bool)
  /-- The SMI command has read the control register. -/
  | smiStore (on : Bool) (control : BitVec 16)
  | smiButton (on : Bool)
  | unlock
  /-- The control handler has read the control register, -/
  | controlStore (eax : BitVec 32) (control : BitVec 16)
  /-- and has written it. -/
  | controlTest (eax : BitVec 32)
  | resetTest
deriving DecidableEq, Repr

/-- The accesses with their size, and the event for `SIGTERM`. -/
inductive Access
  | reset (bytes : Nat) (eax : Option (BitVec 32))
  | status (bytes : Nat) (eax : Option (BitVec 32))
  | enable (bytes : Nat) (eax : Option (BitVec 32))
  | control (bytes : Nat) (eax : Option (BitVec 32))
  | smi (bytes : Nat) (eax : BitVec 32)
  | button
deriving DecidableEq, Repr

/-- A handler is called, or goes on; then `found` is whether `mevent_add` succeeds or `errno` is
`EALREADY`, where it comes to these. -/
inductive Choice
  | call (access : Access)
  | go (found : Bool)
deriving DecidableEq, Repr

def Choice.found : Choice → Bool
  | .call _ => true
  | .go found => found

abbrev Code := Option (Instr Unit Pc Pm)

/-- The calls of the handlers. An access of another size is answered with an error. -/
def call (v : Pm) : Access → Instr Unit Pc Pm
  | .reset bytes eax =>
    if bytes ≠ 1 then .jump v .out
    else match eax with
      | none => .jump (v.log (.read (v.resetControl.setWidth 32))) .out
      | some eax => .jump { v.log (.wroteReset (eax.setWidth 8)) with resetControl := eax.setWidth 8 } .resetTest
  | .status bytes eax => .jump v (if bytes ≠ 2 then .out else .lock (.status eax))
  | .enable bytes eax => .jump v (if bytes ≠ 2 then .out else .lock (.enable eax))
  | .control bytes eax =>
    if bytes ≠ 2 then .jump v .out
    else match eax with
      | none => .jump (v.log (.read (v.pm1Control.setWidth 32))) .out
      | some eax => .jump v (.controlStore eax v.pm1Control)
  | .smi bytes eax => .jump v (if bytes ≠ 1 then .out else .lock (.smi eax))
  | .button => .jump v (.lock .button)

/-- With `pm_lock` just taken. -/
def body (v : Pm) : Job → Instr Unit Pc Pm
  | .status none => .jump (v.log (.read (v.pm1Status.setWidth 32))) .unlock
  | .status (some eax) => .jump (statusWrite v eax) .sciUpdate
  | .enable none => .jump (v.log (.read (v.pm1Enable.setWidth 32))) .unlock
  | .enable (some eax) => .jump (enableWrite v eax) .sciUpdate
  | .button =>
    if v.pm1Status &&& pm1PwrbtnSts = 0 then
      .jump { v with pm1Status := v.pm1Status ||| pm1PwrbtnSts } .sciUpdate
    else .jump v .unlock
  | .smi eax =>
    if eax = bhyveAcpiEnable then .jump v (.smiStore true v.pm1Control)
    else if eax = bhyveAcpiDisable then .jump v (.smiStore false v.pm1Control)
    else .jump v .unlock

/-- A handler on its way. -/
def goOn (v : Pm) (found : Bool) : Pc → Code
  | .out => none
  | .lock job => some (.lock () (.held job))
  | .held job => some (body v job)
  | .sciUpdate => some (.jump v (.sciDrive (needSci v)))
  | .sciDrive need => some (.jump (if need then sciAssert v else sciDeassert v) .unlock)
  | .smiStore on control =>
    some (.jump { v.log (.smi on) with pm1Control := smiValue on control } (.smiButton on))
  | .smiButton on => some (.jump (if on then buttonAdd v found else buttonDelete v) .unlock)
  | .unlock => some (.unlock () .out)
  | .controlStore eax control =>
    some (.jump { v.log (.wroteControl eax) with pm1Control := controlValue control eax }
      (if eax &&& pm1SlpEn ≠ 0 then .controlTest eax else .out))
  | .controlTest _ =>
    some (.jump (if (v.pm1Control &&& pm1SlpTyp) >>> 10 = 5 then suspend v .poweroff found else v) .out)
  | .resetTest => some (.jump (if v.resetControl &&& 0x4 ≠ 0 then suspend v .reset found else v) .out)

def code (p : Pc) (c : Choice) (v : Pm) : Code :=
  if v.aborted then none
  else
    match c with
    | .call access => if p = .out then some (call v access) else none
    | .go found => goOn v found p

def program (θ : Type) : Program θ Unit Pc Pm Choice Empty where
  code _ := code
  env e := nomatch e

abbrev State (θ : Type) := Machine θ Unit Pc Pm

def Pm.initial : Pm where
  resetControl := 0
  sciActive := false
  pm1Enable := 0
  pm1Status := 0
  pm1Control := 0
  powerButton := false
  oldPowerHandler := .dfl
  sigterm := .dfl
  suspended := none
  aborted := false
  trace := []

def State.initial (θ : Type) : State θ where
  pc _ := .out
  owner _ := none
  shared := .initial

def system (θ : Type) [DecidableEq θ] : System (State θ) (Act θ Choice Empty) :=
  System.ofFn (· = State.initial θ) (next (program θ))

/-! ## The lock -/

/-- `pm_lock` is held. -/
def locked : Pc → Bool
  | .held _ | .sciUpdate | .sciDrive _ | .smiStore _ _ | .smiButton _ | .unlock => true
  | _ => false

/-- What `suspend` can do. -/
inductive Suspends (v : Pm) (how : SuspendHow) : Pm → Prop
  | first (hnone : v.suspended = none) : Suspends v how { v with suspended := some how }
  | again (hsome : v.suspended ≠ none) : Suspends v how v
  | abort (hsome : v.suspended ≠ none) : Suspends v how { v with aborted := true }

theorem suspend_suspends (v : Pm) (how : SuspendHow) (errnoEalready : Bool) :
    Suspends v how (suspend v how errnoEalready) := by
  rw [suspend]
  split
  · rename_i hnone
    exact .first hnone
  · rename_i hsome
    have hne : v.suspended ≠ none := by
      rw [hsome]
      exact nofun
    split
    · exact .again hne
    · exact .abort hne

/-- What a thread can do, and with what it finds. -/
inductive Does (found : Bool) (v : Pm) : Pc → Instr Unit Pc Pm → Prop
  | refuse : Does found v .out (.jump v .out)
  | read (eax : BitVec 32) : Does found v .out (.jump (v.log (.read eax)) .out)
  | reset (val : BitVec 8) :
    Does found v .out (.jump { v.log (.wroteReset val) with resetControl := val } .resetTest)
  | call (job : Job) : Does found v .out (.jump v (.lock job))
  | load (eax : BitVec 32) : Does found v .out (.jump v (.controlStore eax v.pm1Control))
  | lock (job : Job) : Does found v (.lock job) (.lock () (.held job))
  | readHeld (job : Job) (eax : BitVec 32) : Does found v (.held job) (.jump (v.log (.read eax)) .unlock)
  | status (job : Job) (eax : BitVec 32) : Does found v (.held job) (.jump (statusWrite v eax) .sciUpdate)
  | enable (job : Job) (eax : BitVec 32) : Does found v (.held job) (.jump (enableWrite v eax) .sciUpdate)
  | press (job : Job) :
    Does found v (.held job) (.jump { v with pm1Status := v.pm1Status ||| pm1PwrbtnSts } .sciUpdate)
  | pass (job : Job) : Does found v (.held job) (.jump v .unlock)
  | smi (job : Job) (on : Bool) : Does found v (.held job) (.jump v (.smiStore on v.pm1Control))
  | look : Does found v .sciUpdate (.jump v (.sciDrive (needSci v)))
  | raise (hactive : v.sciActive = false) :
    Does found v (.sciDrive true) (.jump { v.log .assertIrq with sciActive := true } .unlock)
  | lower (hactive : v.sciActive = true) :
    Does found v (.sciDrive false) (.jump { v.log .deassertIrq with sciActive := false } .unlock)
  | level {need : Bool} (hactive : v.sciActive = need) : Does found v (.sciDrive need) (.jump v .unlock)
  | smiStore (on : Bool) (control : BitVec 16) : Does found v (.smiStore on control)
    (.jump { v.log (.smi on) with pm1Control := smiValue on control } (.smiButton on))
  | add (hnone : v.powerButton = false) : Does found v (.smiButton true)
    (.jump { v with powerButton := found, oldPowerHandler := v.sigterm, sigterm := .ign } .unlock)
  | delete (hsome : v.powerButton = true) : Does found v (.smiButton false)
    (.jump { v with powerButton := false, sigterm := v.oldPowerHandler } .unlock)
  | settled {on : Bool} (hon : v.powerButton = on) : Does found v (.smiButton on) (.jump v .unlock)
  | unlock : Does found v .unlock (.unlock () .out)
  | store (eax : BitVec 32) (control : BitVec 16) : Does found v (.controlStore eax control)
    (.jump { v.log (.wroteControl eax) with pm1Control := controlValue control eax }
      (if eax &&& pm1SlpEn ≠ 0 then .controlTest eax else .out))
  | poweroff (eax : BitVec 32) {w : Pm} (hs5 : (v.pm1Control &&& pm1SlpTyp) >>> 10 = 5)
    (hw : Suspends v .poweroff w) : Does found v (.controlTest eax) (.jump w .out)
  | noPoweroff (eax : BitVec 32) (hs5 : (v.pm1Control &&& pm1SlpTyp) >>> 10 ≠ 5) :
    Does found v (.controlTest eax) (.jump v .out)
  | resets {w : Pm} (hreset : v.resetControl &&& 0x4 ≠ 0) (hw : Suspends v .reset w) :
    Does found v .resetTest (.jump w .out)
  | noReset (hreset : v.resetControl &&& 0x4 = 0) : Does found v .resetTest (.jump v .out)

section Steps
variable {p : Pc} {c : Choice} {v : Pm} {x : Instr Unit Pc Pm}

theorem call_does (found : Bool) (v : Pm) (access : Access) : Does found v .out (call v access) := by
  cases access with
  | reset bytes eax =>
    simp only [call]
    split
    · exact .refuse
    · cases eax with
      | none => exact .read _
      | some eax => exact .reset _
  | control bytes eax =>
    simp only [call]
    split
    · exact .refuse
    · cases eax with
      | none => exact .read _
      | some eax => exact .load _
  | status bytes eax | enable bytes eax | smi bytes eax =>
    rw [call]
    split
    · exact .refuse
    · exact .call _
  | button => exact .call _

theorem body_does (found : Bool) (v : Pm) (job : Job) : Does found v (.held job) (body v job) := by
  cases job with
  | status eax =>
    cases eax with
    | none => exact .readHeld _ _
    | some eax => exact .status _ _
  | enable eax =>
    cases eax with
    | none => exact .readHeld _ _
    | some eax => exact .enable _ _
  | button =>
    rw [body]
    split
    · exact .press _
    · exact .pass _
  | smi eax =>
    rw [body]
    split
    · exact .smi _ _
    · split
      · exact .smi _ _
      · exact .pass _

theorem goOn_does {found : Bool} (h : goOn v found p = some x) : Does found v p x := by
  cases p with
  | out => cases h
  | held job =>
    obtain rfl := Option.some.inj h
    exact body_does found v job
  | smiButton on =>
    obtain rfl := Option.some.inj h
    cases on with
    | true =>
      simp only [if_true, buttonAdd]
      split
      · rename_i hsome
        exact .settled hsome
      · rename_i hnone
        exact .add ((Bool.not_eq_true _).mp hnone)
    | false =>
      simp only [Bool.false_eq_true, if_false, buttonDelete]
      split
      · rename_i hsome
        exact .delete hsome
      · rename_i hnone
        exact .settled ((Bool.not_eq_true _).mp hnone)
  | sciDrive need =>
    obtain rfl := Option.some.inj h
    cases need with
    | true =>
      simp only [if_true, sciAssert]
      split
      · rename_i hactive
        exact .level hactive
      · rename_i hactive
        exact .raise ((Bool.not_eq_true _).mp hactive)
    | false =>
      simp only [Bool.false_eq_true, if_false, sciDeassert]
      split
      · rename_i hactive
        exact .lower hactive
      · rename_i hactive
        exact .level ((Bool.not_eq_true _).mp hactive)
  | controlTest eax =>
    obtain rfl := Option.some.inj h
    split
    · rename_i hs5
      exact .poweroff _ hs5 (suspend_suspends v _ _)
    · rename_i hs5
      exact .noPoweroff _ hs5
  | resetTest =>
    obtain rfl := Option.some.inj h
    split
    · rename_i hreset
      exact .resets hreset (suspend_suspends v _ _)
    · rename_i hreset
      exact .noReset (Decidable.not_not.mp hreset)
  | lock | sciUpdate | smiStore | unlock | controlStore =>
    obtain rfl := Option.some.inj h
    constructor

theorem code_does (h : code p c v = some x) : Does c.found v p x := by
  cases c with
  | call access =>
    simp only [code] at h
    split at h
    · cases h
    · split at h
      · rename_i hp
        obtain rfl := Option.some.inj h
        subst hp
        exact call_does true v access
      · cases h
  | go found =>
    simp only [code] at h
    split at h
    · cases h
    · exact goOn_does h

end Steps

/-! ## The lock -/

theorem annotated (θ : Type) :
    Annotated (program θ) (fun _ _ => True) (fun (_ : θ) p (_ : Unit) => locked p) where
  lock {i p c v m q} _ hcode _ := by
    have hdoes := code_does hcode
    cases hdoes with
    | lock job => exact ⟨trivial, fun _ => rfl⟩
  unlock {i p c v m q} _ hcode := by
    have hdoes := code_does hcode
    cases hdoes with
    | unlock => exact ⟨trivial, rfl, fun _ => rfl⟩
  jump {i p c v w q} _ hcode := by
    have hdoes := code_does hcode
    refine ⟨trivial, fun _ => ?_⟩
    cases hdoes with
    | store eax control =>
      split
      · rfl
      · rfl
    | _ => rfl

/-- Nothing the lock guards has changed. -/
structure SameGuarded (v w : Pm) : Prop where
  enable : w.pm1Enable = v.pm1Enable
  status : w.pm1Status = v.pm1Status
  active : w.sciActive = v.sciActive
  button : w.powerButton = v.powerButton
  sigterm : w.sigterm = v.sigterm
  old : w.oldPowerHandler = v.oldPowerHandler

theorem SameGuarded.needSci {v w : Pm} (h : SameGuarded v w) : needSci w = needSci v := by
  rw [AcpiPm.needSci, h.enable, h.status, AcpiPm.needSci]

section Local
variable {found : Bool} {p : Pc} {v w : Pm} {x : Instr Unit Pc Pm} {how : SuspendHow}

theorem Suspends.guarded (h : Suspends v how w) : SameGuarded v w := by
  cases h with
  | _ => exact ⟨rfl, rfl, rfl, rfl, rfl, rfl⟩

/-- Only the lock's holder touches what the lock guards. -/
theorem Does.guarded (h : Does found v p x) (hp : locked p = false) : SameGuarded v (x.result v) := by
  cases h with
  | readHeld | status | enable | press | pass | smi | look | raise | lower | level | smiStore | add | delete | settled | unlock =>
    cases hp
  | poweroff _ _ hw | resets _ hw => exact hw.guarded
  | _ => exact ⟨rfl, rfl, rfl, rfl, rfl, rfl⟩

theorem Suspends.trace (h : Suspends v how w) : w.trace = v.trace := by
  cases h with
  | _ => rfl

theorem Does.trace (h : Does found v p x) : v.trace <:+ (x.result v).trace := by
  cases h with
  | read | reset | readHeld | raise | lower | smiStore | store => exact List.suffix_cons _ _
  | poweroff _ _ hw | resets _ hw =>
    rw [Instr.result, hw.trace]
  | _ => exact List.suffix_refl _

/-- The first suspension stays. -/
theorem Does.suspended (h : Does found v p x) (hhow : v.suspended = some how) : (x.result v).suspended = some how := by
  cases h with
  | poweroff _ _ hw | resets _ hw =>
    cases hw with
    | first hnone =>
      rw [hnone] at hhow
      cases hhow
    | again | abort => exact hhow
  | _ => exact hhow

end Local

/-! ## What holds in every run -/

/-- The calls for the SCI take turns, the first one an assert; `active` behind the last one. -/
def Alternates : List Event → Bool → Prop
  | [], active => active = false
  | .assertIrq :: trace, active => active = true ∧ Alternates trace false
  | .deassertIrq :: trace, active => active = false ∧ Alternates trace true
  | _ :: trace, active => Alternates trace active

/-- The bits that are write-only or reserved, but for `SCI_EN`. -/
def Plain (control : BitVec 16) : Prop := control &&& 0xe002 = 0

/-- The sleep type has been written by somebody. -/
def Backed (trace : List Event) (control : BitVec 16) : Prop :=
  control &&& pm1SlpTyp = 0 ∨
    ∃ eax, .wroteControl eax ∈ trace ∧ eax.setWidth 16 &&& pm1SlpTyp = control &&& pm1SlpTyp

/-- Somebody has asked for it: with one write, or for a power-off with two. -/
def Justified (trace : List Event) : SuspendHow → Prop
  | .reset => ∃ val, .wroteReset val ∈ trace ∧ val &&& 0x4 ≠ 0
  | .poweroff => (∃ eax, .wroteControl eax ∈ trace ∧ eax &&& pm1SlpEn ≠ 0) ∧
      ∃ eax, .wroteControl eax ∈ trace ∧ (eax.setWidth 16 &&& pm1SlpTyp) >>> 10 = 5

structure RegsOk (v : Pm) : Prop where
  status : ∀ i, v.pm1Status.getLsbD i = true → i = 8
  enable : ∀ i, v.pm1Enable.getLsbD i = true → i = 5 ∨ i = 8
  control : Plain v.pm1Control
  backed : Backed v.trace v.pm1Control
  reset : v.resetControl = 0 ∨ .wroteReset v.resetControl ∈ v.trace
  sci : Alternates v.trace v.sciActive
  suspended : ∀ how, v.suspended = some how → Justified v.trace how
  aborted : v.aborted = true → v.suspended ≠ none

/-- What a thread relies on. -/
def PcOk (v : Pm) : Pc → Prop
  | .smiStore _ control => Plain control ∧ Backed v.trace control
  | .controlTest eax => .wroteControl eax ∈ v.trace ∧ eax &&& pm1SlpEn ≠ 0
  | .sciDrive need => need = needSci v
  | _ => True

/-- The SCI is about to follow the registers. -/
def settling : Pc → Bool
  | .sciUpdate | .sciDrive _ => true
  | _ => false

section Bits

/-- The bits of a 16-bit word, one after the other. -/
theorem bits16 {P : Nat → Prop} {x : BitVec 16} (h : ∀ i : Fin 16, x.getLsbD i = true → P i) (i : Nat)
    (hi : x.getLsbD i = true) : P i :=
  h ⟨i, BitVec.lt_of_getLsbD hi⟩ hi

theorem statusWrite_bits {v : Pm} {eax : BitVec 32} (i : Nat)
    (hi : (statusWrite v eax).pm1Status.getLsbD i = true) : v.pm1Status.getLsbD i = true := by
  simp only [statusWrite, BitVec.getLsbD_setWidth, BitVec.getLsbD_and, Bool.and_eq_true] at hi
  exact hi.2.1.2

theorem enableWrite_bits {v : Pm} {eax : BitVec 32} (i : Nat)
    (hi : (enableWrite v eax).pm1Enable.getLsbD i = true) : i = 5 ∨ i = 8 := by
  refine bits16 (P := fun i => i = 5 ∨ i = 8) (fun k hk => ?_) i hi
  simp only [enableWrite, BitVec.getLsbD_setWidth, BitVec.getLsbD_and, Bool.and_eq_true] at hk
  have hmask : ∀ k : Fin 16, (pm1PwrbtnEn ||| pm1GblEn).getLsbD k = true → k.val = 5 ∨ k.val = 8 := by decide
  exact hmask k hk.2.2.2

theorem press_bits {status : BitVec 16} (h : ∀ i, status.getLsbD i = true → i = 8) (i : Nat)
    (hi : (status ||| pm1PwrbtnSts).getLsbD i = true) : i = 8 := by
  rw [BitVec.getLsbD_or, Bool.or_eq_true] at hi
  rcases hi with hi | hi
  · exact h i hi
  · refine bits16 (P := (· = 8)) ?_ i hi
    decide

theorem controlValue_plain (control : BitVec 16) (eax : BitVec 32) : Plain (controlValue control eax) := by
  apply BitVec.eq_of_getLsbD_eq
  intro i hi
  interval_cases i <;> simp [controlValue, pm1SciEn, pm1SlpEn, pm1AlwaysZero]

theorem controlValue_typ (control : BitVec 16) (eax : BitVec 32) :
    controlValue control eax &&& pm1SlpTyp = eax.setWidth 16 &&& pm1SlpTyp := by
  apply BitVec.eq_of_getLsbD_eq
  intro i hi
  interval_cases i <;> simp [controlValue, pm1SciEn, pm1SlpEn, pm1AlwaysZero, pm1SlpTyp]

theorem controlValue_sciEn (control : BitVec 16) (eax : BitVec 32) :
    (controlValue control eax).getLsbD 0 = control.getLsbD 0 := by
  simp [controlValue, pm1SciEn, pm1SlpEn, pm1AlwaysZero]

theorem smiValue_plain {control : BitVec 16} (h : Plain control) (on : Bool) : Plain (smiValue on control) := by
  have hsame : smiValue on control &&& 0xe002 = control &&& 0xe002 := by
    apply BitVec.eq_of_getLsbD_eq
    intro i hi
    cases on with
    | true => interval_cases i <;> simp [smiValue, pm1SciEn]
    | false => interval_cases i <;> simp [smiValue, pm1SciEn]
  exact hsame.trans h

theorem smiValue_typ (on : Bool) (control : BitVec 16) :
    smiValue on control &&& pm1SlpTyp = control &&& pm1SlpTyp := by
  apply BitVec.eq_of_getLsbD_eq
  intro i hi
  cases on with
  | true => interval_cases i <;> simp [smiValue, pm1SciEn, pm1SlpTyp]
  | false => interval_cases i <;> simp [smiValue, pm1SciEn, pm1SlpTyp]

theorem smiValue_sciEn (on : Bool) (control : BitVec 16) : (smiValue on control).getLsbD 0 = on := by
  cases on with
  | true => simp [smiValue, pm1SciEn]
  | false => simp [smiValue, pm1SciEn]

end Bits

section Invariant
variable {p q : Pc} {v w : Pm} {x : Instr Unit Pc Pm} {how : SuspendHow} {trace trace' : List Event}

theorem Backed.mono (hsub : trace <:+ trace') {control : BitVec 16} (h : Backed trace control) : Backed trace' control := by
  rcases h with hzero | ⟨eax, hmem, heq⟩
  · exact .inl hzero
  · exact .inr ⟨eax, hsub.mem hmem, heq⟩

theorem Justified.mono (hsub : trace <:+ trace') (h : Justified trace how) : Justified trace' how := by
  cases how with
  | reset =>
    obtain ⟨val, hmem, hval⟩ := h
    exact ⟨val, hsub.mem hmem, hval⟩
  | poweroff =>
    obtain ⟨⟨eax, hmem, hen⟩, eax', hmem', htyp⟩ := h
    exact ⟨⟨eax, hsub.mem hmem, hen⟩, eax', hsub.mem hmem', htyp⟩

/-- What a thread relies on survives the others. -/
theorem PcOk.frame (h : PcOk v p) (hsub : v.trace <:+ w.trace) (hneed : locked p = true → needSci w = needSci v) :
    PcOk w p := by
  cases p with
  | smiStore on control => exact ⟨h.1, h.2.mono hsub⟩
  | controlTest eax => exact ⟨hsub.mem h.1, h.2⟩
  | sciDrive need => exact (h : need = needSci v).trans (hneed rfl).symm
  | _ => trivial

theorem RegsOk.suspends (h : RegsOk v) (hw : Suspends v how w) (hjust : Justified v.trace how) : RegsOk w := by
  cases hw with
  | first hnone =>
    refine ⟨h.status, h.enable, h.control, h.backed, h.reset, h.sci, fun how' heq => ?_, fun _ => nofun⟩
    obtain rfl := Option.some.inj heq
    exact hjust
  | again hsome => exact h
  | abort hsome => exact ⟨h.status, h.enable, h.control, h.backed, h.reset, h.sci, h.suspended, fun _ => hsome⟩

/-- An event that says nothing about the SCI, behind which the control register holds `control`. -/
theorem RegsOk.write (h : RegsOk v) (e : Event) {control : BitVec 16} (hplain : Plain control)
    (hbacked : Backed (e :: v.trace) control) (hsci : Alternates (e :: v.trace) v.sciActive) :
    RegsOk { v.log e with pm1Control := control } where
  status := h.status
  enable := h.enable
  control := hplain
  backed := hbacked
  reset := h.reset.imp_right (List.mem_cons_of_mem e)
  sci := hsci
  suspended how heq := (h.suspended how heq).mono (List.suffix_cons e v.trace)
  aborted := h.aborted

theorem RegsOk.log (h : RegsOk v) (e : Event) (hsci : Alternates (e :: v.trace) v.sciActive) : RegsOk (v.log e) :=
  h.write e h.control (h.backed.mono (List.suffix_cons e v.trace)) hsci

theorem RegsOk.drive (h : RegsOk v) (e : Event) {active : Bool} (hsci : Alternates (e :: v.trace) active) :
    RegsOk { v.log e with sciActive := active } where
  status := h.status
  enable := h.enable
  control := h.control
  backed := h.backed.mono (List.suffix_cons _ _)
  reset := h.reset.imp_right (List.mem_cons_of_mem _)
  sci := hsci
  suspended how heq := (h.suspended how heq).mono (List.suffix_cons _ _)
  aborted := h.aborted

end Invariant

section Invariant
variable {found : Bool} {p : Pc} {v : Pm} {x : Instr Unit Pc Pm}

/-- An access keeps what holds of the registers, and the thread what it relies on. -/
theorem Does.regs (h : Does found v p x) (hv : RegsOk v) (hp : PcOk v p) :
    RegsOk (x.result v) ∧ PcOk (x.result v) x.next := by
  cases h with
  | refuse | call | load | lock | pass | level | settled | unlock | noPoweroff | noReset => exact ⟨hv, trivial⟩
  | read eax | readHeld job eax => exact ⟨hv.log (.read eax) hv.sci, trivial⟩
  | reset val =>
    refine ⟨?_, trivial⟩
    have hlog := hv.log (.wroteReset val) hv.sci
    exact ⟨hlog.status, hlog.enable, hlog.control, hlog.backed, .inr (List.mem_cons_self ..), hlog.sci, hlog.suspended,
      hlog.aborted⟩
  | status job eax =>
    exact ⟨⟨fun i hi => hv.status i (statusWrite_bits i hi), hv.enable, hv.control, hv.backed, hv.reset, hv.sci,
      hv.suspended, hv.aborted⟩, trivial⟩
  | enable job eax =>
    exact ⟨⟨hv.status, enableWrite_bits, hv.control, hv.backed, hv.reset, hv.sci, hv.suspended, hv.aborted⟩, trivial⟩
  | press job =>
    exact ⟨⟨press_bits hv.status, hv.enable, hv.control, hv.backed, hv.reset, hv.sci, hv.suspended, hv.aborted⟩, trivial⟩
  | smi job on => exact ⟨hv, hv.control, hv.backed⟩
  | look => exact ⟨hv, rfl⟩
  | raise hactive => exact ⟨hv.drive .assertIrq ⟨rfl, hactive ▸ hv.sci⟩, trivial⟩
  | lower hactive => exact ⟨hv.drive .deassertIrq ⟨rfl, hactive ▸ hv.sci⟩, trivial⟩
  | smiStore on control =>
    refine ⟨hv.write (.smi on) (smiValue_plain hp.1 on) ?_ hv.sci, trivial⟩
    rw [Backed, smiValue_typ]
    exact hp.2.mono (List.suffix_cons _ _)
  | add hnone | delete hsome =>
    exact ⟨⟨hv.status, hv.enable, hv.control, hv.backed, hv.reset, hv.sci, hv.suspended, hv.aborted⟩, trivial⟩
  | store eax control =>
    have hmem : Event.wroteControl eax ∈ Event.wroteControl eax :: v.trace := List.mem_cons_self ..
    refine ⟨hv.write (.wroteControl eax) (controlValue_plain control eax) ?_ hv.sci, ?_⟩
    · rw [Backed, controlValue_typ]
      exact .inr ⟨eax, hmem, rfl⟩
    · simp only [Instr.next]
      split
      · rename_i hen
        exact ⟨hmem, hen⟩
      · trivial
  | poweroff eax hs5 hw =>
    refine ⟨hv.suspends hw ⟨⟨eax, hp⟩, ?_⟩, trivial⟩
    rcases hv.backed with hzero | ⟨eax', hmem, heq⟩
    · rw [hzero] at hs5
      exact absurd hs5 (by decide)
    · exact ⟨eax', hmem, heq ▸ hs5⟩
  | resets hreset hw =>
    refine ⟨hv.suspends hw ?_, trivial⟩
    rcases hv.reset with hzero | hmem
    · rw [hzero] at hreset
      exact absurd rfl hreset
    · exact ⟨v.resetControl, hmem, hreset⟩

/-- After an access the SCI follows the registers, is about to, or is as it was. -/
theorem Does.sci (h : Does found v p x) (hp : PcOk v p) : settling x.next = true ∨
    (x.result v).sciActive = needSci (x.result v) ∨
    settling p = false ∧ (x.result v).sciActive = v.sciActive ∧ needSci (x.result v) = needSci v := by
  cases h with
  | status | enable | press | look => exact .inl rfl
  | raise | lower => exact .inr (.inl hp)
  | level hactive => exact .inr (.inl (hactive.trans hp))
  | poweroff _ _ hw | resets _ hw => exact .inr (.inr ⟨rfl, hw.guarded.active, hw.guarded.needSci⟩)
  | _ => exact .inr (.inr ⟨rfl, rfl, rfl⟩)

end Invariant

section Runs
variable {θ : Type} [DecidableEq θ] {s t : State θ}

structure Inv (s : State θ) : Prop where
  owned : Owned (fun _ _ => True) (fun _ p _ => locked p) s
  regs : RegsOk s.shared
  pcs : ∀ i, PcOk s.shared (s.pc i)
  sci : (∀ i, settling (s.pc i) = false) → s.shared.sciActive = needSci s.shared

omit [DecidableEq θ] in
theorem inv_initial : Inv (State.initial θ) where
  owned := ⟨fun _ => trivial, fun _ _ => ⟨nofun, nofun⟩⟩
  regs := by
    refine ⟨fun i hi => ?_, fun i hi => ?_, BitVec.zero_and, .inl BitVec.zero_and, .inl rfl, rfl, nofun, nofun⟩
    · cases (BitVec.getLsbD_zero (w := 16)).symm.trans hi
    · cases (BitVec.getLsbD_zero (w := 16)).symm.trans hi
  pcs _ := trivial
  sci _ := (by decide : Pm.initial.sciActive = needSci Pm.initial)

/-- One access of one thread, and what it leaves of the others. -/
theorem next_does {a : Act θ Choice Empty} (h : next (program θ) s a = some t) :
    ∃ i c x, a = .run i c ∧ Does c.found s.shared (s.pc i) x ∧ t.pc = Function.update s.pc i x.next ∧ t.shared = x.result s.shared := by
  cases a with
  | env e => exact nomatch e
  | run i c =>
    obtain ⟨x, hcode, hpc, hshared⟩ := next_run h
    exact ⟨i, c, x, rfl, code_does hcode, hpc, hshared⟩

theorem Inv.step (hs : Inv s) {a : Act θ Choice Empty} (h : next (program θ) s a = some t) : Inv t := by
  have howned := hs.owned.step (annotated θ) (next_step h)
  obtain ⟨i, c, x, -, hdoes, hpc, hshared⟩ := next_does h
  obtain ⟨hregs, hnext⟩ := hdoes.regs hs.regs (hs.pcs i)
  refine ⟨howned, hshared ▸ hregs, fun j => ?_, fun hquiet => ?_⟩
  · rw [hpc, hshared]
    by_cases hj : j = i
    · subst hj
      rwa [Function.update_self]
    · rw [Function.update_of_ne hj]
      refine (hs.pcs j).frame hdoes.trace fun hlocked => ?_
      -- the mover does not have the lock
      have hfree : locked (s.pc i) = false :=
        Bool.eq_false_iff.mpr fun hi => hj (hs.owned.unique (m := ()) hlocked hi)
      exact (hdoes.guarded hfree).needSci
  · rw [hpc] at hquiet
    rw [hshared]
    have hi := hquiet i
    rw [Function.update_self] at hi
    rcases hdoes.sci (hs.pcs i) with hsettling | hfollows | ⟨hp, hactive, hneed⟩
    · rw [hi] at hsettling
      cases hsettling
    · exact hfollows
    · rw [hactive, hneed]
      refine hs.sci fun j => ?_
      by_cases hj : j = i
      · subst hj
        exact hp
      · have hq := hquiet j
        rwa [Function.update_of_ne hj] at hq

theorem inductive_inv : (system θ).Inductive Inv where
  init _ h := h ▸ inv_initial
  step _ _ _ hs h := hs.step h

/-- Only the power button event is ever both enabled and there. -/
theorem needSci_eq {v : Pm} (h : RegsOk v) : needSci v = (v.pm1Enable.getLsbD 8 && v.pm1Status.getLsbD 8) := by
  have hstatus (k : Nat) (hk : k ≠ 8) : v.pm1Status.getLsbD k = false := by
    rw [← Bool.not_eq_true]
    exact fun hbit => hk (h.status k hbit)
  have htmr : pm1TmrSts = BitVec.twoPow 16 0 := rfl
  have hgbl : pm1GblSts = BitVec.twoPow 16 5 := rfl
  have hpwr : pm1PwrbtnSts = BitVec.twoPow 16 8 := rfl
  have hpwrEn : pm1PwrbtnEn = BitVec.twoPow 16 8 := rfl
  have hslp : pm1SlpbtnSts = BitVec.twoPow 16 9 := rfl
  have hrtc : pm1RtcSts = BitVec.twoPow 16 10 := rfl
  simp (disch := decide) only [needSci, htmr, hgbl, hpwr, hpwrEn, hslp, hrtc, and_flag_ne_zero, hstatus]
  simp

theorem settling_locked {p : Pc} (h : settling p = true) : locked p = true := by
  cases p with
  | sciUpdate | sciDrive => rfl
  | _ => cases h

/-- While nobody has `pm_lock`, the SCI is asserted exactly when a power button press is there and enabled,
and its asserts and deasserts have taken turns. In all states no other event is ever there or, but for the
global lock, enabled, and the control register holds no bit that is write-only or reserved. The first
suspension stays, and what it is for has been written to the registers. -/
theorem pm_safe (hr : (system θ).Reachable s) :
    (s.owner () = none → s.shared.sciActive = (s.shared.pm1Enable.getLsbD 8 && s.shared.pm1Status.getLsbD 8)) ∧
    Alternates s.shared.trace s.shared.sciActive ∧
    (∀ i, s.shared.pm1Status.getLsbD i = true → i = 8) ∧
    (∀ i, s.shared.pm1Enable.getLsbD i = true → i = 5 ∨ i = 8) ∧
    s.shared.pm1Control &&& 0xe002 = 0 ∧
    (∀ how, s.shared.suspended = some how → Justified s.shared.trace how ∧
      ∀ a t, next (program θ) s a = some t → t.shared.suspended = some how) ∧
    (s.shared.aborted = true → s.shared.suspended ≠ none) := by
  have hs := inductive_inv.reachable hr
  refine ⟨fun hfree => ?_, hs.regs.sci, hs.regs.status, hs.regs.enable, hs.regs.control,
    fun how hhow => ⟨hs.regs.suspended how hhow, fun a t h => ?_⟩, hs.regs.aborted⟩
  · rw [← needSci_eq hs.regs]
    refine hs.sci fun i => ?_
    rw [← Bool.not_eq_true]
    intro hi
    have howner := (hs.owned.owner () i).mpr (settling_locked hi)
    rw [hfree] at howner
    cases howner
  · obtain ⟨i, c, x, -, hdoes, -, hshared⟩ := next_does h
    rw [hshared]
    exact hdoes.suspended hhow

end Runs

/-- The guest enables ACPI and the power button, the button is pressed, and the guest writes S5. -/
def powerDown : List (Act (Fin 2) Choice Empty) :=
  let vcpu : Fin 2 := ⟨0, Nat.zero_lt_two⟩
  let loop : Fin 2 := ⟨1, Nat.one_lt_two⟩
  (.run vcpu (.call (.smi 1 bhyveAcpiEnable)) :: List.replicate 5 (.run vcpu (.go true))) ++
  (.run vcpu (.call (.enable 2 (some 0x120))) :: List.replicate 5 (.run vcpu (.go true))) ++
  (.run loop (.call .button) :: List.replicate 5 (.run loop (.go true))) ++
  [.run vcpu (.call (.control 2 (some 0x3400))), .run vcpu (.go true), .run vcpu (.go true)]

theorem pm_safe_pressed : ∃ s, (system (Fin 2)).Reachable s ∧ s.shared.sciActive = true ∧
    s.shared.suspended = some .poweroff ∧ Justified s.shared.trace .poweroff := by
  have hrun : (System.exec (next (program (Fin 2))) (State.initial (Fin 2)) powerDown).map
      (fun s => (s.shared.sciActive, s.shared.suspended)) = some (true, some .poweroff) := by decide +kernel
  obtain ⟨s, hs, hboth⟩ := Option.map_eq_some_iff.mp hrun
  obtain ⟨hactive, hsusp⟩ := Prod.mk.inj hboth
  have hr : (system (Fin 2)).Reachable s := System.exec_reachable (.init rfl) hs
  obtain ⟨-, -, -, -, -, hhow, -⟩ := pm_safe hr
  exact ⟨s, hr, hactive, hsusp, (hhow .poweroff hsusp).1⟩

/-! ## Runs without overlapping accesses -/

/-- Between two accesses to a register that `pm_lock` does not guard. -/
def busy : Pc → Bool
  | .smiStore _ _ | .controlStore _ _ | .controlTest _ | .resetTest => true
  | _ => false

/-- An SMI command that has yet to see to the power button. -/
def settingButton : Pc → Bool
  | .smiButton _ => true
  | _ => false

/-- The last SMI command. -/
def lastSmi : List Event → Bool
  | [] => false
  | .smi on :: _ => on
  | _ :: trace => lastSmi trace

/-- A write that asks for a suspension. -/
def Asks (e : Event) : SuspendHow → Prop
  | .reset => ∃ val, e = .wroteReset val ∧ val &&& 0x4 ≠ 0
  | .poweroff => ∃ eax, e = .wroteControl eax ∧ eax &&& pm1SlpEn ≠ 0 ∧ (eax.setWidth 16 &&& pm1SlpTyp) >>> 10 = 5

/-- The test behind a write is still to come. -/
def Pending (v : Pm) : Pc → Event → Prop
  | .controlTest eax, e => e = .wroteControl eax
  | .resetTest, e => e = .wroteReset v.resetControl
  | _, _ => False

/-- What a thread between two accesses relies on. -/
def Fresh (v : Pm) : Pc → Prop
  | .smiStore _ control | .controlStore _ control => control = v.pm1Control
  | .controlTest eax => v.pm1Control &&& pm1SlpTyp = eax.setWidth 16 &&& pm1SlpTyp
  | .smiButton on => lastSmi v.trace = on
  | _ => True

section Alone
variable {found : Bool} {p : Pc} {v w : Pm} {x : Instr Unit Pc Pm} {how : SuspendHow} {e : Event}

theorem Pending.busy (h : Pending v p e) : busy p = true := by
  cases p with
  | controlTest | resetTest => rfl
  | _ => cases h

theorem Suspends.control (h : Suspends v how w) : w.pm1Control = v.pm1Control := by
  cases h with
  | _ => rfl

theorem Suspends.resetControl (h : Suspends v how w) : w.resetControl = v.resetControl := by
  cases h with
  | _ => rfl

theorem Does.control (h : Does found v p x) (hp : AcpiPm.busy p = false) : (x.result v).pm1Control = v.pm1Control := by
  cases h with
  | smiStore | store | poweroff | resets => cases hp
  | _ => rfl

theorem Does.resetControl (h : Does found v p x) :
    (x.result v).resetControl = v.resetControl ∨ p = .out ∧ AcpiPm.busy x.next = true := by
  cases h with
  | reset => exact .inr ⟨rfl, rfl⟩
  | poweroff _ _ hw | resets _ hw => exact .inl hw.resetControl
  | _ => exact .inl rfl

/-- SMI commands are given with the lock held. -/
theorem Does.lastSmi (h : Does found v p x) :
    lastSmi (x.result v).trace = lastSmi v.trace ∨ locked p = true ∧ settingButton x.next = true := by
  cases h with
  | smiStore => exact .inr ⟨rfl, rfl⟩
  | poweroff _ _ hw | resets _ hw =>
    left
    rw [Instr.result, hw.trace]
  | _ => exact .inl rfl

theorem Does.fresh (h : Does found v p x) (hp : Fresh v p) : Fresh (x.result v) x.next := by
  cases h with
  | load | smi | smiStore => rfl
  | store eax control =>
    simp only [Instr.next]
    split
    · exact controlValue_typ control eax
    · trivial
  | _ => trivial

theorem Does.sciEn (h : Does found v p x) (hp : Fresh v p) (hen : v.pm1Control.getLsbD 0 = AcpiPm.lastSmi v.trace) :
    (x.result v).pm1Control.getLsbD 0 = AcpiPm.lastSmi (x.result v).trace := by
  cases h with
  | smiStore on control => exact smiValue_sciEn on control
  | store eax control =>
    obtain rfl : control = v.pm1Control := hp
    exact (controlValue_sciEn v.pm1Control eax).trans hen
  | poweroff _ _ hw | resets _ hw =>
    rw [Instr.result, hw.control, hw.trace]
    exact hen
  | _ => exact hen

theorem Does.button (h : Does found v p x) (hp : Fresh v p) (hfound : p = .smiButton true → found = true) :
    settingButton x.next = true ∨ (x.result v).powerButton = AcpiPm.lastSmi (x.result v).trace ∨
      settingButton p = false ∧ (x.result v).powerButton = v.powerButton ∧
        AcpiPm.lastSmi (x.result v).trace = AcpiPm.lastSmi v.trace := by
  cases h with
  | smiStore => exact .inl rfl
  | add hnone => exact .inr (.inl ((hfound rfl).trans (Eq.symm hp)))
  | delete hsome => exact .inr (.inl (Eq.symm hp))
  | settled hon => exact .inr (.inl (hon.trans (Eq.symm hp)))
  | poweroff _ _ hw | resets _ hw =>
    refine .inr (.inr ⟨rfl, hw.guarded.button, ?_⟩)
    rw [Instr.result, hw.trace]
  | _ => exact .inr (.inr ⟨rfl, rfl, rfl⟩)

/-- `SIGTERM` is ignored while there is a power button event, and done again what was done before after it. -/
structure Disposed (v : Pm) : Prop where
  sigterm : v.sigterm = if v.powerButton then .ign else .dfl
  old : v.powerButton = true → v.oldPowerHandler = .dfl

theorem Does.disposed (h : Does found v p x) (hv : Disposed v) (hfound : p = .smiButton true → found = true) :
    Disposed (x.result v) := by
  cases h with
  | add hnone =>
    obtain rfl := hfound rfl
    have hsigterm := hv.sigterm
    rw [hnone] at hsigterm
    exact ⟨rfl, fun _ => hsigterm⟩
  | delete hsome => exact ⟨hv.old hsome, nofun⟩
  | poweroff _ _ hw | resets _ hw =>
    constructor
    · rw [Instr.result, hw.guarded.sigterm, hw.guarded.button]
      exact hv.sigterm
    · rw [Instr.result, hw.guarded.old, hw.guarded.button]
      exact hv.old
  | _ => exact ⟨hv.sigterm, hv.old⟩

/-- A suspension has been asked for by the write the thread comes from. -/
theorem Does.asked (h : Does found v p x) (hregs : RegsOk v) (hok : PcOk v p) (hp : Fresh v p)
    (hv : ∀ how, v.suspended = some how → ∃ e ∈ v.trace, Asks e how) :
    (x.result v).suspended = some how → ∃ e ∈ (x.result v).trace, Asks e how := by
  intro hhow
  cases hsusp : v.suspended with
  | some how' =>
    have hsame := h.suspended hsusp
    rw [hhow] at hsame
    obtain ⟨e, hmem, hasks⟩ := hv how' hsusp
    obtain rfl := Option.some.inj hsame
    exact ⟨e, h.trace.mem hmem, hasks⟩
  | none =>
    cases h with
    | poweroff eax hs5 hw =>
      cases hw with
      | first hnone =>
        obtain rfl := Option.some.inj hhow
        have htyp : v.pm1Control &&& pm1SlpTyp = eax.setWidth 16 &&& pm1SlpTyp := hp
        exact ⟨.wroteControl eax, hok.1, eax, rfl, hok.2, htyp ▸ hs5⟩
      | again hsome | abort hsome => exact absurd hsusp hsome
    | resets hreset hw =>
      cases hw with
      | first hnone =>
        obtain rfl := Option.some.inj hhow
        rcases hregs.reset with hzero | hmem
        · rw [hzero] at hreset
          exact absurd rfl hreset
        · exact ⟨.wroteReset v.resetControl, hmem, v.resetControl, rfl, hreset⟩
      | again hsome | abort hsome => exact absurd hsusp hsome
    | _ =>
      have hhow' : v.suspended = some how := hhow
      rw [hsusp] at hhow'
      cases hhow'

/-- The test suspends what its write asks for. -/
theorem Does.tested (h : Does found v p x) (hp : Fresh v p) (hpend : Pending v p e) (hasks : Asks e how) :
    (x.result v).suspended ≠ none := by
  have hsome {w : Pm} {how' : SuspendHow} (hw : Suspends v how' w) : w.suspended ≠ none := by
    cases hw with
    | first hnone => exact nofun
    | again hsome | abort hsome => exact hsome
  cases h with
  | poweroff _ _ hw | resets _ hw => exact hsome hw
  | noPoweroff eax hs5 =>
    obtain rfl : e = .wroteControl eax := hpend
    have htyp : v.pm1Control &&& pm1SlpTyp = eax.setWidth 16 &&& pm1SlpTyp := hp
    cases how with
    | reset =>
      obtain ⟨val, heq, -⟩ := hasks
      cases heq
    | poweroff =>
      obtain ⟨eax', heq, -, htyp'⟩ := hasks
      cases heq
      exact absurd (htyp ▸ htyp') hs5
  | noReset hreset =>
    obtain rfl : e = .wroteReset v.resetControl := hpend
    cases how with
    | reset =>
      obtain ⟨val, heq, hval⟩ := hasks
      cases heq
      exact absurd hreset hval
    | poweroff =>
      obtain ⟨eax', heq, -⟩ := hasks
      cases heq
  | _ => cases hpend

/-- Behind a write that asks for something there is a test. -/
theorem Does.asks (h : Does found v p x) (hmem : e ∈ (x.result v).trace) (hasks : Asks e how) :
    e ∈ v.trace ∨ Pending (x.result v) x.next e := by
  have hnew {e' : Event} (hmem : e ∈ e' :: v.trace) (hno : ∀ how, ¬ Asks e' how) : e ∈ v.trace := by
    rcases List.mem_cons.mp hmem with rfl | hold
    · exact absurd hasks (hno how)
    · exact hold
  have hquiet {e' : Event} (hreset : ∀ val, e' ≠ .wroteReset val) (hcontrol : ∀ eax, e' ≠ .wroteControl eax) (how : SuspendHow) :
      ¬ Asks e' how := by
    cases how with
    | reset => exact fun ⟨val, heq, _⟩ => hreset val heq
    | poweroff => exact fun ⟨eax, heq, _⟩ => hcontrol eax heq
  cases h with
  | read | readHeld | raise | lower | smiStore => exact .inl (hnew hmem (hquiet (fun _ => nofun) fun _ => nofun))
  | reset val =>
    rcases List.mem_cons.mp hmem with rfl | hold
    · exact .inr rfl
    · exact .inl hold
  | store eax control =>
    rcases List.mem_cons.mp hmem with rfl | hold
    · right
      cases how with
      | reset =>
        obtain ⟨val, heq, -⟩ := hasks
        cases heq
      | poweroff =>
        obtain ⟨eax', heq, hen, -⟩ := hasks
        cases heq
        simp only [Instr.next, if_pos hen]
        rfl
    · exact .inl hold
  | poweroff _ _ hw | resets _ hw =>
    rw [Instr.result, hw.trace] at hmem
    exact .inl hmem
  | _ => exact .inl hmem

end Alone

section Solo
variable {θ : Type} [DecidableEq θ] {s t : State θ}

def Solo (s : State θ) : Prop := ∀ i j, busy (s.pc i) = true → busy (s.pc j) = true → i = j

/-- No access overlaps another, and `mevent_add` succeeds. -/
def Careful (s : State θ) (a : Act θ Choice Empty) : Prop :=
  (∀ t ∈ next (program θ) s a, Solo t) ∧ ∀ i, a = .run i (.go false) → s.pc i ≠ .smiButton true

instance [Fintype θ] (s : State θ) : Decidable (Solo s) := by
  unfold Solo
  infer_instance

instance [Fintype θ] (s : State θ) (a : Act θ Choice Empty) : Decidable (Careful s a) := by
  unfold Careful
  infer_instance

structure Mode (s : State θ) : Prop where
  inv : Inv s
  solo : Solo s
  fresh : ∀ i, Fresh s.shared (s.pc i)
  sciEn : s.shared.pm1Control.getLsbD 0 = lastSmi s.shared.trace
  button : (∀ i, settingButton (s.pc i) = false) → s.shared.powerButton = lastSmi s.shared.trace
  disposed : Disposed s.shared
  asked : ∀ how, s.shared.suspended = some how → ∃ e ∈ s.shared.trace, Asks e how
  answered : s.shared.suspended = none →
    ∀ e ∈ s.shared.trace, ∀ how, Asks e how → ∃ i, Pending s.shared (s.pc i) e

omit [DecidableEq θ] in
theorem mode_initial : Mode (State.initial θ) where
  inv := inv_initial
  solo _ _ hi := nomatch hi
  fresh _ := trivial
  sciEn := BitVec.getLsbD_zero
  button _ := rfl
  disposed := ⟨rfl, nofun⟩
  asked := nofun
  answered _ _ hmem := nomatch hmem

theorem Mode.step (hs : Mode s) {a : Act θ Choice Empty} (hok : Careful s a) (h : next (program θ) s a = some t) :
    Mode t := by
  have hinv := hs.inv.step h
  have hsolo := hok.1 t h
  obtain ⟨i, c, x, rfl, hdoes, hpc, hshared⟩ := next_does h
  have hfound : s.pc i = .smiButton true → c.found = true := by
    intro hp
    cases c with
    | call access => rfl
    | go found =>
      cases found with
      | true => rfl
      | false => exact absurd hp (hok.2 i rfl)
  have hmoved : t.pc i = x.next := by rw [hpc, Function.update_self]
  have hothers {j : θ} (hj : j ≠ i) : t.pc j = s.pc j := by rw [hpc, Function.update_of_ne hj]
  refine ⟨hinv, hsolo, fun j => ?_, ?_, fun hquiet => ?_, ?_, fun how => ?_, fun hnone e hmem how hasks => ?_⟩
  · rw [hshared]
    by_cases hj : j = i
    · subst hj
      rw [hmoved]
      exact hdoes.fresh (hs.fresh j)
    · rw [hothers hj]
      -- the others have read the control register only where the mover does not write it
      have hcontrol (hbusy : busy (s.pc j) = true) : (x.result s.shared).pm1Control = s.shared.pm1Control :=
        hdoes.control (Bool.eq_false_iff.mpr fun hi => hj (hs.solo j i hbusy hi))
      have hfresh := hs.fresh j
      cases hp : s.pc j with
      | smiStore on control | controlStore eax control | controlTest eax =>
        rw [hp] at hfresh hcontrol
        simp only [Fresh, hcontrol rfl]
        exact hfresh
      | smiButton on =>
        rw [hp] at hfresh
        rcases hdoes.lastSmi with hsame | ⟨hlocked, -⟩
        · exact hsame.trans hfresh
        · have hlocked' : locked (s.pc j) = true := by rw [hp]; rfl
          exact absurd (hs.inv.owned.unique (m := ()) hlocked' hlocked) hj
      | _ => trivial
  · rw [hshared]
    exact hdoes.sciEn (hs.fresh i) hs.sciEn
  · rw [hshared]
    rcases hdoes.button (hs.fresh i) hfound with hsetting | hdone | ⟨hp, hbutton, hlast⟩
    · rw [← hmoved, hquiet i] at hsetting
      cases hsetting
    · exact hdone
    · rw [hbutton, hlast]
      refine hs.button fun j => ?_
      by_cases hj : j = i
      · exact hj ▸ hp
      · exact hothers hj ▸ hquiet j
  · rw [hshared]
    exact hdoes.disposed hs.disposed hfound
  · rw [hshared]
    exact hdoes.asked hs.inv.regs (hs.inv.pcs i) (hs.fresh i) hs.asked
  · rw [hshared] at hnone hmem
    rcases hdoes.asks hmem hasks with hold | hpend
    · have hnone' : s.shared.suspended = none := by
        cases hsusp : s.shared.suspended with
        | none => rfl
        | some how' =>
          rw [hdoes.suspended hsusp] at hnone
          cases hnone
      obtain ⟨j, hj⟩ := hs.answered hnone' e hold how hasks
      by_cases hji : j = i
      · subst hji
        exact absurd hnone (hdoes.tested (hs.fresh j) hj hasks)
      · refine ⟨j, ?_⟩
        rw [hothers hji, hshared]
        rcases hdoes.resetControl with hsame | ⟨-, hbusy⟩
        · cases hp : s.pc j with
          | controlTest eax =>
            rw [hp] at hj
            exact hj
          | resetTest =>
            rw [hp] at hj
            exact (hj : e = _).trans (congrArg Event.wroteReset hsame.symm)
          | _ => exact absurd (hp ▸ hj) nofun
        · -- two tests would be to come
          have hj' : busy (t.pc j) = true := hothers hji ▸ hj.busy
          exact absurd (hsolo j i hj' (hmoved ▸ hbusy)) hji
    · refine ⟨i, ?_⟩
      rw [hmoved, hshared]
      exact hpend

theorem inductive_mode : ((system θ).restrict Careful).Inductive Mode where
  init _ h := h ▸ mode_initial
  step _ _ _ hs h := hs.step h.1 h.2

/-- In a run whose accesses do not overlap, once all handlers have returned: `SCI_EN`, the event for the power
button and what is done for `SIGTERM` are as the last SMI command says, and the machine is suspended exactly
when a write has asked for it, in the way one write has asked for. -/
theorem acpi_mode (hr : ((system θ).restrict Careful).Reachable s) (hrest : ∀ i, s.pc i = .out) :
    s.shared.pm1Control.getLsbD 0 = lastSmi s.shared.trace ∧
    s.shared.powerButton = lastSmi s.shared.trace ∧
    s.shared.sigterm = (if lastSmi s.shared.trace then .ign else .dfl) ∧
    (∀ how, s.shared.suspended = some how → ∃ e ∈ s.shared.trace, Asks e how) ∧
    (s.shared.suspended = none → ∀ e ∈ s.shared.trace, ∀ how, ¬ Asks e how) := by
  have hs := inductive_mode.reachable hr
  have hbutton := hs.button fun i => by rw [hrest i]; rfl
  refine ⟨hs.sciEn, hbutton, hbutton ▸ hs.disposed.sigterm, hs.asked, fun hnone e hmem how hasks => ?_⟩
  obtain ⟨i, hpend⟩ := hs.answered hnone e hmem how hasks
  rw [hrest i] at hpend
  exact hpend

end Solo

theorem acpi_mode_powerDown : ∃ s, ((system (Fin 2)).restrict Careful).Reachable s ∧
    s.shared.suspended = some .poweroff ∧ s.shared.powerButton = lastSmi s.shared.trace ∧
    ∃ e ∈ s.shared.trace, Asks e .poweroff := by
  have hrun : (System.exec (System.guarded Careful (next (program (Fin 2)))) (State.initial (Fin 2)) powerDown).map
      (fun s => (s.shared.suspended, s.pc 0, s.pc 1)) = some (some .poweroff, .out, .out) := by decide +kernel
  obtain ⟨s, hs, hall⟩ := Option.map_eq_some_iff.mp hrun
  obtain ⟨hsusp, hpcs⟩ := Prod.mk.inj hall
  obtain ⟨hzero, hone⟩ := Prod.mk.inj hpcs
  have hr : ((system (Fin 2)).restrict Careful).Reachable s := System.exec_reachable_guarded (.init rfl) hs
  have hrest : ∀ i, s.pc i = .out := by
    intro i
    match i with
    | 0 => exact hzero
    | 1 => exact hone
  obtain ⟨-, hbutton, -, hasked, -⟩ := acpi_mode hr hrest
  exact ⟨s, hr, hsusp, hbutton, hasked .poweroff hsusp⟩

/-- A write to the control register that overlaps the SMI command undoes it. -/
example : (System.exec (next (program (Fin 2))) (State.initial (Fin 2))
    ((.run 1 (.call (.control 2 (some 0)))) :: (.run 0 (.call (.smi 1 bhyveAcpiEnable)) ::
      List.replicate 5 (.run 0 (.go true))) ++ [.run 1 (.go true)])).map
    (fun s => (s.shared.pm1Control.getLsbD 0, lastSmi s.shared.trace)) = some (false, true) := by decide +kernel

end Xhyve.Emul.AcpiPm
