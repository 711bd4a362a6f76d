import Xhyve.Vmm.VmxInject

/-!
# Merging the events of an exit and of its handler

An exit may leave an event whose delivery it cut short, and its handler may raise an exception. The
next entry delivers one event: `vm_entry_intinfo` merges the two the way the processor would, had the
second come up while it delivered the first.

The reference beside the code keeps the two events as the processor's manual knows them, and says of
each entry which of them it delivers. The interrupt shadow and the restart of the instruction, which
`vm_inject_exception` also sees to, are left out.
-/

namespace Xhyve.Vmm.EventMerge

open Xhyve.Vmm.VmxInject

/-- What a vCPU keeps of its events. -/
structure Vcpu where
  exitintinfo : BitVec 64
  exceptionPending : Bool
  excVector : Int
  excErrcodeValid : Bool
  excErrcode : BitVec 32
deriving DecidableEq, Repr

inductive Errno
  | ok | einval | ebusy
deriving DecidableEq, Repr

/-- The part of `vcpu_init` for these fields; the last three stay as they were. -/
def Vcpu.init (v : Vcpu) : Vcpu := { v with exitintinfo := 0, exceptionPending := false }

def vmExitIntinfo (v : Vcpu) (info : BitVec 64) : Vcpu × Errno :=
  if info &&& intinfoValid ≠ 0 then
    let type := info &&& intinfoType
    let vector := (info &&& 0xff).toNat
    if type = intinfoNmi ∧ vector ≠ idtNmi then (v, .einval)
    else if type = intinfoHwexception ∧ vector ≥ 32 then (v, .einval)
    else if info &&& intinfoRsvd ≠ 0 then (v, .einval)
    else ({ v with exitintinfo := info }, .ok)
  else ({ v with exitintinfo := 0 }, .ok)

def vmInjectException (v : Vcpu) (vector : Int) (errcodeValid : Bool) (errcode : BitVec 32) :
    Vcpu × Errno :=
  if vector < 0 ∨ vector ≥ 32 then (v, .einval)
  else if vector = idtDf then (v, .einval)
  else if v.exceptionPending then (v, .ebusy)
  else
    ({ v with
        exceptionPending := true
        excVector := vector
        excErrcode := errcode
        excErrcodeValid := errcodeValid }, .ok)

def vcpuExceptionIntinfo (v : Vcpu) : BitVec 64 :=
  if v.exceptionPending then
    let info := BitVec.ofInt 64 v.excVector &&& 0xff ||| (intinfoValid ||| intinfoHwexception)
    if v.excErrcodeValid then info ||| intinfoDelErrcode ||| (v.excErrcode.setWidth 64 <<< 32)
    else info
  else 0

/-- The event, where there is one, and whether the machine is suspended by a triple fault. -/
def vmEntryIntinfo (v : Vcpu) : Vcpu × Option (BitVec 64) × Bool :=
  let info1 := v.exitintinfo
  let info2 := vcpuExceptionIntinfo v
  let v := { v with exitintinfo := 0, exceptionPending := false }
  if info1 &&& intinfoValid ≠ 0 ∧ info2 &&& intinfoValid ≠ 0 then
    match nestedFault info1 info2 with
    | some info => (v, some info, false)
    | none => (v, none, true)
  else if info1 &&& intinfoValid ≠ 0 then (v, some info1, false)
  else if info2 &&& intinfoValid ≠ 0 then (v, some info2, false)
  else (v, none, false)

inductive Call
  | exitIntinfo (info : BitVec 64)
  | injectException (vector : Int) (errcodeValid : Bool) (errcode : BitVec 32)
  | entryIntinfo
deriving DecidableEq, Repr

/-- What a call shows of itself. -/
inductive Reply
  | status (error : Errno)
  | entry (retinfo : Option (BitVec 64)) (tripleFault : Bool)
deriving DecidableEq, Repr

def Vcpu.step (v : Vcpu) : Call → Vcpu × Reply
  | .exitIntinfo info =>
    let r := vmExitIntinfo v info
    (r.1, .status r.2)
  | .injectException vector errcodeValid errcode =>
    let r := vmInjectException v vector errcodeValid errcode
    (r.1, .status r.2)
  | .entryIntinfo =>
    let r := vmEntryIntinfo v
    (r.1, .entry r.2.1 r.2.2)

def Vcpu.run : Vcpu → List Call → Vcpu × List Reply
  | v, [] => (v, [])
  | v, c :: cs =>
    let r := v.step c
    let rest := Vcpu.run r.1 cs
    (rest.1, r.2 :: rest.2)

/-! ## The reference -/

inductive EventType
  | external | nmi | hardware | software | other
deriving DecidableEq, Repr

structure Event where
  type : EventType
  vector : Nat
  errcode : Option (BitVec 32)
deriving DecidableEq, Repr

def EventType.ofBits (type : BitVec 64) : EventType :=
  if type = intinfoHwintr then .external
  else if type = intinfoNmi then .nmi
  else if type = intinfoHwexception then .hardware
  else if type = intinfoSwintr then .software
  else .other

/-- The event of a valid word. -/
def Event.ofInfo (info : BitVec 64) : Event where
  type := .ofBits (info &&& intinfoType)
  vector := (info &&& 0xff).toNat
  errcode := if info &&& intinfoDelErrcode ≠ 0 then some ((info >>> 32).setWidth 32) else none

/-- An exception the processor raises. -/
def exceptionOf (vector : Nat) (errcode : Option (BitVec 32)) : Event := ⟨.hardware, vector, errcode⟩

def doubleFault : Event := exceptionOf idtDf (some 0)

/-- The low half of the word of an exception. -/
def lowInfo (vector : Nat) (hasErrcode : Bool) : BitVec 64 :=
  BitVec.ofNat 64 vector ||| (intinfoValid ||| intinfoHwexception) |||
    (if hasErrcode then intinfoDelErrcode else 0)

/-- The word of an exception. -/
def Event.info (e : Event) : BitVec 64 :=
  lowInfo e.vector e.errcode.isSome ||| ((e.errcode.getD 0).setWidth 64 <<< 32)

/-- Interrupts and NMIs are no exceptions. -/
def Event.isException (e : Event) : Bool :=
  e.type ≠ .external ∧ e.type ≠ .nmi ∧ e.type ≠ .software

/-- #DE, #TS, #NP, #SS and #GP. -/
def Event.contributory (e : Event) : Bool := e.isException ∧ e.vector ∈ [0, 10, 11, 12, 13]

/-- #PF, and #VE. -/
def Event.pageFault (e : Event) : Bool := e.isException ∧ e.vector ∈ [14, 20]

def Event.isDoubleFault (e : Event) : Bool := e.type = .hardware ∧ e.vector = idtDf

/-- What the processor does about an event that comes up as it delivers another. -/
inductive Merge
  | shutdown | doubleFault | second
deriving DecidableEq, Repr

def merge (first second : Event) : Merge :=
  if first.isDoubleFault then .shutdown
  else if first.contributory ∧ second.contributory ∨
      first.pageFault ∧ (second.contributory ∨ second.pageFault) then .doubleFault
  else .second

/-- The word of the exit's event, and the exception of its handler. -/
structure Pending where
  exit : Option (BitVec 64)
  exception : Option Event
deriving DecidableEq, Repr

/-- What an entry delivers, and out of what. -/
inductive Delivery
  | nothing
  | exit (info : BitVec 64)
  | exception (x : Event)
  | merged (how : Merge) (first : BitVec 64) (x : Event)
deriving DecidableEq, Repr

def Pending.deliver (p : Pending) : Delivery :=
  match p.exit, p.exception with
  | none, none => .nothing
  | some info, none => .exit info
  | none, some x => .exception x
  | some info, some x => .merged (merge (.ofInfo info) x) info x

def Delivery.reply : Delivery → Reply
  | .nothing => .entry none false
  | .exit info => .entry (some info) false
  | .exception x => .entry (some x.info) false
  | .merged .shutdown _ _ => .entry none true
  | .merged .doubleFault _ _ => .entry (some doubleFault.info) false
  | .merged .second _ x => .entry (some x.info) false

/-- The exception an entry uses up. -/
def Delivery.taken : Delivery → Option Event
  | .nothing | .exit _ => none
  | .exception x | .merged _ _ x => some x

/-- What came of a call. -/
inductive Outcome
  | refused (error : Errno)
  | exitSet
  | accepted (x : Event)
  | delivered (d : Delivery)
deriving DecidableEq, Repr

def Outcome.reply : Outcome → Reply
  | .refused error => .status error
  | .exitSet | .accepted _ => .status .ok
  | .delivered d => d.reply

def Outcome.accepts : Outcome → Option Event
  | .accepted x => some x
  | _ => none

def Outcome.takes : Outcome → Option Event
  | .delivered d => d.taken
  | _ => none

/-- A word the setter does not take. -/
def malformed (info : BitVec 64) : Prop :=
  info &&& intinfoValid ≠ 0 ∧
    ((Event.ofInfo info).type = .nmi ∧ (Event.ofInfo info).vector ≠ idtNmi ∨
      (Event.ofInfo info).type = .hardware ∧ 32 ≤ (Event.ofInfo info).vector ∨
      info &&& intinfoRsvd ≠ 0)

instance (info : BitVec 64) : Decidable (malformed info) := inferInstanceAs (Decidable (_ ∧ _))

/-- The vectors a handler may raise: any exception but a double fault. -/
def raisable (vector : Int) : Prop := 0 ≤ vector ∧ vector < 32 ∧ vector ≠ idtDf

instance (vector : Int) : Decidable (raisable vector) := inferInstanceAs (Decidable (_ ∧ _))

/-- A refused call leaves the events as they are. -/
def Pending.step (p : Pending) : Call → Pending × Outcome
  | .exitIntinfo info =>
    if malformed info then (p, .refused .einval)
    else ({ p with exit := if info &&& intinfoValid ≠ 0 then some info else none }, .exitSet)
  | .injectException vector errcodeValid errcode =>
    if ¬ raisable vector then (p, .refused .einval)
    else if p.exception.isSome then (p, .refused .ebusy)
    else
      let x := exceptionOf vector.toNat (if errcodeValid then some errcode else none)
      ({ p with exception := some x }, .accepted x)
  | .entryIntinfo => (⟨none, none⟩, .delivered p.deliver)

def Pending.run : Pending → List Call → Pending × List Outcome
  | p, [] => (p, [])
  | p, c :: cs =>
    let r := p.step c
    let rest := Pending.run r.1 cs
    (rest.1, r.2 :: rest.2)

/-! ## Words and events -/

section Words
variable {info : BitVec 64}

theorem ofBits_nmi {type : BitVec 64} : EventType.ofBits type = .nmi ↔ type = intinfoNmi := by
  unfold EventType.ofBits
  split_ifs with h1 h2
  · subst h1
    decide
  · simp [h2]
  all_goals simp_all

theorem ofBits_hardware {type : BitVec 64} :
    EventType.ofBits type = .hardware ↔ type = intinfoHwexception := by
  unfold EventType.ofBits
  split_ifs with h1 h2 h3
  · subst h1
    decide
  · subst h2
    decide
  · simp [h3]
  all_goals simp_all

theorem isException_ofInfo : (Event.ofInfo info).isException = true ↔
    ¬ (info &&& intinfoType = intinfoHwintr ∨ info &&& intinfoType = intinfoSwintr ∨
      info &&& intinfoType = intinfoNmi) := by
  simp only [Event.isException, Event.ofInfo, decide_eq_true_eq]
  unfold EventType.ofBits
  split_ifs with h1 h2 h3 h4
  · simp [h1]
  · simp [h2]
  · rw [h3]
    decide
  · simp [h4]
  · simp [h1, h2, h4]

/-- The classes of the code are those of the manual. -/
theorem exceptionClass_ofInfo :
    (exceptionClass info = .contributory ↔ (Event.ofInfo info).contributory = true) ∧
      (exceptionClass info = .pagefault ↔ (Event.ofInfo info).pageFault = true) := by
  unfold Event.contributory Event.pageFault exceptionClass
  simp only [decide_eq_true_eq, isException_ofInfo]
  have hvector : (Event.ofInfo info).vector = (info &&& 0xff).toNat := rfl
  rw [hvector]
  generalize (info &&& 0xff).toNat = vector
  split_ifs with htype hpf hcontrib
  · simp [htype]
  · simp only [htype, not_false_eq_true, List.mem_cons, List.not_mem_nil, or_false, true_and]
    constructor
    · refine iff_of_false (by decide) ?_
      omega
    · exact iff_of_true trivial hpf
  · simp only [htype, not_false_eq_true, List.mem_cons, List.not_mem_nil, or_false, true_and]
    constructor
    · exact iff_of_true trivial hcontrib
    · exact iff_of_false (by decide) hpf
  · simp only [htype, not_false_eq_true, List.mem_cons, List.not_mem_nil, or_false, true_and]
    constructor
    · exact iff_of_false (by decide) hcontrib
    · exact iff_of_false (by decide) hpf

theorem isDoubleFault_ofInfo : (Event.ofInfo info).isDoubleFault = true ↔
    info &&& intinfoType = intinfoHwexception ∧ (info &&& 0xff).toNat = idtDf := by
  simp only [Event.isDoubleFault, decide_eq_true_eq]
  exact and_congr ofBits_hardware Iff.rfl

theorem malformed_iff : malformed info ↔ info &&& intinfoValid ≠ 0 ∧
    (info &&& intinfoType = intinfoNmi ∧ (info &&& 0xff).toNat ≠ idtNmi ∨
      info &&& intinfoType = intinfoHwexception ∧ (info &&& 0xff).toNat ≥ 32 ∨
      info &&& intinfoRsvd ≠ 0) := by
  unfold malformed
  refine and_congr Iff.rfl (or_congr (and_congr ofBits_nmi Iff.rfl) (or_congr ?_ Iff.rfl))
  exact and_congr ofBits_hardware Iff.rfl

/-- `nested_fault` does what the manual says of the two events. -/
theorem nestedFault_merge (info1 info2 : BitVec 64) :
    nestedFault info1 info2 =
      match merge (.ofInfo info1) (.ofInfo info2) with
      | .shutdown => none
      | .doubleFault => some doubleFault.info
      | .second => some info2 := by
  obtain ⟨hcontrib1, hpf1⟩ := @exceptionClass_ofInfo info1
  obtain ⟨hcontrib2, hpf2⟩ := @exceptionClass_ofInfo info2
  have hbenign : exceptionClass info2 ≠ .benign ↔
      (Event.ofInfo info2).contributory = true ∨ (Event.ofInfo info2).pageFault = true := by
    rw [← hcontrib2, ← hpf2]
    cases exceptionClass info2
    all_goals decide
  have hdouble := or_congr (and_congr hcontrib1 hcontrib2) (and_congr hpf1 hbenign)
  unfold nestedFault merge
  simp only
  by_cases hdf : (Event.ofInfo info1).isDoubleFault = true
  · rw [if_pos (isDoubleFault_ofInfo.mp hdf), if_pos hdf]
  · rw [if_neg (fun h => hdf (isDoubleFault_ofInfo.mpr h)), if_neg hdf]
    by_cases hmerge : (Event.ofInfo info1).contributory = true ∧
        (Event.ofInfo info2).contributory = true ∨
        (Event.ofInfo info1).pageFault = true ∧
          ((Event.ofInfo info2).contributory = true ∨ (Event.ofInfo info2).pageFault = true)
    · rw [if_pos (hdouble.mpr hmerge), if_pos hmerge]
      rfl
    · rw [if_neg (fun h => hmerge (hdouble.mp h)), if_neg hmerge]

end Words

/-! ## The word of an exception -/

theorem high_and {m : BitVec 64} (hm : m.toNat < 2 ^ 32) (e : BitVec 32) :
    e.setWidth 64 <<< 32 &&& m = 0 := by
  apply BitVec.eq_of_getLsbD_eq
  intro i hi
  rw [BitVec.getLsbD_and, BitVec.getLsbD_shiftLeft]
  by_cases hlow : i < 32
  · simp [hlow]
  · have hbit : m.getLsbD i = false := by
      rw [BitVec.getLsbD, Nat.testBit_lt_two_pow]
      exact hm.trans_le (Nat.pow_le_pow_right (by decide) (not_lt.mp hlow))
    rw [hbit, Bool.and_false]
    simp

theorem info_and {m : BitVec 64} (hm : m.toNat < 2 ^ 32) (x : Event) :
    x.info &&& m = lowInfo x.vector x.errcode.isSome &&& m := by
  rw [Event.info, BitVec.and_or_distrib_right, high_and hm]
  exact BitVec.or_zero

theorem lowInfo_fields : ∀ (vector : Fin 32) (hasErrcode : Bool),
    lowInfo vector hasErrcode &&& intinfoValid ≠ 0 ∧
      lowInfo vector hasErrcode &&& intinfoType = intinfoHwexception ∧
      (lowInfo vector hasErrcode &&& 0xff).toNat = vector ∧
      (lowInfo vector hasErrcode &&& intinfoDelErrcode ≠ 0 ↔ hasErrcode = true) ∧
      lowInfo vector hasErrcode >>> 32 = 0 := by
  decide +kernel

theorem high_shift (e : BitVec 32) : ((e.setWidth 64 <<< 32) >>> 32).setWidth 32 = e := by
  apply BitVec.eq_of_toNat_eq
  have he := e.isLt
  simp only [BitVec.toNat_setWidth, BitVec.toNat_ushiftRight, BitVec.toNat_shiftLeft,
    Nat.shiftLeft_eq, Nat.shiftRight_eq_div_pow]
  omega

/-- The word of an exception stands for it. -/
theorem ofInfo_exceptionOf {vector : Nat} (hvector : vector < 32) (errcode : Option (BitVec 32)) :
    (exceptionOf vector errcode).info &&& intinfoValid ≠ 0 ∧
      Event.ofInfo (exceptionOf vector errcode).info = exceptionOf vector errcode := by
  obtain ⟨hvalid, htype, hvec, herr, hlow⟩ := lowInfo_fields ⟨vector, hvector⟩ errcode.isSome
  simp only at hvalid htype hvec herr hlow
  have hand : ∀ m : BitVec 64, m.toNat < 2 ^ 32 →
      (exceptionOf vector errcode).info &&& m = lowInfo vector errcode.isSome &&& m :=
    fun m hm => info_and hm (exceptionOf vector errcode)
  have hhigh : ((exceptionOf vector errcode).info >>> 32).setWidth 32 = errcode.getD 0 := by
    show ((lowInfo vector errcode.isSome ||| (errcode.getD 0).setWidth 64 <<< 32) >>> 32).setWidth 32 = _
    rw [BitVec.ushiftRight_or_distrib, hlow, BitVec.setWidth_or, high_shift]
    simp
  constructor
  · rw [hand _ (by decide)]
    exact hvalid
  · unfold Event.ofInfo
    rw [hand _ (by decide), hand _ (by decide), hand _ (by decide), hhigh, htype, hvec]
    cases errcode with
    | none =>
      rw [if_neg (fun h => absurd (herr.mp h) (by decide))]
      rfl
    | some e =>
      rw [if_pos (herr.mpr rfl)]
      rfl

/-- `vcpu_exception_intinfo` writes down the exception that is pending. -/
theorem vcpuExceptionIntinfo_info {v : Vcpu} (hpending : v.exceptionPending = true)
    (hvector : raisable v.excVector) :
    vcpuExceptionIntinfo v = (exceptionOf v.excVector.toNat
      (if v.excErrcodeValid then some v.excErrcode else none)).info := by
  obtain ⟨hlo, hhi, -⟩ := hvector
  obtain ⟨n, hn⟩ := Int.eq_ofNat_of_zero_le hlo
  have hword : BitVec.ofInt 64 v.excVector &&& 0xff = BitVec.ofNat 64 v.excVector.toNat := by
    have hall : ∀ k : Fin 32, BitVec.ofNat 64 k &&& 0xff = BitVec.ofNat 64 k := by decide +kernel
    rw [hn, BitVec.ofInt_natCast, Int.toNat_natCast]
    exact hall ⟨n, by omega⟩
  unfold vcpuExceptionIntinfo
  rw [if_pos hpending]
  simp only [hword]
  cases v.excErrcodeValid with
  | true => rfl
  | false => simp [exceptionOf, Event.info, lowInfo]

/-! ## The vCPU of the entry path -/

/-- The same fields of the vCPU that `vmx_inject_interrupts` runs on. -/
def Vcpu.ofState (s : State) : Vcpu where
  exitintinfo := s.exitintinfo
  exceptionPending := s.exceptionPending
  excVector := s.excVector.toNat
  excErrcodeValid := s.excErrcodeValid
  excErrcode := s.excErrcode

theorem vcpuExceptionIntinfo_ofState (s : State) :
    vcpuExceptionIntinfo (.ofState s) = VmxInject.vcpuExceptionIntinfo s := by
  have hvector : BitVec.ofInt 64 s.excVector.toNat &&& 0xff = s.excVector.setWidth 64 := by
    have hlt := s.excVector.isLt
    rw [BitVec.ofInt_natCast]
    apply BitVec.eq_of_toNat_eq
    have hmask := Nat.and_two_pow_sub_one_eq_mod s.excVector.toNat 8
    simp only [BitVec.toNat_and, BitVec.toNat_ofNat, BitVec.toNat_setWidth]
    rw [Nat.mod_eq_of_lt (by omega)]
    exact hmask.trans (by omega)
  simp only [vcpuExceptionIntinfo, VmxInject.vcpuExceptionIntinfo, Vcpu.ofState, hvector,
    BitVec.or_assoc]

/-- Its entries return the same event. -/
theorem vmEntryIntinfo_ofState (s : State) :
    (vmEntryIntinfo (.ofState s)).2.1 = (VmxInject.vmEntryIntinfo s).2 := by
  have hexit : (Vcpu.ofState s).exitintinfo = s.exitintinfo := rfl
  simp only [vmEntryIntinfo, VmxInject.vmEntryIntinfo, vcpuExceptionIntinfo_ofState, hexit]
  by_cases hboth : s.exitintinfo &&& intinfoValid ≠ 0 ∧
      VmxInject.vcpuExceptionIntinfo s &&& intinfoValid ≠ 0
  · rw [if_pos hboth, if_pos hboth]
    cases nestedFault s.exitintinfo (VmxInject.vcpuExceptionIntinfo s)
    all_goals rfl
  · rw [if_neg hboth, if_neg hboth]
    by_cases hvalid : s.exitintinfo &&& intinfoValid ≠ 0
    · rw [if_pos hvalid, if_pos hvalid]
    · rw [if_neg hvalid, if_neg hvalid]
      split
      · rfl
      · rfl

/-! ## Simulation -/

theorem vmExitIntinfo_eq (v : Vcpu) (info : BitVec 64) :
    vmExitIntinfo v info = if malformed info then (v, .einval)
      else ({ v with exitintinfo := if info &&& intinfoValid ≠ 0 then info else 0 }, .ok) := by
  unfold vmExitIntinfo
  simp only [malformed_iff]
  by_cases hvalid : info &&& intinfoValid ≠ 0
  · rw [if_pos hvalid, if_pos hvalid]
    by_cases hnmi : info &&& intinfoType = intinfoNmi ∧ (info &&& 0xff).toNat ≠ idtNmi
    · rw [if_pos hnmi, if_pos ⟨hvalid, Or.inl hnmi⟩]
    · rw [if_neg hnmi]
      by_cases hhw : info &&& intinfoType = intinfoHwexception ∧ (info &&& 0xff).toNat ≥ 32
      · rw [if_pos hhw, if_pos ⟨hvalid, Or.inr (Or.inl hhw)⟩]
      · rw [if_neg hhw]
        refine if_congr ?_ rfl rfl
        constructor
        · exact fun hrsvd => ⟨hvalid, Or.inr (Or.inr hrsvd)⟩
        · exact fun h => (h.2.resolve_left hnmi).resolve_left hhw
  · rw [if_neg hvalid, if_neg fun h => hvalid h.1, if_neg hvalid]

theorem vmInjectException_eq (v : Vcpu) (vector : Int) (errcodeValid : Bool)
    (errcode : BitVec 32) : vmInjectException v vector errcodeValid errcode =
      if ¬ raisable vector then (v, .einval)
      else if v.exceptionPending then (v, .ebusy)
      else
        ({ v with
            exceptionPending := true
            excVector := vector
            excErrcode := errcode
            excErrcodeValid := errcodeValid }, .ok) := by
  unfold vmInjectException raisable
  by_cases hrange : vector < 0 ∨ vector ≥ 32
  · rw [if_pos hrange, if_pos (by omega)]
  · rw [if_neg hrange]
    by_cases hdf : vector = idtDf
    · rw [if_pos hdf, if_pos fun h => h.2.2 hdf]
    · rw [if_neg hdf, if_neg (not_not.mpr ⟨by omega, by omega, hdf⟩)]

/-- The exception the vCPU holds. -/
def Vcpu.exception (v : Vcpu) : Event :=
  exceptionOf v.excVector.toNat (if v.excErrcodeValid then some v.excErrcode else none)

/-- The two events of the vCPU, as the reference keeps them. -/
structure Holds (v : Vcpu) (p : Pending) : Prop where
  exit : p.exit = if v.exitintinfo &&& intinfoValid ≠ 0 then some v.exitintinfo else none
  exception : p.exception = if v.exceptionPending then some v.exception else none
  vector : v.exceptionPending = true → raisable v.excVector

theorem Holds.exitIntinfo {v : Vcpu} {p : Pending} (h : Holds v p) (info : BitVec 64) :
    Holds (v.step (.exitIntinfo info)).1 (p.step (.exitIntinfo info)).1 ∧
      (v.step (.exitIntinfo info)).2 = (p.step (.exitIntinfo info)).2.reply := by
  simp only [Vcpu.step, Pending.step, vmExitIntinfo_eq]
  by_cases hbad : malformed info
  · rw [if_pos hbad, if_pos hbad]
    exact ⟨h, rfl⟩
  · rw [if_neg hbad, if_neg hbad]
    refine ⟨⟨?_, h.exception, h.vector⟩, rfl⟩
    simp only
    by_cases hvalid : info &&& intinfoValid ≠ 0
    · rw [if_pos hvalid, if_pos hvalid, if_pos hvalid]
    · rw [if_neg hvalid, if_neg hvalid, if_neg (by decide)]

theorem Holds.injectException {v : Vcpu} {p : Pending} (h : Holds v p) (vector : Int)
    (errcodeValid : Bool) (errcode : BitVec 32) :
    Holds (v.step (.injectException vector errcodeValid errcode)).1
        (p.step (.injectException vector errcodeValid errcode)).1 ∧
      (v.step (.injectException vector errcodeValid errcode)).2 =
        (p.step (.injectException vector errcodeValid errcode)).2.reply := by
  simp only [Vcpu.step, Pending.step, vmInjectException_eq]
  by_cases hraise : raisable vector
  · rw [if_neg (not_not.mpr hraise), if_neg (not_not.mpr hraise)]
    have hsome : p.exception.isSome = v.exceptionPending := by
      rw [h.exception]
      cases v.exceptionPending
      all_goals rfl
    rw [hsome]
    cases v.exceptionPending with
    | true => exact ⟨h, rfl⟩
    | false => exact ⟨⟨h.exit, rfl, fun _ => hraise⟩, rfl⟩
  · rw [if_pos hraise, if_pos hraise]
    exact ⟨h, rfl⟩

/-- An exception that is pending, as a word. -/
theorem Holds.exceptionInfo {v : Vcpu} {p : Pending} (h : Holds v p)
    (hpending : v.exceptionPending = true) :
    vcpuExceptionIntinfo v = v.exception.info ∧ v.exception.info &&& intinfoValid ≠ 0 ∧
      Event.ofInfo v.exception.info = v.exception := by
  have hraise := h.vector hpending
  have hvector : v.excVector.toNat < 32 := by
    obtain ⟨hlo, hhi, -⟩ := hraise
    omega
  exact ⟨vcpuExceptionIntinfo_info hpending hraise, ofInfo_exceptionOf hvector _⟩

/-- What an entry returns is what the reference delivers. -/
theorem Holds.entryIntinfo {v : Vcpu} {p : Pending} (h : Holds v p) :
    Holds (v.step .entryIntinfo).1 (p.step .entryIntinfo).1 ∧
      (v.step .entryIntinfo).2 = (p.step .entryIntinfo).2.reply := by
  have hexit := h.exit
  have hexc := h.exception
  have hempty : Holds { v with exitintinfo := 0, exceptionPending := false } ⟨none, none⟩ :=
    ⟨by rw [if_neg (by simp)], rfl, nofun⟩
  simp only [Vcpu.step, Pending.step, vmEntryIntinfo, Outcome.reply, Pending.deliver]
  by_cases hvalid : v.exitintinfo &&& intinfoValid ≠ 0
  · rw [if_pos hvalid] at hexit
    cases hpending : v.exceptionPending with
    | false =>
      have hnone : vcpuExceptionIntinfo v = 0 := by
        unfold vcpuExceptionIntinfo
        rw [hpending]
        rfl
      rw [hpending] at hexc
      rw [hnone, if_neg (by simp), if_pos hvalid, hexit, hexc]
      exact ⟨hempty, rfl⟩
    | true =>
      obtain ⟨hinfo, hvalid', hof⟩ := h.exceptionInfo hpending
      rw [hpending] at hexc
      rw [hinfo, if_pos ⟨hvalid, hvalid'⟩, nestedFault_merge, hof, hexit, hexc]
      simp only [if_true]
      cases merge (.ofInfo v.exitintinfo) v.exception with
      | shutdown => exact ⟨hempty, rfl⟩
      | doubleFault => exact ⟨hempty, rfl⟩
      | second => exact ⟨hempty, rfl⟩
  · rw [if_neg hvalid] at hexit
    rw [if_neg fun hboth => hvalid hboth.1, if_neg hvalid, hexit]
    cases hpending : v.exceptionPending with
    | false =>
      have hnone : vcpuExceptionIntinfo v = 0 := by
        unfold vcpuExceptionIntinfo
        rw [hpending]
        rfl
      rw [hpending] at hexc
      rw [hnone, if_neg (by simp), hexc]
      exact ⟨hempty, rfl⟩
    | true =>
      obtain ⟨hinfo, hvalid', -⟩ := h.exceptionInfo hpending
      rw [hpending] at hexc
      rw [hinfo, if_pos hvalid', hexc]
      exact ⟨hempty, rfl⟩

theorem Holds.step {v : Vcpu} {p : Pending} (h : Holds v p) (c : Call) :
    Holds (v.step c).1 (p.step c).1 ∧ (v.step c).2 = (p.step c).2.reply := by
  cases c with
  | exitIntinfo info => exact h.exitIntinfo info
  | injectException vector errcodeValid errcode => exact h.injectException vector errcodeValid errcode
  | entryIntinfo => exact h.entryIntinfo

theorem Holds.run {v : Vcpu} {p : Pending} (h : Holds v p) (calls : List Call) :
    Holds (v.run calls).1 (p.run calls).1 ∧
      (v.run calls).2 = (p.run calls).2.map Outcome.reply := by
  induction calls generalizing v p with
  | nil => exact ⟨h, rfl⟩
  | cons c cs ih =>
    obtain ⟨hstep, hreply⟩ := h.step c
    obtain ⟨hrun, hreplies⟩ := ih hstep
    refine ⟨hrun, ?_⟩
    simp only [Vcpu.run, Pending.run, List.map_cons]
    rw [hreply, hreplies]

/-! ## What the reference keeps -/

/-- What one call takes in and gives out. -/
theorem Pending.step_taken (p : Pending) (c : Call) :
    p.exception.toList ++ (p.step c).2.accepts.toList =
      (p.step c).2.takes.toList ++ (p.step c).1.exception.toList := by
  cases c with
  | exitIntinfo info =>
    simp only [Pending.step]
    split
    · simp [Outcome.accepts, Outcome.takes]
    · simp [Outcome.accepts, Outcome.takes]
  | injectException vector errcodeValid errcode =>
    simp only [Pending.step]
    split
    · simp [Outcome.accepts, Outcome.takes]
    · split
      · simp [Outcome.accepts, Outcome.takes]
      · rename_i hfree
        simp [Outcome.accepts, Outcome.takes, Option.not_isSome_iff_eq_none.mp hfree]
  | entryIntinfo =>
    obtain ⟨exit, exception⟩ := p
    cases exit with
    | none =>
      cases exception with
      | none => rfl
      | some x => rfl
    | some info =>
      cases exception with
      | none => rfl
      | some x => rfl

/-- Every exception that is accepted is used up once, in the order they came. -/
theorem Pending.run_taken (p : Pending) (calls : List Call) :
    p.exception.toList ++ (p.run calls).2.filterMap Outcome.accepts =
      (p.run calls).2.filterMap Outcome.takes ++ (p.run calls).1.exception.toList := by
  induction calls generalizing p with
  | nil => simp [Pending.run]
  | cons c cs ih =>
    have hstep := p.step_taken c
    have hrest := ih (p.step c).1
    have hcons : ∀ {f : Outcome → Option Event} {o : Outcome} {os : List Outcome},
        (o :: os).filterMap f = (f o).toList ++ os.filterMap f := by
      intro f o os
      rw [List.filterMap_cons]
      cases f o
      all_goals rfl
    simp only [Pending.run]
    rw [hcons, hcons, ← List.append_assoc, hstep, List.append_assoc, hrest, List.append_assoc]

/-- The exception of the handler is never a double fault. -/
def Pending.Raised (p : Pending) : Prop :=
  ∀ x, p.exception = some x → (Event.ofInfo x.info).isDoubleFault = false

theorem Pending.Raised.step {p : Pending} (h : p.Raised) (c : Call) : (p.step c).1.Raised := by
  cases c with
  | exitIntinfo info =>
    simp only [Pending.step]
    split
    · exact h
    · exact h
  | injectException vector errcodeValid errcode =>
    simp only [Pending.step]
    by_cases hraise : raisable vector
    · rw [if_neg (not_not.mpr hraise)]
      split
      · exact h
      · intro x hx
        obtain rfl := Option.some.inj hx
        obtain ⟨hlo, hhi, hdf⟩ := hraise
        rw [(ofInfo_exceptionOf (by omega) _).2]
        simp only [Event.isDoubleFault, exceptionOf, decide_eq_false_iff_not]
        omega
    · rw [if_pos hraise]
      exact h
  | entryIntinfo => exact nofun

/-- A double fault an entry returns was the exit's own, or made of two events. -/
def Delivery.Accounted (d : Delivery) : Prop :=
  ∀ info tripleFault, d.reply = .entry (some info) tripleFault →
    (Event.ofInfo info).isDoubleFault = true →
    d = .exit info ∨ ∃ first x, d = .merged .doubleFault first x

theorem Pending.Raised.deliver {p : Pending} (h : p.Raised) : p.deliver.Accounted := by
  intro info tripleFault hreply hdf
  obtain ⟨exit, exception⟩ := p
  cases exit with
  | none =>
    cases exception with
    | none => cases hreply
    | some x =>
      obtain ⟨hinfo, -⟩ := Reply.entry.inj hreply
      obtain rfl := Option.some.inj hinfo
      exact absurd hdf (by simp [h x rfl])
  | some first =>
    cases exception with
    | none =>
      obtain ⟨hinfo, -⟩ := Reply.entry.inj hreply
      obtain rfl := Option.some.inj hinfo
      exact Or.inl rfl
    | some x =>
      simp only [Pending.deliver] at hreply ⊢
      cases hmerge : merge (.ofInfo first) x with
      | shutdown =>
        rw [hmerge] at hreply
        cases hreply
      | doubleFault => exact Or.inr ⟨first, x, rfl⟩
      | second =>
        rw [hmerge] at hreply
        obtain ⟨hinfo, -⟩ := Reply.entry.inj hreply
        obtain rfl := Option.some.inj hinfo
        exact absurd hdf (by simp [h x rfl])

theorem Pending.Raised.run {p : Pending} (h : p.Raised) {calls : List Call} {d : Delivery}
    (hd : .delivered d ∈ (p.run calls).2) : d.Accounted := by
  induction calls generalizing p with
  | nil => cases hd
  | cons c cs ih =>
    rcases List.mem_cons.mp hd with hd | hd
    · cases c with
      | entryIntinfo =>
        obtain rfl := Outcome.delivered.inj hd
        exact h.deliver
      | exitIntinfo info =>
        simp only [Pending.step] at hd
        split at hd
        all_goals cases hd
      | injectException vector errcodeValid errcode =>
        simp only [Pending.step] at hd
        split_ifs at hd
    · exact ih (h.step c) hd

theorem Vcpu.step_refused {v : Vcpu} {c : Call} {error : Errno} (h : (v.step c).2 = .status error)
    (hne : error ≠ .ok) : (v.step c).1 = v := by
  cases c with
  | exitIntinfo info =>
    simp only [Vcpu.step, vmExitIntinfo_eq] at h ⊢
    by_cases hbad : malformed info
    · rw [if_pos hbad]
    · rw [if_neg hbad] at h
      exact absurd (Reply.status.inj h).symm hne
  | injectException vector errcodeValid errcode =>
    simp only [Vcpu.step, vmInjectException_eq] at h ⊢
    by_cases hraise : raisable vector
    · rw [if_neg (not_not.mpr hraise)] at h ⊢
      by_cases hbusy : v.exceptionPending = true
      · rw [if_pos hbusy]
      · rw [if_neg hbusy] at h
        exact absurd (Reply.status.inj h).symm hne
    · rw [if_pos hraise]
  | entryIntinfo => cases h

/-- Over any calls since the vCPU was set up, each entry returns what the manual makes of the two
events; an exception is used up once, in its turn, and a double fault has a cause. A call that is
refused leaves both events alone. -/
theorem events_merged (v : Vcpu) (calls : List Call) :
    (v.init.run calls).2 = (Pending.run ⟨none, none⟩ calls).2.map Outcome.reply ∧
      (Pending.run ⟨none, none⟩ calls).2.filterMap Outcome.accepts =
        (Pending.run ⟨none, none⟩ calls).2.filterMap Outcome.takes ++
          (Pending.run ⟨none, none⟩ calls).1.exception.toList ∧
      (∀ d, .delivered d ∈ (Pending.run ⟨none, none⟩ calls).2 → d.Accounted) ∧
      ∀ c error, ((v.init.run calls).1.step c).2 = .status error → error ≠ .ok →
        ((v.init.run calls).1.step c).1 = (v.init.run calls).1 := by
  have hinit : Holds v.init ⟨none, none⟩ := ⟨by rw [if_neg (by simp [Vcpu.init])], rfl, nofun⟩
  have hraised : Pending.Raised ⟨none, none⟩ := nofun
  refine ⟨(hinit.run calls).2, ?_, fun d hd => hraised.run hd, fun c error h hne => ?_⟩
  · exact Pending.run_taken ⟨none, none⟩ calls
  · exact Vcpu.step_refused h hne

end Xhyve.Vmm.EventMerge
