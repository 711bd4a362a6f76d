import Xhyve.Vmm.VmxInject

/-!
# No event is lost or written over on VM entry

An event put into the VM-entry field stays there until the guest is entered, and while it does no
second one of the first kind can turn up: the exit that could bring one has consumed the field.
The window controls asked for are those of the VMCS, and whatever is still pending when the guest
is entered has its window asked for, unless it was posted in between.
-/

namespace Xhyve.Vmm.VmxInject

open Xhyve.Lib
open Xhyve.Vmm.Lapic (OnlyRequests prio)

/-- A log, newest event first: the field is written for an event, and then the event's source is
told so and nothing else. -/
inductive Blocks : List Event → Prop
  | nil : Blocks []
  | intinfo {l : List Event} : Blocks l → Blocks (.write .intinfo :: l)
  | nmi {l : List Event} : Blocks l → Blocks (.nmiClear :: .write .nmi :: l)
  | lapic {l : List Event} {v : Nat} :
    Blocks l → Blocks (.vlapicIntrAccepted v :: .write (.lapic v) :: l)
  | extint {l : List Event} {v : Nat} :
    Blocks l → Blocks (.vatpicIntrAccepted v :: .extintClear :: .write (.extint v) :: l)

/-- A pending event is taken back only by the call that follows its write. -/
structure Clears (s t : State) : Prop where
  nmi : s.nmiPending = true → t.nmiPending = false → t.log = .nmiClear :: .write .nmi :: s.log
  extint : s.extintPending = true → t.extintPending = false →
    ∃ v, t.log = .vatpicIntrAccepted v :: .extintClear :: .write (.extint v) :: s.log

theorem Clears.of_le {s t : State} (hn : s.nmiPending = true → t.nmiPending = true)
    (he : s.extintPending = true → t.extintPending = true) : Clears s t where
  nmi h h' := absurd (h'.symm.trans (hn h)) (by decide)
  extint h h' := absurd (h'.symm.trans (he h)) (by decide)

/-! ## Controls -/

theorem nmiWindow_twoPow : nmiWindowExiting = BitVec.twoPow 32 22 := by decide

theorem intWindow_twoPow : intWindowExiting = BitVec.twoPow 32 2 := by decide

/-- Both controls, as bits. -/
theorem nmiWindow_iff (c : BitVec 32) : c &&& nmiWindowExiting ≠ 0 ↔ c.getLsbD 22 = true := by
  rw [nmiWindow_twoPow, and_flag_ne_zero (by decide)]

theorem intWindow_iff (c : BitVec 32) : c &&& intWindowExiting ≠ 0 ↔ c.getLsbD 2 = true := by
  rw [intWindow_twoPow, and_flag_ne_zero (by decide)]

theorem writeProcCtls_self {s : State} (h : s.procCtls = s.vmcs.priProcBasedCtls) :
    writeProcCtls s s.procCtls = s := by
  have hv : ({ s.vmcs with priProcBasedCtls := s.procCtls } : Vmcs) = s.vmcs := by rw [h]
  unfold writeProcCtls
  rw [hv]

theorem setIntWindow_eq {s : State} (h : s.procCtls = s.vmcs.priProcBasedCtls) :
    ∃ c, vmxSetIntWindowExiting s = writeProcCtls s c ∧ c &&& intWindowExiting ≠ 0 ∧
      (s.procCtls &&& nmiWindowExiting ≠ 0 → c &&& nmiWindowExiting ≠ 0) := by
  unfold vmxSetIntWindowExiting
  split
  · refine ⟨_, rfl, ?_, ?_⟩
    · rw [intWindow_iff, BitVec.getLsbD_or]
      simp [intWindow_twoPow]
    · rw [nmiWindow_iff, nmiWindow_iff, BitVec.getLsbD_or]
      intro hn
      rw [hn, Bool.true_or]
  · rename_i hset
    exact ⟨s.procCtls, (writeProcCtls_self h).symm, hset, id⟩

/-- Asking for a window takes nothing back. -/
theorem setIntWindow_clears {s t : State} (h : Clears s t) :
    Clears s (vmxSetIntWindowExiting t) := by
  unfold vmxSetIntWindowExiting
  split
  · exact ⟨h.nmi, h.extint⟩
  · exact h

theorem setNmiWindow_eq {s : State} (h : s.procCtls = s.vmcs.priProcBasedCtls) :
    ∃ c, vmxSetNmiWindowExiting s = writeProcCtls s c ∧ c &&& nmiWindowExiting ≠ 0 := by
  unfold vmxSetNmiWindowExiting
  split
  · refine ⟨_, rfl, ?_⟩
    rw [nmiWindow_iff, BitVec.getLsbD_or]
    simp [nmiWindow_twoPow]
  · rename_i hset
    exact ⟨s.procCtls, (writeProcCtls_self h).symm, hset⟩

/-! ## The invariant -/

/-- What the part of `vmx_inject_interrupts` that comes next relies on. -/
def Offered (s : State) : Prop :=
  match s.pc with
  | .ask true | .inject true _ => s.extintPending = true
  | .inject false v =>
    v < 256 ∧ s.vlapic.irr.has v = true ∧ prio s.vlapic.ppr < prio v
  | _ => True

structure Safe (s : State) : Prop where
  running : s.aborted = none
  kept : s.overwritten = false
  blocks : Blocks s.log
  ctls : s.procCtls = s.vmcs.priProcBasedCtls
  lapic : Lapic.Inv s.vlapic
  /-- Only the handling of an exit raises an exception, -/
  exception : s.handling = false → s.exceptionPending = false
  /-- and the event an exit cut short is gone with the next use of the field. -/
  intinfo : s.pc ≠ .idle ∨ entryValid s → s.exitintinfo &&& intinfoValid = 0
  handled : s.handling = true → s.pc = .idle ∧ ¬ entryValid s
  offered : Offered s

def NmiAsked (s : State) : Prop := s.nmiPending = true → s.procCtls &&& nmiWindowExiting ≠ 0

def IntrAsked (s : State) : Prop :=
  (s.extintPending = true ∨ (Lapic.vlapicPendingIntr s.vlapic).isSome = true) →
    s.procCtls &&& intWindowExiting ≠ 0

/-- What has been seen to so far, where nothing was posted meanwhile. -/
def Quiet (s : State) : Prop :=
  match s.pc with
  | .idle | .nmi => True
  | .extint => NmiAsked s
  | .ask e => NmiAsked s ∧ (s.extintPending = true → e = true)
  | .inject e v => NmiAsked s ∧ (s.extintPending = true → e = true) ∧
    (e = false → Lapic.vlapicPendingIntr s.vlapic = some v)
  | .ready => NmiAsked s ∧ IntrAsked s

structure Good (s : State) : Prop extends Safe s where
  quiet : s.posted = false → Quiet s

theorem Safe.handling_false {s : State} (h : Safe s) (hp : s.pc ≠ .idle) : s.handling = false := by
  cases hh : s.handling with
  | false => rfl
  | true => exact absurd (h.handled hh).1 hp

/-- Outside the handling of exits: no event is on its way to the field from the first part. -/
structure Between (s : State) : Prop where
  handling : s.handling = false
  exception : s.exceptionPending = false
  intinfo : s.exitintinfo &&& intinfoValid = 0

theorem Safe.between {s : State} (h : Safe s) (hp : s.pc ≠ .idle) : Between s where
  handling := h.handling_false hp
  exception := h.exception (h.handling_false hp)
  intinfo := h.intinfo (Or.inl hp)

theorem Between.good {s : State} (h : Between s) (running : s.aborted = none)
    (kept : s.overwritten = false) (blocks : Blocks s.log)
    (ctls : s.procCtls = s.vmcs.priProcBasedCtls) (lapic : Lapic.Inv s.vlapic)
    (offered : Offered s) (quiet : s.posted = false → Quiet s) : Good s where
  running := running
  kept := kept
  blocks := blocks
  ctls := ctls
  lapic := lapic
  exception _ := h.exception
  intinfo _ := h.intinfo
  handled hh := absurd (h.handling.symm.trans hh) (by decide)
  offered := offered
  quiet := quiet

/-- A valid field and an event of `vm_entry_intinfo` exclude each other. -/
theorem Safe.no_intinfo {s : State} (h : Safe s) (hv : entryValid s) :
    s.exitintinfo &&& intinfoValid = 0 ∧ s.exceptionPending = false := by
  refine ⟨h.intinfo (Or.inr hv), h.exception ?_⟩
  cases hh : s.handling with
  | false => rfl
  | true => exact absurd hv (h.handled hh).2

theorem Safe.writeProcCtls {s : State} (h : Safe s) (c : BitVec 32) : Safe (writeProcCtls s c) :=
  { h with ctls := rfl }

theorem writeEntry_free {s : State} (h : ¬ entryValid s) (source : Source) (info : BitVec 32) :
    writeEntry s source info =
      { s with
        vmcs := { s.vmcs with entryIntrInfo := info }, log := .write source :: s.log } := by
  unfold writeEntry
  rw [decide_eq_false h, Bool.or_false]

/-! ## The event of `vm_entry_intinfo` -/

theorem exceptionIntinfo_valid {s : State} (h : vcpuExceptionIntinfo s &&& intinfoValid ≠ 0) :
    s.exceptionPending = true := by
  cases he : s.exceptionPending with
  | true => rfl
  | false => simp [vcpuExceptionIntinfo, he] at h

theorem nestedFault_valid {info1 info2 info : BitVec 64} (h2 : info2 &&& intinfoValid ≠ 0)
    (h : nestedFault info1 info2 = some info) : info &&& intinfoValid ≠ 0 := by
  unfold nestedFault at h
  dsimp only at h
  split at h
  · cases h
  · split at h
    · cases h
      decide
    · cases h
      exact h2

theorem entryIntinfo_spec (s : State) :
    ∃ f r, vmEntryIntinfo s =
        ({ s with exitintinfo := 0, exceptionPending := false, tripleFault := f }, r) ∧
      ∀ info, r = some info → info &&& intinfoValid ≠ 0 ∧
        (s.exitintinfo &&& intinfoValid ≠ 0 ∨ s.exceptionPending = true) := by
  unfold vmEntryIntinfo
  dsimp only
  split
  · rename_i hboth
    split
    · rename_i info hn
      refine ⟨s.tripleFault, some info, rfl, ?_⟩
      intro _ hi
      cases hi
      exact ⟨nestedFault_valid hboth.2 hn, Or.inl hboth.1⟩
    · exact ⟨true, none, rfl, nofun⟩
  · split
    · rename_i h1
      refine ⟨s.tripleFault, some s.exitintinfo, rfl, ?_⟩
      intro _ hi
      cases hi
      exact ⟨h1, Or.inl h1⟩
    · split
      · rename_i h2
        refine ⟨s.tripleFault, some (vcpuExceptionIntinfo s), rfl, ?_⟩
        intro _ hi
        cases hi
        exact ⟨h2, Or.inr (exceptionIntinfo_valid h2)⟩
      · exact ⟨s.tripleFault, none, rfl, nofun⟩

/-- The first part leaves the field alone, or writes an event into it where it was free. -/
theorem injectIntinfo_eq {s : State} (h : Safe s) :
    ∃ v f l, injectIntinfo s =
        { s with
          vmcs := v, exitintinfo := 0, exceptionPending := false, tripleFault := f, log := l } ∧
      v.priProcBasedCtls = s.vmcs.priProcBasedCtls ∧ Blocks l := by
  unfold injectIntinfo
  dsimp only
  -- the interruptibility state plays no part in what follows
  generalize hu : (if s.nextrip ≠ s.vmcs.guestRip ∧
    s.vmcs.guestInterruptibility &&& hwintrBlocking ≠ 0 then _ else s) = u
  obtain ⟨w, hw, hctls, hentry⟩ : ∃ w, u = { s with vmcs := w } ∧
      w.priProcBasedCtls = s.vmcs.priProcBasedCtls ∧ w.entryIntrInfo = s.vmcs.entryIntrInfo := by
    rw [← hu]
    split
    · exact ⟨_, rfl, rfl, rfl⟩
    · exact ⟨_, rfl, rfl, rfl⟩
  obtain ⟨f, r, heq, hr⟩ := entryIntinfo_spec u
  rw [heq]
  subst hw
  cases r with
  | none => exact ⟨w, f, s.log, rfl, hctls, h.blocks⟩
  | some info =>
    obtain ⟨hvalid, hsource⟩ := hr info rfl
    have hfree : ¬ entryValid s := by
      intro hv
      obtain ⟨hno, hnoexc⟩ := h.no_intinfo hv
      rcases hsource with hs | hs
      · exact hs hno
      · exact absurd (hnoexc.symm.trans hs) (by decide)
    have hfree' : w.entryIntrInfo &&& intrValid = 0 := by
      rw [hentry]
      exact not_not.mp hfree
    dsimp only
    split
    · rename_i hinvalid
      exact absurd hinvalid hvalid
    · split
      · rename_i hv
        exact absurd hfree' hv
      · generalize (if (info.setWidth 32 &&& 0xff).toNat = idtBp ∨
          (info.setWidth 32 &&& 0xff).toNat = idtOf then
            (info.setWidth 32 &&& ~~~intrTMask) ||| intrTSwexception else info.setWidth 32) = field
        split
        · rw [writeEntry_free (by exact fun hv => hv hfree')]
          exact ⟨_, f, _, rfl, hctls, .intinfo h.blocks⟩
        · rw [writeEntry_free (by exact fun hv => hv hfree')]
          exact ⟨_, f, _, rfl, hctls, .intinfo h.blocks⟩

theorem Safe.begin {s t : State} (h : Safe s)
    (ht : t = { injectIntinfo s with pc := .nmi, handling := false, posted := false }) :
    Good t ∧ Clears s t := by
  obtain ⟨v, f, l, heq, hctls, hl⟩ := injectIntinfo_eq h
  rw [heq] at ht
  subst ht
  refine ⟨?_, .of_le id id⟩
  exact {
    running := h.running
    kept := h.kept
    blocks := hl
    ctls := h.ctls.trans hctls.symm
    lapic := h.lapic
    exception := fun _ => rfl
    intinfo := fun _ => (by decide : (0 : BitVec 64) &&& intinfoValid = 0)
    handled := nofun
    offered := trivial
    quiet := fun _ => trivial }

/-! ## NMIs -/

theorem vmxInjectNmi_eq {s : State} (hp : s.nmiPending = true)
    (hgi : s.vmcs.guestInterruptibility &&& nmiBlocking = 0) (hfree : ¬ entryValid s) :
    ∃ i, vmxInjectNmi s =
      { s with
        vmcs := { s.vmcs with entryIntrInfo := i }
        nmiPending := false
        log := .nmiClear :: .write .nmi :: s.log } := by
  unfold vmxInjectNmi
  rw [if_neg (not_not.mpr hgi), if_neg hfree, writeEntry_free hfree, vmNmiClear, if_pos hp]
  exact ⟨_, rfl⟩

/-- Where nothing blocks at all, nothing blocks NMIs. -/
theorem nmiBlocking_of_none {gi : BitVec 32} (h : gi &&& (hwintrBlocking ||| nmiBlocking) = 0) :
    gi &&& nmiBlocking = 0 := by
  by_contra hne
  obtain ⟨i, hgi, hb⟩ := (and_ne_zero_iff _ _).mp hne
  apply (and_ne_zero_iff gi (hwintrBlocking ||| nmiBlocking)).mpr ⟨i, hgi, _⟩ h
  rw [BitVec.getLsbD_or, hb, Bool.or_true]

theorem Good.stepNmi {s t : State} (h : Good s) (hpc : s.pc = .nmi)
    (ht : t = { injectNmi s with pc := .extint }) : Good t ∧ Clears s t := by
  have hb : Between s := h.between (by rw [hpc]; decide)
  unfold injectNmi at ht
  split at ht
  · rename_i hpend
    split at ht
    · rename_i hcan
      obtain ⟨i, heq⟩ := vmxInjectNmi_eq hpend (nmiBlocking_of_none hcan.1) hcan.2
      rw [heq] at ht
      subst ht
      refine ⟨?_, fun _ _ => rfl, fun he he' => absurd (he'.symm.trans he) (by decide)⟩
      exact Between.good ⟨hb.handling, hb.exception, hb.intinfo⟩ h.running h.kept (.nmi h.blocks)
        h.ctls h.lapic trivial fun _ => nofun
    · obtain ⟨c, heq, hc⟩ := setNmiWindow_eq h.ctls
      rw [heq] at ht
      subst ht
      refine ⟨?_, .of_le id id⟩
      exact Between.good ⟨hb.handling, hb.exception, hb.intinfo⟩ h.running h.kept h.blocks rfl
        h.lapic trivial fun _ _ => hc
  · rename_i hpend
    subst ht
    refine ⟨?_, .of_le id id⟩
    exact Between.good ⟨hb.handling, hb.exception, hb.intinfo⟩ h.running h.kept h.blocks h.ctls
      h.lapic trivial fun _ hn => absurd hn hpend

/-! ## Interrupts -/

theorem Good.quiet_extint {s : State} (h : Good s) (hpc : s.pc = .extint) (hp : s.posted = false) :
    NmiAsked s := by
  have hq := h.quiet hp
  unfold Quiet at hq
  rwa [hpc] at hq

theorem Good.quiet_ask {s : State} (h : Good s) {e : Bool} (hpc : s.pc = .ask e)
    (hp : s.posted = false) : NmiAsked s ∧ (s.extintPending = true → e = true) := by
  have hq := h.quiet hp
  unfold Quiet at hq
  rwa [hpc] at hq

theorem Good.quiet_inject {s : State} (h : Good s) {e : Bool} {v : Nat} (hpc : s.pc = .inject e v)
    (hp : s.posted = false) :
    NmiAsked s ∧ (s.extintPending = true → e = true) ∧
      (e = false → Lapic.vlapicPendingIntr s.vlapic = some v) := by
  have hq := h.quiet hp
  unfold Quiet at hq
  rwa [hpc] at hq

theorem Good.stepExtint {s : State} (h : Good s) (hpc : s.pc = .extint) :
    Good { s with pc := .ask s.extintPending } := by
  have hb : Between s := h.between (by rw [hpc]; decide)
  have hoffered : Offered { s with pc := .ask s.extintPending } := by
    unfold Offered
    cases he : s.extintPending with
    | true => rfl
    | false => trivial
  exact Between.good ⟨hb.handling, hb.exception, hb.intinfo⟩ h.running h.kept h.blocks h.ctls
    h.lapic hoffered fun hp => ⟨h.quiet_extint hpc hp, id⟩

theorem Good.stepAsk {s : State} (h : Good s) {e : Bool} (hpc : s.pc = .ask e) :
    Good (askVector s e) ∧ Clears s (askVector s e) := by
  have hb : Between s := h.between (by rw [hpc]; nofun)
  have hmove : ∀ pc, Offered { s with pc := pc } →
      (s.posted = false → Quiet { s with pc := pc }) →
      Good { s with pc := pc } ∧ Clears s { s with pc := pc } := by
    intro pc ho hq
    refine ⟨?_, .of_le id id⟩
    exact Between.good ⟨hb.handling, hb.exception, hb.intinfo⟩ h.running h.kept h.blocks h.ctls
      h.lapic ho hq
  unfold askVector
  split
  · rename_i hset
    exact hmove .ready trivial fun hp => ⟨(h.quiet_ask hpc hp).1, fun _ => hset⟩
  · cases e with
    | true =>
      have hpend : s.extintPending = true := by
        have ho := h.offered
        unfold Offered at ho
        rwa [hpc] at ho
      have hle := Pic8259.pendingIntr_le s.vatpic
      rw [if_pos rfl]
      dsimp only
      rw [if_neg (by omega)]
      exact hmove _ hpend fun hp => ⟨(h.quiet_ask hpc hp).1, fun _ => rfl, nofun⟩
    | false =>
      rw [if_neg (by decide)]
      cases hv : Lapic.vlapicPendingIntr s.vlapic with
      | none =>
        refine hmove .ready trivial fun hp => ⟨(h.quiet_ask hpc hp).1, ?_⟩
        rintro (hext | hsome)
        · exact absurd ((h.quiet_ask hpc hp).2 hext) (by decide)
        · rw [hv] at hsome
          cases hsome
      | some v =>
        have hspec := Lapic.pendingIntr_spec hv
        have hlegal : 16 ≤ v := h.lapic.requested v hspec.1 hspec.2.1
        dsimp only
        rw [if_neg (by omega)]
        refine hmove _ hspec fun hp => ⟨(h.quiet_ask hpc hp).1, (h.quiet_ask hpc hp).2, fun _ => hv⟩

theorem applyPost_foldl_eq (again : List Post) (s : State) :
    ∃ n e l, again.foldl applyPost s =
        { s with nmiPending := n, extintPending := e, vlapic := l } ∧
      OnlyRequests s.vlapic l ∧ (s.extintPending = true → e = true) ∧
      (s.nmiPending = true → n = true) ∧ (Post.nmi ∉ again → n = s.nmiPending) := by
  induction again generalizing s with
  | nil => exact ⟨_, _, _, rfl, .rfl' _, id, id, fun _ => rfl⟩
  | cons p rest ih =>
    obtain ⟨n, e, l, heq, hl, he, hle, hn⟩ := ih (applyPost s p)
    rw [List.foldl_cons, heq]
    have hnot : Post.nmi ∉ p :: rest → Post.nmi ∉ rest := fun h hm => h (List.mem_cons_of_mem p hm)
    cases p with
    | nmi => exact ⟨n, e, l, rfl, hl, he, fun _ => hle rfl, fun h => absurd List.mem_cons_self h⟩
    | extint => exact ⟨n, e, l, rfl, hl, fun _ => he rfl, hle, fun h => hn (hnot h)⟩
    | intr vector level =>
      exact ⟨n, e, l, rfl, (OnlyRequests.setIntrReady s.vlapic vector level).trans hl, he,
        hle, fun h => hn (hnot h)⟩
    | lvt i => exact ⟨n, e, l, rfl, (OnlyRequests.fireLvt s.vlapic _).trans hl, he,
        hle, fun h => hn (hnot h)⟩
    | tmr vector level =>
      exact ⟨n, e, l, rfl, (OnlyRequests.setTmr s.vlapic vector level).trans hl, he,
        hle, fun h => hn (hnot h)⟩

/-- The acknowledgement of an ExtINT posts what the 8259s go on to ask for, and nothing else. -/
theorem acceptExtint_eq (s : State) (vector : Nat) (again : List Post) :
    ∃ q n e l p, acceptExtint s vector again =
        { s with
          vatpic := q, nmiPending := n, extintPending := e, vlapic := l, posted := p
          log := .vatpicIntrAccepted vector :: s.log } ∧
      OnlyRequests s.vlapic l ∧ (s.nmiPending = true → n = true) ∧
      (p = false → s.posted = false ∧ n = s.nmiPending) := by
  unfold acceptExtint
  dsimp only
  split
  · obtain ⟨n, e, l, heq, hl, -, hle, hn⟩ := applyPost_foldl_eq again
      (({ s with vatpic := (Pic8259.vatpicIntrAccepted s.vatpic vector).1 } : State).emit
        (.vatpicIntrAccepted vector))
    rw [heq]
    refine ⟨_, n, e, l, _, rfl, hl, hle, fun hp => ?_⟩
    have hor := Bool.or_eq_false_iff.mp hp
    refine ⟨hor.1, hn fun hmem => ?_⟩
    rw [List.contains_iff_mem.mpr hmem] at hor
    cases hor.2
  · exact ⟨_, _, _, _, _, rfl, .rfl' _, id, fun hp => ⟨hp, rfl⟩⟩

/-- The end of `vmx_inject_interrupts` where the interrupt window is asked for. -/
theorem Between.setIntWindow {s : State} (h : Between s) (hpc : s.pc = .ready)
    (running : s.aborted = none) (kept : s.overwritten = false) (blocks : Blocks s.log)
    (ctls : s.procCtls = s.vmcs.priProcBasedCtls) (lapic : Lapic.Inv s.vlapic)
    (quiet : s.posted = false → NmiAsked s) : Good (vmxSetIntWindowExiting s) := by
  obtain ⟨c, heq, hint, hnmi⟩ := setIntWindow_eq ctls
  rw [heq]
  have hpc' : (writeProcCtls s c).pc = .ready := hpc
  refine Between.good ⟨h.handling, h.exception, h.intinfo⟩ running kept blocks rfl lapic ?_ ?_
  · unfold Offered
    rw [hpc']
    trivial
  · intro hp
    unfold Quiet
    rw [hpc']
    exact ⟨fun hn => hnmi (quiet hp hn), fun _ => hint⟩

theorem Good.stepInject {s : State} (h : Good s) {e : Bool} {v : Nat} (hpc : s.pc = .inject e v)
    (again : List Post) :
    Good (injectVector s e v again) ∧ Clears s (injectVector s e v again) := by
  have hb : Between s := h.between (by rw [hpc]; nofun)
  have hcant : Good (vmxSetIntWindowExiting { s with pc := .ready }) ∧
      Clears s (vmxSetIntWindowExiting { s with pc := .ready }) := by
    refine ⟨?_, setIntWindow_clears (.of_le id id)⟩
    exact Between.setIntWindow ⟨hb.handling, hb.exception, hb.intinfo⟩ rfl h.running h.kept
      h.blocks h.ctls h.lapic fun hp => (h.quiet_inject hpc hp).1
  unfold injectVector
  dsimp only
  split
  · exact hcant
  · split
    · exact hcant
    · split
      · exact hcant
      · rename_i hfree
        rw [writeEntry_free hfree, writeEntry_free hfree]
        cases e with
        | true =>
          have hpend : s.extintPending = true := by
            have ho := h.offered
            unfold Offered at ho
            rwa [hpc] at ho
          rw [if_pos rfl, vmExtintClear, if_pos hpend]
          obtain ⟨q, n, e, l, p, heq, hl, hle, hp⟩ := acceptExtint_eq _ v again
          rw [heq]
          refine ⟨?_, setIntWindow_clears ⟨fun hn hn' => ?_, fun _ _ => ⟨v, rfl⟩⟩⟩
          · refine Between.setIntWindow ⟨hb.handling, hb.exception, hb.intinfo⟩ rfl h.running h.kept
              (.extint h.blocks) h.ctls (hl.inv h.lapic) fun hq hn => ?_
            obtain ⟨hq', hsame⟩ := hp hq
            exact (h.quiet_inject hpc hq').1 (hsame.symm.trans hn)
          · exact absurd (hn'.symm.trans (hle hn)) (by decide)
        | false =>
          have hoff : v < 256 ∧ s.vlapic.irr.has v = true ∧ prio s.vlapic.ppr < prio v := by
            have ho := h.offered
            unfold Offered at ho
            rwa [hpc] at ho
          obtain ⟨lapic, hacc, hinv⟩ := h.lapic.intrAccepted hoff.1
            (h.lapic.requested v hoff.1 hoff.2.1) hoff.2.2
          rw [if_neg (by decide)]
          dsimp only
          rw [hacc]
          refine ⟨?_, .of_le id id⟩
          refine Between.good ⟨hb.handling, hb.exception, hb.intinfo⟩ h.running h.kept
            (.lapic h.blocks) h.ctls hinv trivial fun hp => ?_
          obtain ⟨hn, hext, hsome⟩ := h.quiet_inject hpc hp
          refine ⟨hn, ?_⟩
          intro hpend
          rcases hpend with hx | hx
          · exact absurd (hext hx) (by decide)
          · change (Lapic.vlapicPendingIntr lapic).isSome = true at hx
            rw [h.lapic.pendingIntr_accepted (hsome rfl) hacc] at hx
            cases hx

/-! ## Posts -/

/-- A request from elsewhere leaves the vector asked for as it was. -/
theorem Offered.post {s : State} (h : Offered s) {n e : Bool} {l : Lapic.Vlapic}
    (hl : OnlyRequests s.vlapic l) (he : s.extintPending = true → e = true) {p : Bool} :
    Offered { s with nmiPending := n, extintPending := e, vlapic := l, posted := p } := by
  unfold Offered at h ⊢
  dsimp only
  split
  · rename_i hpc
    rw [hpc] at h
    exact he h
  · rename_i hpc
    rw [hpc] at h
    exact he h
  · rename_i v hpc
    rw [hpc] at h
    exact ⟨h.1, hl.keeps v h.2.1, by rw [hl.ppr]; exact h.2.2⟩
  · trivial

theorem Good.post {s t : State} (h : Good s) {p : Post}
    (ht : t = { applyPost s p with posted := true }) : Good t ∧ Clears s t := by
  obtain ⟨n, e, l, heq, hl, he, hle, -⟩ := applyPost_foldl_eq [p] s
  rw [show applyPost s p = _ from heq] at ht
  subst ht
  refine ⟨?_, .of_le hle he⟩
  exact { h with
    lapic := hl.inv h.lapic
    offered := h.offered.post hl he
    quiet := nofun }

/-! ## Exits -/

theorem Good.of_idle {s : State} (hpc : s.pc = .idle) (running : s.aborted = none)
    (kept : s.overwritten = false) (blocks : Blocks s.log)
    (ctls : s.procCtls = s.vmcs.priProcBasedCtls) (lapic : Lapic.Inv s.vlapic)
    (exception : s.handling = false → s.exceptionPending = false)
    (intinfo : entryValid s → s.exitintinfo &&& intinfoValid = 0)
    (handled : s.handling = true → ¬ entryValid s) : Good s where
  running := running
  kept := kept
  blocks := blocks
  ctls := ctls
  lapic := lapic
  exception := exception
  intinfo h := h.elim (fun hne => absurd hpc hne) intinfo
  handled h := ⟨hpc, handled h⟩
  offered := by
    unfold Offered
    rw [hpc]
    trivial
  quiet _ := by
    unfold Quiet
    rw [hpc]
    trivial

theorem exitVectoring_eq (s : State) {e : Exit}
    (h : e.idtVectoringInfo &&& intrValid ≠ 0 → intinfoOk (exitIntinfoOf e)) :
    ∃ x v, exitVectoring s e = { s with exitintinfo := x, vmcs := v } ∧
      v.entryIntrInfo = s.vmcs.entryIntrInfo ∧ v.priProcBasedCtls = s.vmcs.priProcBasedCtls ∧
      (e.idtVectoringInfo &&& intrValid = 0 → x = s.exitintinfo ∧ v = s.vmcs) := by
  unfold exitVectoring
  dsimp only
  split
  · rename_i hvalid
    rw [if_pos (h hvalid)]
    split
    · exact ⟨_, _, rfl, rfl, rfl, fun hno => absurd hno hvalid⟩
    · exact ⟨_, _, rfl, rfl, rfl, fun hno => absurd hno hvalid⟩
  · exact ⟨_, _, rfl, rfl, rfl, fun _ => ⟨rfl, rfl⟩⟩

theorem Good.run {s t : State} (h : Good s) (hpc : s.pc = .ready) {e : Exit}
    (hd : Documented s.vmcs e) (ht : t = runGuest s e) : Good t ∧ Clears s t := by
  have hb : Between s := h.between (by rw [hpc]; decide)
  unfold runGuest exitProcess at ht
  obtain ⟨x, v, heq, hentry, hctls, hnone⟩ := exitVectoring_eq _ hd.idt
  rw [heq] at ht
  have hctls' : s.procCtls = v.priProcBasedCtls := h.ctls.trans hctls.symm
  have hfree : ¬ v.entryIntrInfo &&& intrValid ≠ 0 := by
    rw [hentry]
    exact not_not.mpr hd.consumed
  cases hreason : e.reason with
  | intrWindow =>
    have hset : s.procCtls &&& intWindowExiting ≠ 0 := by
      rw [h.ctls]
      exact hd.intrWindow hreason
    rw [hreason] at ht
    dsimp only [vmxClearIntWindowExiting] at ht
    rw [if_neg hset] at ht
    subst ht
    refine ⟨?_, .of_le id id⟩
    exact .of_idle rfl h.running h.kept h.blocks rfl h.lapic (fun _ => hb.exception)
      (fun hv => absurd hv hfree) nofun
  | nmiWindow =>
    have hset : s.procCtls &&& nmiWindowExiting ≠ 0 := by
      rw [h.ctls]
      exact hd.nmiWindow hreason
    obtain ⟨hx, hv⟩ := hnone (hd.nmiBoundary hreason)
    have hexit : x &&& intinfoValid = 0 := by
      rw [hx]
      exact hb.intinfo
    rw [hreason] at ht
    dsimp only at ht
    split at ht
    · rename_i hpend
      have hgi : v.guestInterruptibility &&& nmiBlocking = 0 := by
        rw [hv]
        exact hd.nmiUnblocked hreason
      obtain ⟨i, hinj⟩ := vmxInjectNmi_eq
        (s := { s with vmcs := v, nextrip := e.guestRip, exitintinfo := x, pc := .idle })
        hpend hgi hfree
      rw [hinj] at ht
      dsimp only [vmxClearNmiWindowExiting] at ht
      rw [if_neg hset] at ht
      subst ht
      refine ⟨?_, fun _ _ => rfl, fun he he' => absurd (he'.symm.trans he) (by decide)⟩
      exact .of_idle rfl h.running h.kept (.nmi h.blocks) rfl h.lapic (fun _ => hb.exception)
        (fun _ => hexit) nofun
    · dsimp only [vmxClearNmiWindowExiting] at ht
      rw [if_neg hset] at ht
      subst ht
      refine ⟨?_, .of_le id id⟩
      exact .of_idle rfl h.running h.kept h.blocks rfl h.lapic (fun _ => hb.exception)
        (fun _ => hexit) nofun
  | extIntr =>
    rw [hreason] at ht
    subst ht
    refine ⟨?_, .of_le id id⟩
    exact .of_idle rfl h.running h.kept h.blocks hctls' h.lapic (fun _ => hb.exception)
      (fun hv => absurd hv hfree) nofun
  | taskSwitch | other =>
    rw [hreason] at ht
    subst ht
    refine ⟨?_, .of_le id id⟩
    exact .of_idle rfl h.running h.kept h.blocks hctls' h.lapic nofun
      (fun hv => absurd hv hfree) fun _ => hfree

/-! ## Runs -/

theorem Initial.good {s : State} (h : Initial s) : Good s :=
  .of_idle h.pc h.aborted h.overwritten (h.log ▸ .nil) h.ctls (h.vlapic ▸ Lapic.vlapicInit_inv)
    (fun _ => h.exceptionPending) (fun hv => absurd hv h.entry) (fun _ => h.entry)

/-- While an exit is handled, the vCPU is between two entries and the field is free. -/
theorem Good.raise {s : State} (h : Good s) (hh : s.handling = true) (vector : BitVec 8)
    (errcodeValid : Bool) (errcode : BitVec 32) :
    Good (vmInjectException s vector errcodeValid errcode) ∧
      Clears s (vmInjectException s vector errcodeValid errcode) := by
  obtain ⟨hpc, hfree⟩ := h.handled hh
  unfold vmInjectException
  split
  · exact ⟨h, .of_le id id⟩
  · refine ⟨?_, .of_le id id⟩
    exact .of_idle hpc h.running h.kept h.blocks h.ctls h.lapic
      (fun hno => absurd (hno.symm.trans hh) (by decide)) (fun hv => absurd hv hfree)
      fun _ => hfree

theorem Good.stepInjection {s t : State} (h : Good s) {again : List Post}
    (hs : VmxInject.stepInject s again = some t) : Good t ∧ Clears s t := by
  unfold VmxInject.stepInject at hs
  split at hs
  · cases hs
  · cases hs
  · rename_i hpc
    exact h.stepNmi hpc (Option.some.inj hs).symm
  · rename_i hpc
    cases hs
    exact ⟨h.stepExtint hpc, .of_le id id⟩
  · rename_i hpc
    cases hs
    exact h.stepAsk hpc
  · rename_i hpc
    cases hs
    exact h.stepInject hpc again

theorem Good.next {s t : State} (h : Good s) {op : Op}
    (hd : ∀ e, op = .run e → Documented s.vmcs e) (hs : VmxInject.next s op = some t) :
    Good t ∧ Clears s t := by
  unfold VmxInject.next at hs
  rw [if_neg (by rw [h.running]; decide)] at hs
  cases op with
  | begin =>
    dsimp only at hs
    split at hs
    · exact h.begin (Option.some.inj hs).symm
    · cases hs
  | step again => exact h.stepInjection hs
  | abandon =>
    dsimp only at hs
    split at hs
    · rename_i hpc
      cases hs
      have hb : Between s := h.between (by rw [hpc]; decide)
      refine ⟨?_, .of_le id id⟩
      exact .of_idle rfl h.running h.kept h.blocks h.ctls h.lapic (fun _ => hb.exception)
        (fun _ => hb.intinfo) fun hh => absurd (hb.handling.symm.trans hh) (by decide)
    · cases hs
  | run e =>
    dsimp only at hs
    split at hs
    · rename_i hrun
      exact h.run hrun.1 (hd e rfl) (Option.some.inj hs).symm
    · cases hs
  | raise vector errcodeValid errcode =>
    dsimp only at hs
    split at hs
    · rename_i hh
      cases hs
      exact h.raise hh vector errcodeValid errcode
    · cases hs
  | own op =>
    dsimp only at hs
    split at hs
    · rename_i hh
      obtain ⟨hpc, hfree⟩ := h.handled hh
      obtain ⟨c, hc, hgood⟩ := (Lapic.Good.withdrawn h.lapic).apply op
      rw [hc] at hs
      cases hs
      refine ⟨?_, .of_le id id⟩
      exact .of_idle hpc h.running h.kept h.blocks h.ctls hgood.inv h.exception
        (fun hv => absurd hv hfree) fun _ => hfree
    · cases hs
  | setRegs rip rflags clearIntrShadow =>
    dsimp only at hs
    split at hs
    · rename_i hh
      obtain ⟨hpc, hfree⟩ := h.handled hh
      cases hs
      refine ⟨?_, .of_le id id⟩
      exact .of_idle hpc h.running h.kept h.blocks h.ctls h.lapic h.exception
        (fun hv => absurd hv hfree) fun _ => hfree
    · cases hs
  | post p => exact h.post (Option.some.inj hs).symm
  | atpic v =>
    cases hs
    exact ⟨{ h with }, .of_le id id⟩

section Hypervisor
variable {hv : Vmcs → Exit → Prop} (hdoc : ∀ v e, hv v e → Documented v e)
include hdoc

theorem good_step {s t : State} {op : Op} (h : Good s) (hs : (system hv).step s op t) :
    Good t ∧ Clears s t := by
  obtain ⟨hok, hnext⟩ := hs
  refine h.next (fun e he => ?_) hnext
  subst he
  exact hdoc _ _ hok

theorem good_inductive : (system hv).Inductive Good where
  init _ hs := Initial.good hs
  step _ _ _ h hs := (good_step hdoc h hs).1

/-- In every run of a vCPU, whatever is posted to it and whichever entries are abandoned, no check
fails, no valid field is written over, each write is told to its source, and what was pending is
taken back by nothing else. If nothing was posted meanwhile, the guest is entered with the window
asked for that each pending event needs. -/
theorem injection_safe {s : State} (hr : (system hv).Reachable s) :
    s.aborted = none ∧ s.overwritten = false ∧ Blocks s.log ∧
      (∀ op t, (system hv).step s op t → Clears s t) ∧
      (s.pc = .ready → s.posted = false →
        (s.nmiPending = true → s.vmcs.priProcBasedCtls &&& nmiWindowExiting ≠ 0) ∧
        (s.extintPending = true ∨ (Lapic.vlapicPendingIntr s.vlapic).isSome = true →
          s.vmcs.priProcBasedCtls &&& intWindowExiting ≠ 0)) := by
  have h := (good_inductive hdoc).reachable hr
  refine ⟨h.running, h.kept, h.blocks, fun op t hs => (good_step hdoc h hs).2, fun hpc hp => ?_⟩
  have hq := h.quiet hp
  unfold Quiet at hq
  rw [hpc] at hq
  rw [← h.ctls]
  exact hq

end Hypervisor

def quietAtpic : Pic8259.Atpic where
  aeoi := false
  rotate := false
  sfn := false
  irqBase := 0x20
  request := 0
  service := 0
  mask := 0
  smm := false
  acnt := fun _ => 0
  lowprio := 7
  intrRaised := false
  irqBase_le := by decide

/-- A vCPU about to run for the first time, with interrupts disabled. -/
def freshVcpu : State where
  vmcs := ⟨0, 0, 0, 0x2, 0xfff0, 0⟩
  procCtls := 0
  nextrip := 0xfff0
  vlapic := Lapic.vlapicInit
  vatpic := ⟨quietAtpic, quietAtpic, fun _ => 0⟩
  exitintinfo := 0
  exceptionPending := false
  excVector := 0
  excErrcodeValid := false
  excErrcode := 0
  nmiPending := false
  extintPending := false
  tripleFault := false
  pc := .idle
  handling := false
  aborted := none
  overwritten := false
  posted := false
  log := []

theorem freshVcpu_initial : Initial freshVcpu :=
  ⟨rfl, rfl, rfl, by decide, rfl, rfl, rfl, rfl, rfl, rfl, rfl, rfl⟩

/-- An exit in the middle of the delivery of the NMI. -/
def nmiCutShort : Exit := ⟨.other, 0, 0x80000202, 0, 0, 0x2, 0xfff0⟩

theorem nmiCutShort_documented (v : Vmcs) : Documented v nmiCutShort where
  consumed := by decide
  intrWindow := nofun
  nmiWindow := nofun
  nmiUnblocked := nofun
  nmiBoundary := nofun
  idt _ := by decide

/-- An NMI is injected and the entry abandoned; an ExtINT comes in, the guest is entered, and the
exit brings the NMI back for the next entry. -/
def nmiTwice : List Op :=
  [.post .nmi, .begin, .step [], .step [], .step [], .abandon, .post .extint, .begin, .step [],
    .step [], .step [], .step [], .run nmiCutShort, .begin, .step [], .step [], .step []]

theorem injection_safe_nmi_twice : ∃ s, (system Documented).Reachable s ∧
    s.pc = .ready ∧ s.posted = false ∧ s.extintPending = true ∧
    s.log = [.write .intinfo, .nmiClear, .write .nmi] ∧ s.overwritten = false ∧
    s.vmcs.priProcBasedCtls &&& intWindowExiting ≠ 0 := by
  have hrun : (System.exec next freshVcpu nmiTwice).map
      (fun s => (s.pc, s.posted, s.extintPending, s.log)) =
        some (.ready, false, true, [.write .intinfo, .nmiClear, .write .nmi]) := by
    decide +kernel
  obtain ⟨s, hs, he⟩ := Option.map_eq_some_iff.mp hrun
  have hr : (system Documented).Reachable s := by
    refine System.exec_reachable_restrict ?_ (.init freshVcpu_initial) hs
    intro op hop s
    unfold nmiTwice at hop
    fin_cases hop <;> first | trivial | exact nmiCutShort_documented _
  have hpc : s.pc = .ready := congrArg (·.1) he
  have hp : s.posted = false := congrArg (·.2.1) he
  have hx : s.extintPending = true := congrArg (·.2.2.1) he
  have h := injection_safe (fun _ _ hd => hd) hr
  exact ⟨s, hr, hpc, hp, hx, congrArg (·.2.2.2) he, h.2.1,
    (h.2.2.2.2 hpc hp).2 (Or.inl hx)⟩

end Xhyve.Vmm.VmxInject
