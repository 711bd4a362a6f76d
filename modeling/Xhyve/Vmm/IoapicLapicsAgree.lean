import Xhyve.Vmm.IoapicLapicsParts

/-!
# A pin that waits has an EOI to wait for

A vCPU's trigger modes are those of the table, for every entry whose last write is through with it.
Where the entries that wait keep their vector and destinations, and what is sent is heard, each of
them has a vCPU that holds its vector as a level interrupt.
-/

namespace Xhyve.Vmm.IoapicLapics

open Xhyve.Lib
open Xhyve.Vmm.Ioapic
open Xhyve.Vmm.Lapic (Vlapic Vcpu OnlyRequests)
open Xhyve.Vmm.LapicDest

section Machine
variable (m : Machine)

/-! ## Trigger modes -/

section TriggerModes
variable (s : State) (vcpuid : Nat)

/-- What the entry of a pin does to the trigger modes. -/
theorem updateTmrPin_spec (l : Vlapic) (pin : Nat) :
    OnlyRequests l (updateTmrPin m s vcpuid l pin) ∧
      ∀ v, l.tmr.has v = true → (updateTmrPin m s vcpuid l pin).tmr.has v = true := by
  unfold updateTmrPin vlapicSetTmrLevel
  split
  · split
    · exact ⟨.rfl' l, fun v hv => hv⟩
    · split
      · refine ⟨.setTmr l _ true, fun v hv => ?_⟩
        show (l.tmr.set _).has v = true
        rw [BitWords.has_set (by decide), hv, Bool.or_true]
      · exact ⟨.rfl' l, fun v hv => hv⟩
  · exact ⟨.rfl' l, fun v hv => hv⟩

theorem updateTmr_foldl (pins : List Nat) (l : Vlapic) :
    OnlyRequests l (pins.foldl (updateTmrPin m s vcpuid) l) ∧
      ∀ v, l.tmr.has v = true → (pins.foldl (updateTmrPin m s vcpuid) l).tmr.has v = true := by
  induction pins generalizing l with
  | nil => exact ⟨.rfl' l, fun v hv => hv⟩
  | cons pin rest ih =>
    obtain ⟨hreq, htmr⟩ := updateTmrPin_spec m s vcpuid l pin
    obtain ⟨hreq', htmr'⟩ := ih (updateTmrPin m s vcpuid l pin)
    exact ⟨hreq.trans hreq', fun v hv => htmr' v (htmr v hv)⟩

theorem updateTmr_requests : OnlyRequests (s.vcpu vcpuid).lapic (vioapicUpdateTmr m s vcpuid) :=
  (Lapic.resetTmr _).trans (updateTmr_foldl m s vcpuid _ _).1

/-- The vectors of the level-triggered entries that go to the vCPU are level-triggered there. -/
theorem updateTmr_level {pin : Nat} (hpin : pin < redirEntries)
    (hlevel : isLevel (s.vioapic.rtbl pin).reg = true) (hlegal : Legal (s.vioapic.rtbl pin).reg)
    (hdest : (destOf m s.regs (intrOf (s.vioapic.rtbl pin).reg)).getLsbD vcpuid = true) :
    (vioapicUpdateTmr m s vcpuid).tmr.has
      (intrOf (s.vioapic.rtbl pin).reg).vector.toNat = true := by
  obtain ⟨pre, post, heq⟩ := List.append_of_mem (List.mem_range.mpr hpin)
  unfold vioapicUpdateTmr
  rw [heq, List.foldl_append, List.foldl_cons]
  apply (updateTmr_foldl m s vcpuid post _).2
  have hmode : ¬ ((intrOf (s.vioapic.rtbl pin).reg).delmode ≠ apicDelmodeFixed 32 ∧
      (intrOf (s.vioapic.rtbl pin).reg).delmode ≠ apicDelmodeLowprio 32) := by
    rw [not_and_or, not_not, not_not]
    exact hlegal.1
  unfold updateTmrPin vlapicSetTmrLevel
  rw [if_pos hlevel, if_neg hmode, if_pos hdest]
  show (BitWords.set _ _).has _ = true
  rw [BitWords.has_set (by decide), decide_eq_true rfl, Bool.true_or]

end TriggerModes

/-! ## The invariant -/

/-- `D` are the pins whose vector is just acknowledged. -/
structure Inv (D : Nat → Prop) (s : State) : Prop where
  legal : ∀ pin, Legal (s.vioapic.rtbl pin).reg ∨
    ((s.vioapic.rtbl pin).reg.getLsbD 16 = true ∧ (s.vioapic.rtbl pin).reg.getLsbD 14 = false)
  good : ∀ vcpuid, Lapic.Good (s.vcpu vcpuid)
  writers : ∀ writer w, s.window writer = some w → writer < vmMaxcpu
  /-- A vCPU that is through with the writes of an entry has its trigger mode. -/
  fresh : ∀ pin < redirEntries, isLevel (s.vioapic.rtbl pin).reg = true →
    Legal (s.vioapic.rtbl pin).reg →
    ∀ vcpuid, (targets m s.regs (intrOf (s.vioapic.rtbl pin).reg)).getLsbD vcpuid = true →
      (∀ writer w, s.window writer = some w → w.pin = pin → vcpuid ∉ w.todo) →
      (s.vcpu vcpuid).lapic.tmr.has (intrOf (s.vioapic.rtbl pin).reg).vector.toNat = true
  waits : ∀ pin < redirEntries, ¬ D pin → (s.vioapic.rtbl pin).reg.getLsbD 14 = true →
    isLevel (s.vioapic.rtbl pin).reg = true ∧
      (targets m s.regs (intrOf (s.vioapic.rtbl pin).reg) ≠ 0 →
        ∃ vcpuid, (targets m s.regs (intrOf (s.vioapic.rtbl pin).reg)).getLsbD vcpuid = true ∧
          Holds (s.vcpu vcpuid).lapic (intrOf (s.vioapic.rtbl pin).reg).vector.toNat)

section Invariant
variable {m} {s : State} {D P : Nat → Prop} {v : Vioapic}

theorem mem_targets {regs : Nat → DestRegs} {intr : Intr} {vcpuid : Nat}
    (h : (targets m regs intr).getLsbD vcpuid = true) :
    vcpuid < vmMaxcpu ∧ m.active.getLsbD vcpuid = true ∧
      (destOf m regs intr).getLsbD vcpuid = true := by
  unfold targets at h
  rw [BitVec.getLsbD_and, Bool.and_eq_true] at h
  exact ⟨m.active_lt vcpuid h.1, h⟩

theorem deliverAll_receives (s : State) (v : Vioapic) (vcpuid : Nat) :
    Receives (s.vcpu vcpuid) ((deliverAll m s v).vcpu vcpuid) :=
  foldl_receives (applyEvent_receives m s.regs) _ s.vcpu vcpuid

/-- What a pin sends is held where it is heard. -/
theorem Inv.sent_holds (h : Inv m D s) {pin : Nat} (hpin : pin < redirEntries)
    (hlevel : isLevel (s.vioapic.rtbl pin).reg = true) (hlegal : Legal (s.vioapic.rtbl pin).reg)
    (hsent : .deliver pin (intrOf (s.vioapic.rtbl pin).reg) ∈ v.trace) {vcpuid : Nat}
    (htarget : (targets m s.regs (intrOf (s.vioapic.rtbl pin).reg)).getLsbD vcpuid = true)
    (hen : enabled (s.vcpu vcpuid).lapic)
    (hdone : ∀ writer w, s.window writer = some w → w.pin = pin → vcpuid ∉ w.todo) :
    Holds ((deliverAll m s v).vcpu vcpuid).lapic
      (intrOf (s.vioapic.rtbl pin).reg).vector.toNat where
  held := by
    obtain ⟨hlt, _, hdest⟩ := mem_targets htarget
    exact Or.inl (foldl_requests (applyEvent_receives m s.regs) (List.mem_reverse.mpr hsent)
      (fun vcpu hvcpu => deliver_requests m s.regs hlegal hlt hdest pin hvcpu) hen)
  tmr := by
    rw [(deliverAll_receives s v vcpuid).tmr]
    exact h.fresh pin hpin hlevel hlegal vcpuid htarget hdone

/-- Sending what is heard keeps the invariant, and settles the pins that were acknowledged. -/
theorem Inv.deliver (h : Inv m D s) (hflow : Flow P s.vioapic v) (hempty : s.vioapic.trace = [])
    (hacked : ∀ pin < redirEntries, D pin → (v.rtbl pin).reg.getLsbD 14 = true →
      isLevel (s.vioapic.rtbl pin).reg = true ∧
        .deliver pin (intrOf (s.vioapic.rtbl pin).reg) ∈ v.trace)
    (hheard : ∀ pin < redirEntries, P pin → (s.vioapic.rtbl pin).reg.getLsbD 16 = false →
      isLevel (s.vioapic.rtbl pin).reg = true →
      targets m s.regs (intrOf (s.vioapic.rtbl pin).reg) ≠ 0 →
      ∃ vcpuid, (targets m s.regs (intrOf (s.vioapic.rtbl pin).reg)).getLsbD vcpuid = true ∧
        enabled (s.vcpu vcpuid).lapic ∧
        ∀ writer w, s.window writer = some w → w.pin = pin → vcpuid ∉ w.todo) :
    Inv m (fun _ => False) (deliverAll m s v) := by
  have hintr : ∀ pin, intrOf (v.rtbl pin).reg = intrOf (s.vioapic.rtbl pin).reg :=
    fun pin => (hflow.same pin).intrOf_eq
  have hsent : ∀ pin intr, .deliver pin intr ∈ v.trace →
      P pin ∧ (s.vioapic.rtbl pin).reg.getLsbD 16 = false := by
    intro pin intr hmem
    rcases hflow.sent pin intr hmem with hold | ⟨hP, hmask, _⟩
    · rw [hempty] at hold
      cases hold
    · exact ⟨hP, hmask⟩
  -- An unmasked pin is one the guest has set up.
  have hlegal : ∀ pin, (s.vioapic.rtbl pin).reg.getLsbD 16 = false →
      Legal (s.vioapic.rtbl pin).reg := by
    intro pin hmask
    refine (h.legal pin).resolve_right fun hm => ?_
    rw [hmask] at hm
    cases hm.1
  refine ⟨fun pin => ?_, fun vcpuid => (deliverAll_receives s v vcpuid).good (h.good vcpuid),
    h.writers, fun pin hpin hlevel hleg vcpuid => ?_, fun pin hpin _ hset => ?_⟩
  · show Legal (v.rtbl pin).reg ∨ _
    rw [legal_congr (hintr pin)]
    refine (h.legal pin).imp_right fun ⟨hmask, hirr⟩ => ?_
    refine ⟨(hflow.same pin 16 (by decide)).trans hmask, ?_⟩
    cases hset : (v.rtbl pin).reg.getLsbD 14 with
    | false => exact hset
    | true =>
      rcases hflow.raised pin hset with hbefore | ⟨_, hmem⟩
      · rw [hirr] at hbefore
        cases hbefore
      · rw [(hsent _ _ hmem).2] at hmask
        cases hmask
  · change isLevel (v.rtbl pin).reg = true at hlevel
    change Legal (v.rtbl pin).reg at hleg
    show (targets m s.regs (intrOf (v.rtbl pin).reg)).getLsbD vcpuid = true → _ →
      ((deliverAll m s v).vcpu vcpuid).lapic.tmr.has (intrOf (v.rtbl pin).reg).vector.toNat = true
    rw [(hflow.same pin).isLevel_eq] at hlevel
    rw [legal_congr (hintr pin)] at hleg
    rw [hintr, (deliverAll_receives s v vcpuid).tmr]
    exact h.fresh pin hpin hlevel hleg vcpuid
  · change (v.rtbl pin).reg.getLsbD 14 = true at hset
    show isLevel (v.rtbl pin).reg = true ∧ (targets m s.regs (intrOf (v.rtbl pin).reg) ≠ 0 →
      ∃ vcpuid, (targets m s.regs (intrOf (v.rtbl pin).reg)).getLsbD vcpuid = true ∧
        Holds ((deliverAll m s v).vcpu vcpuid).lapic (intrOf (v.rtbl pin).reg).vector.toNat)
    rw [(hflow.same pin).isLevel_eq, hintr]
    have hcases : (¬ D pin ∧ (s.vioapic.rtbl pin).reg.getLsbD 14 = true) ∨
        (isLevel (s.vioapic.rtbl pin).reg = true ∧
          .deliver pin (intrOf (s.vioapic.rtbl pin).reg) ∈ v.trace) := by
      by_cases hD : D pin
      · exact Or.inr (hacked pin hpin hD hset)
      · exact (hflow.raised pin hset).imp_left fun hbefore => ⟨hD, hbefore⟩
    rcases hcases with ⟨hD, hbefore⟩ | ⟨hlevel, hmem⟩
    · obtain ⟨hlevel, hholder⟩ := h.waits pin hpin hD hbefore
      refine ⟨hlevel, fun htargets => ?_⟩
      obtain ⟨vcpuid, htarget, hholds⟩ := hholder htargets
      exact ⟨vcpuid, htarget, (deliverAll_receives s v vcpuid).holds hholds⟩
    · refine ⟨hlevel, fun htargets => ?_⟩
      obtain ⟨hP, hmask⟩ := hsent _ _ hmem
      obtain ⟨vcpuid, htarget, hen, hdone⟩ := hheard pin hpin hP hmask hlevel htargets
      exact ⟨vcpuid, htarget,
        h.sent_holds hpin hlevel (hlegal pin hmask) hmem htarget hen hdone⟩

/-! ## Steps -/

/-- The state in which the I/O APIC's part of an operation takes place. -/
def before (s t : State) (op : Op) : State := { t with vioapic := written s op }

theorem next_some {s' : State} {op : Op} (h : next m s op = some s') :
    ∃ t, lapicPart m s op = some t ∧ s' = deliverAll m (before s t op) (ioapicPart s op) := by
  obtain ⟨t, ht, heq⟩ := Option.map_eq_some_iff.mp h
  exact ⟨t, ht, heq.symm⟩

/-- An operation that writes no entry. -/
theorem Inv.unwritten {t : State} {op : Op} (h : Inv m D t) (ht : t.vioapic = s.vioapic)
    (hop : entryWrite s op = none) : Inv m D (before s t op) := by
  unfold before
  rw [written_none hop, ← ht]
  exact ⟨h.legal, h.good, h.writers, h.fresh, h.waits⟩

abbrev Kept (m : Machine) (s : State) : Prop := Inv m (fun _ => False) s

theorem Inv.legal_of_remIrr (h : Inv m D s) {pin : Nat}
    (hirr : (s.vioapic.rtbl pin).reg.getLsbD 14 = true) : Legal (s.vioapic.rtbl pin).reg := by
  refine (h.legal pin).resolve_right fun hno => ?_
  rw [hirr] at hno
  cases hno.2

/-- What is sent is heard also after the local APICs' part, where that keeps them enabled and
opens no write. -/
theorem heard_before {t : State} {op : Op} (h : Kept m s) (hm : Meets m s op)
    (hregs : t.regs = s.regs)
    (hen : ∀ vcpuid, enabled (s.vcpu vcpuid).lapic → enabled (t.vcpu vcpuid).lapic)
    (hwin : ∀ pin, Triggers s op pin → ∀ writer w, t.window writer = some w →
      s.window writer = some w) :
    ∀ pin < redirEntries, Triggers s op pin →
      ((before s t op).vioapic.rtbl pin).reg.getLsbD 16 = false →
      isLevel ((before s t op).vioapic.rtbl pin).reg = true →
      targets m (before s t op).regs (intrOf ((before s t op).vioapic.rtbl pin).reg) ≠ 0 →
      ∃ vcpuid, (targets m (before s t op).regs
          (intrOf ((before s t op).vioapic.rtbl pin).reg)).getLsbD vcpuid = true ∧
        enabled ((before s t op).vcpu vcpuid).lapic ∧
        ∀ writer w, (before s t op).window writer = some w → w.pin = pin → vcpuid ∉ w.todo := by
  intro pin hpin htrig hmask hlevel htargets
  change targets m t.regs (intrOf (entryAfter s op pin)) ≠ 0 at htargets
  show ∃ vcpuid, (targets m t.regs (intrOf (entryAfter s op pin))).getLsbD vcpuid = true ∧ _
  rw [hregs] at htargets ⊢
  obtain ⟨⟨vcpuid, _, htarget, henabled⟩, hdone⟩ :=
    hm.heard pin hpin ⟨hmask, htrig⟩ hlevel htargets
  refine ⟨vcpuid, htarget, hen vcpuid henabled, fun writer w hw hwpin hmem => hdone ?_⟩
  have hs := hwin pin htrig writer w hw
  exact ⟨writer, h.writers writer w hs, w, hs, hwpin, List.ne_nil_of_mem hmem⟩

/-- An operation after whose first part the invariant holds, and that acknowledges nothing. -/
theorem Inv.next_heard {t : State} {op : Op} (h : Kept m s) (hm : Meets m s op)
    (hbefore : Kept m (before s t op)) (hregs : t.regs = s.regs)
    (hen : ∀ vcpuid, enabled (s.vcpu vcpuid).lapic → enabled (t.vcpu vcpuid).lapic)
    (hwin : ∀ pin, Triggers s op pin → ∀ writer w, t.window writer = some w →
      s.window writer = some w) :
    Kept m (deliverAll m (before s t op) (ioapicPart s op)) :=
  hbefore.deliver (ioapicPart_flow s op) rfl (fun _ _ hD _ => hD.elim)
    (heard_before h hm hregs hen hwin)

/-- An operation that sends nothing. -/
theorem Inv.next_quiet {t : State} {op : Op} (hbefore : Kept m (before s t op))
    (hquiet : ∀ pin, ¬ Triggers s op pin) :
    Kept m (deliverAll m (before s t op) (ioapicPart s op)) :=
  hbefore.deliver (ioapicPart_flow s op) rfl (fun _ _ hD _ => hD.elim)
    fun pin _ htrig => absurd htrig (hquiet pin)

theorem Inv.writers_update (h : Inv m D s) {writer : Nat} (hlt : writer < vmMaxcpu)
    (o : Option Window) :
    ∀ i w, Function.update s.window writer o i = some w → i < vmMaxcpu := by
  intro i w hi
  by_cases heq : i = writer
  · rw [heq]
    exact hlt
  · rw [Function.update_of_ne heq] at hi
    exact h.writers i w hi

theorem Inv.good_update (h : Inv m D s) {vcpuid : Nat} {c : Vcpu} (hc : Lapic.Good c) :
    ∀ i, Lapic.Good (Function.update s.vcpu vcpuid c i) := by
  intro i
  by_cases heq : i = vcpuid
  · rw [heq, Function.update_self]
    exact hc
  · rw [Function.update_of_ne heq]
    exact h.good i

theorem Inv.updateTmr (h : Kept m s) {writer : Nat} {w : Window} (vcpuid : Nat)
    (hw : s.window writer = some w) :
    Kept m { s.setLapic vcpuid (vioapicUpdateTmr m s vcpuid) with
      window := Function.update s.window writer (some { w with todo := w.todo.erase vcpuid }) } where
  legal := h.legal
  good := h.good_update ((h.good vcpuid).onlyRequests (updateTmr_requests m s vcpuid))
  writers := h.writers_update (h.writers writer w hw) _
  fresh pin hpin hlevel hlegal i htarget hdone := by
    show (Function.update s.vcpu vcpuid _ i).lapic.tmr.has _ = true
    by_cases hi : i = vcpuid
    · subst hi
      rw [Function.update_self]
      exact updateTmr_level m s i hpin hlevel hlegal (mem_targets htarget).2.2
    · rw [Function.update_of_ne hi]
      refine h.fresh pin hpin hlevel hlegal i htarget fun j wj hj hjpin hmem => ?_
      -- The vCPU that is through is another one.
      by_cases heq : j = writer
      · subst heq
        obtain rfl : w = wj := Option.some.inj (hw.symm.trans hj)
        exact hdone j _ (Function.update_self ..) hjpin ((List.mem_erase_of_ne hi).mpr hmem)
      · exact hdone j wj ((Function.update_of_ne heq ..).trans hj) hjpin hmem
  waits pin hpin hD hirr := by
    obtain ⟨hlevel, hholder⟩ := h.waits pin hpin hD hirr
    refine ⟨hlevel, fun htargets => ?_⟩
    obtain ⟨i, htarget, hholds⟩ := hholder htargets
    refine ⟨i, htarget, ?_⟩
    show Holds (Function.update s.vcpu vcpuid _ i).lapic _
    by_cases hi : i = vcpuid
    · subst hi
      rw [Function.update_self]
      have hreq := updateTmr_requests m s i
      exact ⟨hholds.held.imp (hreq.keeps _) fun hisr => by rwa [hreq.isr],
        updateTmr_level m s i hpin hlevel (h.legal_of_remIrr hirr) (mem_targets htarget).2.2⟩
    · rw [Function.update_of_ne hi]
      exact hholds

theorem Inv.finishWrite (h : Kept m s) {writer : Nat} {w : Window} (hw : s.window writer = some w)
    (hdone : w.todo = []) :
    Kept m { s with window := Function.update s.window writer none } where
  legal := h.legal
  good := h.good
  writers := h.writers_update (h.writers writer w hw) none
  fresh pin hpin hlevel hlegal i htarget hall := by
    refine h.fresh pin hpin hlevel hlegal i htarget fun j wj hj hjpin => ?_
    by_cases heq : j = writer
    · subst heq
      obtain rfl : w = wj := Option.some.inj (hw.symm.trans hj)
      rw [hdone]
      exact List.not_mem_nil
    · exact hall j wj ((Function.update_of_ne heq ..).trans hj) hjpin
  waits := h.waits

/-- A local APIC's own operation. -/
theorem Inv.setVcpu (h : Kept m s) {vcpuid : Nat} {c : Vcpu} (hgood : Lapic.Good c)
    (htmr : c.lapic.tmr = (s.vcpu vcpuid).lapic.tmr)
    (hholds : ∀ pin < redirEntries, ¬ D pin → (s.vioapic.rtbl pin).reg.getLsbD 14 = true →
      Holds (s.vcpu vcpuid).lapic (intrOf (s.vioapic.rtbl pin).reg).vector.toNat →
      Holds c.lapic (intrOf (s.vioapic.rtbl pin).reg).vector.toNat) :
    Inv m D { s with vcpu := Function.update s.vcpu vcpuid c } where
  legal := h.legal
  good := h.good_update hgood
  writers := h.writers
  fresh pin hpin hlevel hlegal i htarget hdone := by
    have hfresh := h.fresh pin hpin hlevel hlegal i htarget hdone
    show (Function.update s.vcpu vcpuid c i).lapic.tmr.has _ = true
    by_cases hi : i = vcpuid
    · subst hi
      rw [Function.update_self, htmr]
      exact hfresh
    · rw [Function.update_of_ne hi]
      exact hfresh
  waits pin hpin hD hirr := by
    obtain ⟨hlevel, hholder⟩ := h.waits pin hpin id hirr
    refine ⟨hlevel, fun htargets => ?_⟩
    obtain ⟨i, htarget, hi⟩ := hholder htargets
    refine ⟨i, htarget, ?_⟩
    show Holds (Function.update s.vcpu vcpuid c i).lapic _
    by_cases heq : i = vcpuid
    · subst heq
      rw [Function.update_self]
      exact hholds pin hpin hD hirr hi
    · rw [Function.update_of_ne heq]
      exact hi

theorem Inv.setRegs (h : Kept m s) {regs : Nat → DestRegs}
    (hsame : ∀ pin < redirEntries, isLevel (s.vioapic.rtbl pin).reg = true →
      targets m regs (intrOf (s.vioapic.rtbl pin).reg) =
        targets m s.regs (intrOf (s.vioapic.rtbl pin).reg)) :
    Kept m { s with regs := regs } where
  legal := h.legal
  good := h.good
  writers := h.writers
  fresh pin hpin hlevel hlegal i htarget := by
    change (targets m regs (intrOf (s.vioapic.rtbl pin).reg)).getLsbD i = true at htarget
    rw [hsame pin hpin hlevel] at htarget
    exact h.fresh pin hpin hlevel hlegal i htarget
  waits pin hpin hD hirr := by
    have hwaits := h.waits pin hpin hD hirr
    refine ⟨hwaits.1, ?_⟩
    show targets m regs (intrOf (s.vioapic.rtbl pin).reg) ≠ 0 → ∃ i,
      (targets m regs (intrOf (s.vioapic.rtbl pin).reg)).getLsbD i = true ∧ _
    rw [hsame pin hpin hwaits.1]
    exact hwaits.2

/-- A write of the lower half sets the vector and the delivery mode, one of the upper leaves them. -/
theorem entryAfter_legal {writer size : Nat} {gpa wval : BitVec 64}
    (hlegal : Considered s (.mmioWrite writer gpa wval size)) {pin : Nat}
    (h : Legal (s.vioapic.rtbl pin).reg ∨
      ((s.vioapic.rtbl pin).reg.getLsbD 16 = true ∧ (s.vioapic.rtbl pin).reg.getLsbD 14 = false)) :
    Legal (entryAfter s (.mmioWrite writer gpa wval size) pin) ∨
      ((entryAfter s (.mmioWrite writer gpa wval size) pin).getLsbD 16 = true ∧
        (entryAfter s (.mmioWrite writer gpa wval size) pin).getLsbD 14 = false) := by
  cases hw : entryWrite s (.mmioWrite writer gpa wval size) with
  | none =>
    simp only [entryAfter, hw]
    exact h
  | some w =>
    by_cases hpin : w.pin = pin
    · subst hpin
      rcases (mmioWrite_some hw s.vioapic rfl).2.1 with hlow | hhigh
      · exact Or.inl (hlegal w hw hlow)
      · simp only [entryAfter, hw, if_true, hhigh]
        rw [legal_writeHalf_high, writeHalf_high_bit _ _ (by decide),
          writeHalf_high_bit _ _ (by decide)]
        exact h
    · simp only [entryAfter, hw, if_neg hpin]
      exact h

theorem Inv.mmioWrite (h : Kept m s) {writer size : Nat} {gpa wval : BitVec 64}
    (hlegal : Considered s (.mmioWrite writer gpa wval size))
    (hm : Undisturbed m s (.mmioWrite writer gpa wval size))
    (hactive : m.active.getLsbD writer = true) (hfree : s.window writer = none) {o : Option Window}
    (ho : ∀ pin, intrOf (entryAfter s (.mmioWrite writer gpa wval size) pin) ≠
        intrOf (s.vioapic.rtbl pin).reg → o = some ⟨pin, WordSet.visit 64 m.active⟩) :
    Kept m { s with
      vioapic := written s (.mmioWrite writer gpa wval size)
      window := Function.update s.window writer o } where
  legal pin := entryAfter_legal hlegal (h.legal pin)
  good := h.good
  writers := h.writers_update (m.active_lt writer hactive) o
  fresh pin hpin hlevel hleg i htarget hdone := by
    change isLevel (entryAfter s (.mmioWrite writer gpa wval size) pin) = true at hlevel
    change Legal (entryAfter s (.mmioWrite writer gpa wval size) pin) at hleg
    change (targets m s.regs
      (intrOf (entryAfter s (.mmioWrite writer gpa wval size) pin))).getLsbD i = true at htarget
    show (s.vcpu i).lapic.tmr.has
      (intrOf (entryAfter s (.mmioWrite writer gpa wval size) pin)).vector.toNat = true
    by_cases hintr : intrOf (entryAfter s (.mmioWrite writer gpa wval size) pin) =
        intrOf (s.vioapic.rtbl pin).reg
    · rw [hintr] at htarget ⊢
      rw [legal_congr hintr] at hleg
      have hlev : isLevel (s.vioapic.rtbl pin).reg = true :=
        (congrArg Intr.level hintr).symm.trans hlevel
      refine h.fresh pin hpin hlev hleg i htarget fun j wj hj => ?_
      apply hdone j wj
      show Function.update s.window writer o j = some wj
      rw [Function.update_of_ne]
      · exact hj
      · intro heq
        rw [heq, hfree] at hj
        cases hj
    -- A new entry has yet to come to every active vCPU.
    · have hmem : i ∈ WordSet.visit 64 m.active := by
        rw [WordSet.visit_width, WordSet.mem_elems]
        exact (mem_targets htarget).2.1
      exact absurd hmem (hdone writer _ ((Function.update_self ..).trans (ho pin hintr)) rfl)
  waits pin hpin hD hirr := by
    change (entryAfter s (.mmioWrite writer gpa wval size) pin).getLsbD 14 = true at hirr
    rw [entryAfter_remIrr] at hirr
    have hne : (s.vioapic.rtbl pin).reg &&& ioartRemIrr 64 ≠ 0 := by
      rw [Ne, remIrr_iff, hirr]
      exact Bool.noConfusion
    obtain ⟨hlevel, hvec, htargets⟩ := hm pin hpin hne
    have hwaits := h.waits pin hpin hD hirr
    show isLevel (entryAfter s (.mmioWrite writer gpa wval size) pin) = true ∧
      (targets m s.regs (intrOf (entryAfter s (.mmioWrite writer gpa wval size) pin)) ≠ 0 → ∃ i,
        (targets m s.regs (intrOf (entryAfter s (.mmioWrite writer gpa wval size) pin))).getLsbD i =
            true ∧
          Holds (s.vcpu i).lapic
            (intrOf (entryAfter s (.mmioWrite writer gpa wval size) pin)).vector.toNat)
    rw [hlevel, hvec, htargets]
    exact hwaits

/-- The rendezvous is for the entry that describes another interrupt now; where the pin is sent at
once there is none. -/
theorem opened_spec (s : State) (writer : Nat) (gpa wval : BitVec 64) (size : Nat) :
    (∀ pin, intrOf (entryAfter s (.mmioWrite writer gpa wval size) pin) ≠
        intrOf (s.vioapic.rtbl pin).reg →
      (vioapicMmioWrite { s.vioapic with trace := [] } gpa wval size).2 = some pin) ∧
    ∀ pin, Triggers s (.mmioWrite writer gpa wval size) pin →
      (vioapicMmioWrite { s.vioapic with trace := [] } gpa wval size).2 = none := by
  cases hw : entryWrite s (.mmioWrite writer gpa wval size) with
  | none =>
    constructor
    · intro pin hintr
      simp only [entryAfter, hw] at hintr
      exact absurd rfl hintr
    · intro pin htrig
      obtain ⟨⟨w, hmem, _⟩, _⟩ := htrig
      rw [hw] at hmem
      cases hmem
  | some w =>
    obtain ⟨_, _, heq⟩ := mmioWrite_some hw { s.vioapic with trace := [] } rfl
    have hafter : entryAfter s (.mmioWrite writer gpa wval size) w.pin =
        writeHalf (s.vioapic.rtbl w.pin).reg w.lshift w.data := by
      simp only [entryAfter, hw, if_true]
    constructor
    · intro pin hintr
      by_cases hpin : w.pin = pin
      · subst hpin
        rw [hafter] at hintr
        rw [heq, if_pos]
        intro hsame
        exact hintr (sameIntr_of_unchanged hsame).intrOf_eq.symm
      · simp only [entryAfter, hw, if_neg hpin] at hintr
        exact absurd rfl hintr
    · intro pin htrig
      obtain ⟨⟨w', hmem, hpin⟩, hsame, _⟩ := htrig
      obtain rfl : w = w' := Option.some.inj (hw.symm.trans hmem)
      subst hpin
      rw [hafter] at hsame
      rw [heq, if_neg (not_not.mpr hsame)]

/-- A pin's state changes neither the entries nor the local APICs. -/
theorem Inv.pinState (h : Kept m s) {op : Op} (hm : Meets m s op) (hop : entryWrite s op = none) :
    Kept m (deliverAll m (before s s op) (ioapicPart s op)) :=
  h.next_heard hm (h.unwritten rfl hop) rfl (fun _ hen => hen) fun _ _ _ _ hw => hw

theorem Inv.eoi (h : Kept m s) {vcpuid : Nat} (hm : Meets m s (.eoi vcpuid)) {c : Vcpu}
    (hc : Lapic.apply (s.vcpu vcpuid) .eoi = .ok c) (hgood : Lapic.Good c) :
    Kept m (deliverAll m
      (before s { s with vcpu := Function.update s.vcpu vcpuid c } (.eoi vcpuid))
      (ioapicPart s (.eoi vcpuid))) := by
  obtain ⟨hmodes, hkeeps⟩ := eoi_keeps hc
  -- The pins of the vector that is passed on are the ones to be settled.
  have hbefore : Inv m
      (fun pin => eoiVector (s.vcpu vcpuid).lapic =
        some (intrOf (s.vioapic.rtbl pin).reg).vector.toNat)
      { s with vcpu := Function.update s.vcpu vcpuid c } := by
    refine h.setVcpu hgood hmodes.tmr fun pin _ hD _ hholds => ?_
    refine (hkeeps _ hholds).resolve_right fun hhighest => hD ?_
    exact eoiVector_eq (h.good vcpuid).inv hhighest hholds.tmr
  have hunwritten : Inv m _
      (before s { s with vcpu := Function.update s.vcpu vcpuid c } (.eoi vcpuid)) :=
    hbefore.unwritten rfl rfl
  refine hunwritten.deliver (ioapicPart_flow s (.eoi vcpuid)) rfl (fun pin hpin hD => ?_)
    (heard_before h hm rfl (fun i hen => ?_) fun _ _ _ _ hw => hw)
  · simp only [ioapicPart, hD]
    apply (processEoi_pin _ { s.vioapic with trace := [] } hpin _).1
    rw [eoi_vector_iff, Nat.mod_eq_of_lt (eoiVector_some hD).2.1]
  · show enabled (Function.update s.vcpu vcpuid c i).lapic
    by_cases hi : i = vcpuid
    · subst hi
      rw [Function.update_self]
      unfold enabled
      rw [hmodes.svr]
      exact hen
    · rw [Function.update_of_ne hi]
      exact hen

theorem next_kept {s' : State} {op : Op} (h : Kept m s) (hlegal : Considered s op)
    (hm : Meets m s op) (hs : next m s op = some s') : Kept m s' := by
  obtain ⟨t, ht, rfl⟩ := next_some hs
  cases op with
  | assertIrq irq =>
    obtain rfl := Option.some.inj ht
    exact h.pinState hm rfl
  | deassertIrq irq =>
    obtain rfl := Option.some.inj ht
    exact h.pinState hm rfl
  | pulseIrq irq =>
    obtain rfl := Option.some.inj ht
    exact h.pinState hm rfl
  | mmioWrite writer gpa wval size =>
    simp only [lapicPart] at ht
    split at ht
    · rename_i hcond
      obtain ⟨hactive, hidle⟩ := hcond
      have hfree : s.window writer = none := Option.isNone_iff_eq_none.mp hidle
      obtain rfl := Option.some.inj ht
      obtain ⟨hopened, hnone⟩ := opened_spec s writer gpa wval size
      refine h.next_heard hm (h.mmioWrite hlegal hm.undisturbed hactive hfree fun pin hintr => ?_)
        rfl (fun _ hen => hen) fun pin htrig i w hi => ?_
      · rw [hopened pin hintr]
        rfl
      · change Function.update s.window writer _ i = some w at hi
        rwa [hnone pin htrig, Option.map_none, ← hfree, Function.update_eq_self] at hi
    · cases ht
  | updateTmr writer vcpuid =>
    simp only [lapicPart] at ht
    split at ht
    · rename_i w hw
      split at ht
      · obtain rfl := Option.some.inj ht
        exact Inv.next_quiet ((h.updateTmr vcpuid hw).unwritten rfl rfl) fun _ => id
      · cases ht
    · cases ht
  | finishWrite writer =>
    simp only [lapicPart] at ht
    split at ht
    · rename_i w hw
      split at ht
      · rename_i hdone
        obtain rfl := Option.some.inj ht
        refine h.next_heard hm ((h.finishWrite hw hdone).unwritten rfl rfl) rfl
          (fun _ hen => hen) fun _ _ i wi hi => ?_
        change Function.update s.window writer none i = some wi at hi
        by_cases heq : i = writer
        · rw [heq, Function.update_self] at hi
          cases hi
        · rwa [Function.update_of_ne heq] at hi
      · cases ht
    · cases ht
  | lapic vcpuid op =>
    simp only [lapicPart] at ht
    split at ht
    · cases ht
    · cases ht
    · rename_i heoi htmr
      split at ht
      · rename_i c hc
        obtain rfl := Option.some.inj ht
        have hkeeps := lapic_keeps heoi htmr hc
        obtain ⟨d, hd, hgood⟩ := (h.good vcpuid).apply op
        obtain rfl : d = c := Except.ok.inj (hd.symm.trans hc)
        have hk : Kept m _ := h.setVcpu hgood hkeeps.tmr fun _ _ _ _ => hkeeps.holds
        exact Inv.next_quiet (hk.unwritten rfl rfl) fun _ => id
      · cases ht
  | eoi vcpuid =>
    simp only [lapicPart] at ht
    split at ht
    · rename_i c hc
      obtain rfl := Option.some.inj ht
      obtain ⟨d, hd, hgood⟩ := (h.good vcpuid).apply .eoi
      obtain rfl : d = c := Except.ok.inj (hd.symm.trans hc)
      exact h.eoi hm hc hgood
    · cases ht
  | ldrWrite vcpuid data =>
    obtain rfl := Option.some.inj ht
    exact Inv.next_quiet ((h.setRegs hm.sameTargets).unwritten rfl rfl) fun _ => id
  | dfrWrite vcpuid data =>
    obtain rfl := Option.some.inj ht
    exact Inv.next_quiet ((h.setRegs hm.sameTargets).unwritten rfl rfl) fun _ => id

/-! ## Whole runs -/

theorem start_kept (x2apic : Bool) : Kept m (start x2apic) := by
  have hreg : ∀ pin, ((start x2apic).vioapic.rtbl pin).reg = 0x0001000000010000 := fun _ => rfl
  constructor
  · intro pin
    rw [hreg]
    exact Or.inr (by decide)
  · exact fun _ => .withdrawn Lapic.vlapicInit_inv
  · intro writer w hw
    cases hw
  · intro pin _ hlevel
    rw [hreg] at hlevel
    exact absurd hlevel (by decide)
  · intro pin _ _ hirr
    rw [hreg] at hirr
    exact absurd hirr (by decide)

theorem kept_inductive : ((system m).restrict (Meets m)).Inductive (Kept m) where
  init s hs := by
    obtain ⟨x2apic, rfl⟩ := hs
    exact start_kept x2apic
  step _ _ _ h hs := next_kept h hs.2.1 hs.1 hs.2.2

theorem Inv.acknowledges (h : Kept m s) {pin vcpuid : Nat} (hpin : pin < redirEntries)
    (hirr : (s.vioapic.rtbl pin).reg &&& ioartRemIrr 64 ≠ 0)
    (hholds : Holds (s.vcpu vcpuid).lapic (intrOf (s.vioapic.rtbl pin).reg).vector.toNat)
    (hturn : (s.vcpu vcpuid).lapic.isr.highest 8 =
      some (intrOf (s.vioapic.rtbl pin).reg).vector.toNat) : Acknowledges m s vcpuid pin := by
  have hvector := eoiVector_eq (h.good vcpuid).inv hturn hholds.tmr
  obtain ⟨c, hc, _⟩ := (h.good vcpuid).apply .eoi
  constructor
  · simp only [next, lapicPart, hc, Option.map_some]
    exact ⟨_, rfl⟩
  · simp only [ioapicPart, hvector]
    apply (processEoi_pin _ { s.vioapic with trace := [] } hpin _).2 hirr
    rw [eoi_vector_iff, Nat.mod_eq_of_lt (highest_some hturn).1]

/-- In every run in which writes to an entry that waits keep its trigger mode, vector and
destinations, new logical addresses keep those of the level-triggered entries, and what is sent is
heard, every pin that waits for an EOI has one to wait for. -/
theorem ioapic_lapics_agree (m : Machine) (s : State)
    (h : ((system m).restrict (Meets m)).Reachable s) : Agreed m s := by
  have hkept := kept_inductive.reachable h
  intro pin hpin hirr htargets
  have hbit : (s.vioapic.rtbl pin).reg.getLsbD 14 = true := by
    rwa [Ne, remIrr_iff, Bool.not_eq_false] at hirr
  obtain ⟨hlevel, hholder⟩ := hkept.waits pin hpin id hbit
  obtain ⟨vcpuid, htarget, hholds⟩ := hholder htargets
  exact ⟨hlevel, vcpuid, (mem_targets htarget).1, hholds, hkept.acknowledges hpin hirr hholds⟩

end Invariant

end Machine

/-! ## Runs that agree and runs that do not -/

instance (s : State) (op : Op) : Decidable (Considered s op) :=
  inferInstanceAs (Decidable (∀ w ∈ entryWrite s op, _))

instance (l : Vlapic) (vector : Nat) : Decidable (Holds l vector) :=
  decidable_of_iff ((l.irr.has vector = true ∨ l.isr.has vector = true) ∧ l.tmr.has vector = true)
    ⟨fun h => ⟨h.1, h.2⟩, fun h => ⟨h.held, h.tmr⟩⟩

instance (l : Vlapic) : Decidable (enabled l) := inferInstanceAs (Decidable (_ ≠ _))

instance (s : State) (pin : Nat) : Decidable (underWay s pin) :=
  inferInstanceAs (Decidable (∃ writer < vmMaxcpu, ∃ w ∈ s.window writer, _))

instance (s : State) (op : Op) (pin : Nat) : Decidable (Triggers s op pin) :=
  match op with
  | .assertIrq _ | .pulseIrq _ => inferInstanceAs (Decidable (_ ∧ _))
  | .mmioWrite .. | .finishWrite _ => inferInstanceAs (Decidable ((∃ w ∈ _, _) ∧ _))
  | .eoi _ => inferInstanceAs (Decidable (_ ∧ _))
  | .deassertIrq _ | .updateTmr .. | .lapic .. | .ldrWrite .. | .dfrWrite .. =>
    inferInstanceAs (Decidable False)

instance (s : State) (op : Op) (pin : Nat) : Decidable (Sends s op pin) :=
  inferInstanceAs (Decidable (_ ∧ _))

instance (m : Machine) (s : State) (op : Op) (pin : Nat) : Decidable (HeardAt m s op pin) :=
  inferInstanceAs (Decidable (_ → _ → _ → (∃ vcpuid < vmMaxcpu, _) ∧ _))

instance (m : Machine) (s : State) (op : Op) : Decidable (Meets m s op) :=
  have : Decidable (Undisturbed m s op) := inferInstanceAs (Decidable (∀ pin < redirEntries, _))
  have : Decidable (SameTargets m s op) := inferInstanceAs (Decidable (∀ pin < redirEntries, _))
  have : Decidable (Heard m s op) := inferInstanceAs (Decidable (∀ pin < redirEntries, _))
  decidable_of_iff (Undisturbed m s op ∧ SameTargets m s op ∧ Heard m s op)
    ⟨fun h => ⟨h.1, h.2.1, h.2.2⟩, fun h => ⟨h.undisturbed, h.sameTargets, h.heard⟩⟩

/-- Two vCPUs. -/
def twoCpus : Machine where
  active := 3
  active_lt i h := by
    have hlt : i < 64 := BitVec.lt_of_getLsbD h
    interval_cases i <;> first | decide | exact absurd h (by decide)

/-- A write of half of an entry, with its rendezvous. -/
def setHalf (regnum data : BitVec 64) : List Op :=
  [.mmioWrite 0 0xfec00000 regnum 4, .mmioWrite 0 0xfec00010 data 4, .updateTmr 0 0, .updateTmr 0 1,
    .finishWrite 0]

/-- Pin 5 goes, level-triggered, to both vCPUs; the first one serves it. -/
def sharedRun : List Op :=
  [.lapic 0 (.svrWrite 0x1ff), .lapic 1 (.svrWrite 0x1ff), .ldrWrite 0 0x01000000,
    .ldrWrite 1 0x02000000] ++ setHalf 0x1b 0x03000000 ++ setHalf 0x1a 0x8830 ++
    [.assertIrq 5, .lapic 0 .pendingIntr, .lapic 0 .intrAccepted]

theorem ioapic_lapics_agree_shared :
    ∃ s, ((system twoCpus).restrict (Meets twoCpus)).Reachable s ∧
      (s.vioapic.rtbl 5).reg &&& ioartRemIrr 64 ≠ 0 ∧
      targets twoCpus s.regs (intrOf (s.vioapic.rtbl 5).reg) = 3 ∧ Agreed twoCpus s := by
  have hrun : (System.exec (System.guarded (fun s op => Considered s op ∧ Meets twoCpus s op)
      (next twoCpus)) (start false) sharedRun).map (fun s =>
        ((s.vioapic.rtbl 5).reg &&& ioartRemIrr 64,
          targets twoCpus s.regs (intrOf (s.vioapic.rtbl 5).reg))) = some (0x4000, 3) := by
    decide +kernel
  obtain ⟨s, hs, heq⟩ := Option.map_eq_some_iff.mp hrun
  have hguarded : ((System.ofFn (fun s => ∃ x2apic, s = start x2apic) (next twoCpus)).restrict
      fun s op => Considered s op ∧ Meets twoCpus s op).Reachable s :=
    System.exec_reachable_guarded (.init ⟨false, rfl⟩) hs
  have hreach : ((system twoCpus).restrict (Meets twoCpus)).Reachable s :=
    hguarded.restrict_restrict
  refine ⟨s, hreach, ?_, congrArg Prod.snd heq, ioapic_lapics_agree twoCpus s hreach⟩
  rw [show (s.vioapic.rtbl 5).reg &&& ioartRemIrr 64 = 0x4000 from congrArg Prod.fst heq]
  decide

/-- The pin waits, and no vCPU holds its vector as a level interrupt. -/
def Stuck (m : Machine) (s : State) (pin : Nat) : Prop :=
  pin < redirEntries ∧ (s.vioapic.rtbl pin).reg &&& ioartRemIrr 64 ≠ 0 ∧
    targets m s.regs (intrOf (s.vioapic.rtbl pin).reg) ≠ 0 ∧
    ∀ vcpuid < vmMaxcpu,
      ¬ Holds (s.vcpu vcpuid).lapic (intrOf (s.vioapic.rtbl pin).reg).vector.toNat

instance (m : Machine) (s : State) (pin : Nat) : Decidable (Stuck m s pin) :=
  inferInstanceAs (Decidable (_ ∧ _ ∧ _ ∧ ∀ vcpuid < vmMaxcpu, _))

theorem Stuck.not_agreed {m : Machine} {s : State} {pin : Nat} (h : Stuck m s pin) :
    ¬ Agreed m s := by
  intro hagreed
  obtain ⟨hpin, hirr, htargets, hnone⟩ := h
  obtain ⟨_, vcpuid, hlt, hholds, _⟩ := hagreed pin hpin hirr htargets
  exact hnone vcpuid hlt hholds

/-- The interrupt is served from its request to its EOI. -/
def serve : List Op := [.lapic 0 .pendingIntr, .lapic 0 .intrAccepted, .eoi 0]

/-- The logical address is set after the entry that uses it. -/
def logicalRun : List Op :=
  [.lapic 0 (.svrWrite 0x1ff)] ++ setHalf 0x1b 0x01000000 ++ setHalf 0x1a 0x8830 ++
    [.ldrWrite 0 0x01000000, .assertIrq 5] ++ serve

/-- The local APIC is enabled after the pin is asserted. -/
def disabledRun : List Op :=
  setHalf 0x1a 0x8030 ++ [.assertIrq 5, .lapic 0 (.svrWrite 0x1ff)]

/-- The entry is made edge-triggered while its pin waits. -/
def edgeRun : List Op :=
  [.lapic 0 (.svrWrite 0x1ff)] ++ setHalf 0x1a 0x8030 ++ [.assertIrq 5] ++ setHalf 0x1a 0x30 ++ serve

/-- The interrupt is sent and served before the rendezvous of its entry. -/
def overtakenRun : List Op :=
  [.lapic 0 (.svrWrite 0x1ff), .mmioWrite 0 0xfec00000 0x1a 4, .mmioWrite 0 0xfec00010 0x8030 4,
    .assertIrq 5] ++ serve ++ [.updateTmr 0 0, .updateTmr 0 1, .finishWrite 0]

/-- The run is one of the system, and ends where the two do not agree. -/
def Disagrees (run : List Op) : Prop :=
  ∃ s, System.exec (System.guarded Considered (next twoCpus)) (start false) run = some s ∧
    (system twoCpus).Reachable s ∧ ¬ Agreed twoCpus s

theorem disagrees_of_stuck {run : List Op}
    (h : (System.exec (System.guarded Considered (next twoCpus)) (start false) run).map
      (fun s => decide (Stuck twoCpus s 5)) = some true) : Disagrees run := by
  obtain ⟨s, hs, hstuck⟩ := Option.map_eq_some_iff.mp h
  exact ⟨s, hs, System.exec_reachable_guarded (.init ⟨false, rfl⟩) hs,
    (of_decide_eq_true hstuck).not_agreed⟩

/-- Each of the conditions is broken by a run. -/
theorem ioapic_lapics_disagree :
    Disagrees logicalRun ∧ Disagrees disabledRun ∧ Disagrees edgeRun ∧ Disagrees overtakenRun := by
  refine ⟨disagrees_of_stuck ?_, disagrees_of_stuck ?_, disagrees_of_stuck ?_,
    disagrees_of_stuck ?_⟩
  · decide +kernel
  · decide +kernel
  · decide +kernel
  · decide +kernel

end Xhyve.Vmm.IoapicLapics
