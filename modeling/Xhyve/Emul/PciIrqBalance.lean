import Xhyve.Emul.PciIrq
import Xhyve.Lib.Tally
import Mathlib.Tactic.Common

/-!
# Every assert is taken back

Which functions hold their I/O APIC pin and which count on their PIRQ pin follows from their
state, and for the one operation that may be in progress from how far it has come. Each part of
an operation moves the lines by what it moves these two marks, and a write to a PIRQ register
moves an asserted line from the old IRQ to the new one.
-/

namespace Xhyve.Emul.PciIrq

open Xhyve.Lib

universe u

section Balance
variable {ι : Type u} [DecidableEq ι] {s s' : State ι}

/-- Whether a function holds its I/O APIC pin. -/
def applied (pi : Devinst) : Section → Bool
  | .free => pi.state = .asserted
  | .assert | .assertIoapic => false
  | .deassert _ | .deassertIoapic _ => true

/-- Whether a function counts on its PIRQ pin. -/
def counted (pi : Devinst) : Section → Bool
  | .free => pi.state = .asserted
  | .assert | .deassertIoapic _ => false
  | .assertIoapic | .deassert _ => true

/-- Whether a PIRQ pin drives an IRQ. -/
def drives (pirq : Pirq) (irq : Nat) : Bool :=
  0 < pirq.activeCount ∧ pirqValidIrq pirq.reg = true ∧ (pirq.reg &&& pirqIrq).toNat = irq

/-- The state an operation in progress was left with. -/
def sectOk (pi : Devinst) : Section → Prop
  | .free => True
  | .assert | .assertIoapic => pi.state = .asserted
  | .deassert later | .deassertIoapic later =>
    (later = none ∧ pi.state = .idle) ∨ later = some .pending

def holders (s : State ι) (irq : Nat) (f : ι) : Bool :=
  applied (s.devs f) (s.sect f) && decide ((s.devs f).ioapicIrq = irq)

def counters (s : State ι) (pin : Nat) (f : ι) : Bool :=
  counted (s.devs f) (s.sect f) && decide ((s.devs f).pirqPin = pin)

/-- The PIRQ pins, from 1. -/
def drivers (s : State ι) (irq : Nat) (p : Fin nPirqs) : Bool := drives (s.pirqs (p.val + 1)) irq

structure Inv [Fintype ι] (s : State ι) : Prop where
  routed : ∀ f, Routed (s.devs f)
  /-- Only functions with an interrupt pin do anything. -/
  engaged : ∀ f, (s.devs f).state ≠ .idle ∨ s.sect f ≠ .free → 0 < (s.devs f).pin
  sect : ∀ f, sectOk (s.devs f) (s.sect f)
  ioapic : ∀ irq, s.ioapic irq = tally (holders s irq)
  active : ∀ pin, (s.pirqs pin).activeCount = tally (counters s pin)
  atpic : ∀ irq, s.atpic irq = tally (drivers s irq)

/-! ## The lines -/

theorem update_add {a : Nat → Int} {i j : Nat} {d : Int} :
    Function.update a i (a i + d) j = a j + if i = j then d else 0 := by
  by_cases h : j = i
  · subst h
    simp
  · rw [Function.update_of_ne h, if_neg (Ne.symm h)]
    omega

theorem irq_lt (reg : BitVec 8) : (reg &&& pirqIrq).toNat < atpicIrqs := by
  rw [BitVec.toNat_and]
  exact Nat.lt_of_le_of_lt Nat.and_le_right (by decide)

/-- The lines of both controllers after an ISA call. -/
def isaLines (s : State ι) (d : Int) (irq : Nat) (pin : Option Nat) : State ι :=
  { s with
    atpic := Function.update s.atpic irq (s.atpic irq + d)
    ioapic := match pin with
      | none => s.ioapic
      | some i => Function.update s.ioapic i (s.ioapic i + d) }

omit [DecidableEq ι] in
theorem isaIrqstate_eq (s : State ι) (d : Int) {irq : Nat} (hirq : irq < atpicIrqs)
    {pin : Option Nat} (hpin : ∀ i, pin = some i → i < redirEntries) :
    isaIrqstate s d irq pin = isaLines s d irq pin := by
  unfold isaIrqstate atpicIrqstate
  rw [if_pos hirq]
  cases pin with
  | none => rfl
  | some i =>
    simp only [ioapicIrqstate, if_pos (hpin i rfl)]
    rfl

omit [DecidableEq ι] in
theorem ioapicIrqstate_eq (s : State ι) (d : Int) {irq : Nat} (hirq : irq < redirEntries) :
    ioapicIrqstate s d irq =
      { s with ioapic := Function.update s.ioapic irq (s.ioapic irq + d) } := if_pos hirq

/-! ## What one function's step moves -/

/-- Nothing but this function has changed. -/
def OnlyAt (f : ι) (s s' : State ι) : Prop :=
  ∀ g, g ≠ f → s'.devs g = s.devs g ∧ s'.sect g = s.sect g

variable {f : ι}

theorem holders_change [Fintype ι] (h : OnlyAt f s s')
    (hirq : (s'.devs f).ioapicIrq = (s.devs f).ioapicIrq) (irq : Nat) :
    tally (holders s' irq) = tally (holders s irq) + if (s.devs f).ioapicIrq = irq then
      mark (applied (s'.devs f) (s'.sect f)) - mark (applied (s.devs f) (s.sect f)) else 0 := by
  rw [tally_change (p := holders s irq) (a := f) fun g hg => by
    simp only [holders, (h g hg).1, (h g hg).2]]
  simp only [holders, hirq]
  split <;> simp [*]

theorem counters_change [Fintype ι] (h : OnlyAt f s s')
    (hpin : (s'.devs f).pirqPin = (s.devs f).pirqPin) (pin : Nat) :
    tally (counters s' pin) = tally (counters s pin) + if (s.devs f).pirqPin = pin then
      mark (counted (s'.devs f) (s'.sect f)) - mark (counted (s.devs f) (s.sect f)) else 0 := by
  rw [tally_change (p := counters s pin) (a := f) fun g hg => by
    simp only [counters, (h g hg).1, (h g hg).2]]
  simp only [counters, hpin]
  split <;> simp [*]

theorem drivers_change {pin : Nat} (hpin : 0 < pin ∧ pin ≤ nPirqs)
    (h : ∀ p, p ≠ pin → s'.pirqs p = s.pirqs p) (irq : Nat) :
    tally (drivers s' irq) = tally (drivers s irq) +
      (mark (drives (s'.pirqs pin) irq) - mark (drives (s.pirqs pin) irq)) := by
  obtain ⟨hpos, hle⟩ := hpin
  have ha : (⟨pin - 1, by omega⟩ : Fin nPirqs).val + 1 = pin := by
    change pin - 1 + 1 = pin
    omega
  rw [tally_change (p := drivers s irq) (a := ⟨pin - 1, by omega⟩) fun p hp => by
    have hne : p.val + 1 ≠ pin := by
      intro heq
      exact hp (Fin.ext (by omega))
    simp only [drivers, h _ hne]]
  simp only [drivers, ha]

/-- A function keeps its pins. -/
structure SamePins (pi pi' : Devinst) : Prop where
  pin : pi'.pin = pi.pin
  pirqPin : pi'.pirqPin = pi.pirqPin
  ioapicIrq : pi'.ioapicIrq = pi.ioapicIrq

section Runs
variable [Fintype ι]

/-- A step of one function that moves each line by what it moves the marks. -/
theorem Inv.step (h : Inv s) (hother : OnlyAt f s s') (hpins : SamePins (s.devs f) (s'.devs f))
    (hpin : (s'.devs f).state ≠ .idle ∨ s'.sect f ≠ .free → 0 < (s'.devs f).pin)
    (hsect : sectOk (s'.devs f) (s'.sect f))
    (hio : ∀ irq, s'.ioapic irq = s.ioapic irq + if (s.devs f).ioapicIrq = irq then
      mark (applied (s'.devs f) (s'.sect f)) - mark (applied (s.devs f) (s.sect f)) else 0)
    (hact : ∀ pin, (s'.pirqs pin).activeCount =
      (s.pirqs pin).activeCount + if (s.devs f).pirqPin = pin then
        mark (counted (s'.devs f) (s'.sect f)) - mark (counted (s.devs f) (s.sect f)) else 0)
    (hat : ∀ irq, s'.atpic irq = s.atpic irq + (tally (drivers s' irq) - tally (drivers s irq))) :
    Inv s' where
  routed g := by
    by_cases hg : g = f
    · subst hg
      have := h.routed g
      simp only [Routed, hpins.pin, hpins.pirqPin, hpins.ioapicIrq] at this ⊢
      exact this
    · rw [(hother g hg).1]
      exact h.routed g
  engaged g hg := by
    by_cases hgf : g = f
    · subst hgf
      exact hpin hg
    · rw [(hother g hgf).1, (hother g hgf).2] at hg
      rw [(hother g hgf).1]
      exact h.engaged g hg
  sect g := by
    by_cases hgf : g = f
    · subst hgf
      exact hsect
    · rw [(hother g hgf).1, (hother g hgf).2]
      exact h.sect g
  ioapic irq := by rw [hio, h.ioapic, holders_change hother hpins.ioapicIrq]
  active pin := by rw [hact, h.active, counters_change hother hpins.pirqPin]
  atpic irq := by
    rw [hat, h.atpic]
    omega

/-- A step of one function that leaves the lines and the marks alone. -/
theorem Inv.quiet (h : Inv s) (hother : OnlyAt f s s') (hpins : SamePins (s.devs f) (s'.devs f))
    (hpin : (s'.devs f).state ≠ .idle ∨ s'.sect f ≠ .free → 0 < (s'.devs f).pin)
    (hsect : sectOk (s'.devs f) (s'.sect f))
    (happlied : applied (s'.devs f) (s'.sect f) = applied (s.devs f) (s.sect f))
    (hcounted : counted (s'.devs f) (s'.sect f) = counted (s.devs f) (s.sect f))
    (hio : s'.ioapic = s.ioapic) (hpirqs : s'.pirqs = s.pirqs) (hat : s'.atpic = s.atpic) :
    Inv s' := by
  refine h.step hother hpins hpin hsect (fun irq => ?_) (fun pin => ?_) fun irq => ?_
  · simp [hio, happlied]
  · simp [hpirqs, hcounted]
  · have hsame : drivers s' irq = drivers s irq := by
      funext p
      simp only [drivers, hpirqs]
    rw [hat, hsame]
    omega

theorem onlyAt_setSect (s : State ι) (f : ι) (c : Section) : OnlyAt f s (s.setSect f c) :=
  fun _ hg => ⟨rfl, Function.update_of_ne hg ..⟩

theorem onlyAt_setDev (s : State ι) (f : ι) (pi : Devinst) : OnlyAt f s (s.setDev f pi) :=
  fun _ hg => ⟨Function.update_of_ne hg .., rfl⟩

theorem OnlyAt.trans {s₁ s₂ s₃ : State ι} (h₁ : OnlyAt f s₁ s₂) (h₂ : OnlyAt f s₂ s₃) :
    OnlyAt f s₁ s₃ :=
  fun g hg => ⟨(h₂ g hg).1.trans (h₁ g hg).1, (h₂ g hg).2.trans (h₁ g hg).2⟩

@[simp] theorem setSect_sect (s : State ι) (f : ι) (c : Section) : (s.setSect f c).sect f = c :=
  Function.update_self ..

@[simp] theorem setDev_devs (s : State ι) (f : ι) (pi : Devinst) : (s.setDev f pi).devs f = pi :=
  Function.update_self ..

theorem setState_devs (s : State ι) (f : ι) (st : LintrStat) :
    (s.setState f st).devs f = { s.devs f with state := st } := Function.update_self ..

/-! ## The operations up to the lines -/

theorem Inv.lintrAssert (h : Inv s) (hpin : 0 < (s.devs f).pin) (hfree : s.sect f = .free) :
    Inv (pciLintrAssert s f) := by
  unfold pciLintrAssert
  split
  · rename_i hidle
    split
    · refine h.quiet ((onlyAt_setDev s f _).trans (onlyAt_setSect _ f .assert))
        ⟨?_, ?_, ?_⟩ ?_ ?_ ?_ ?_ rfl rfl rfl
      all_goals simp [State.setState, State.setSect, State.setDev, sectOk, applied, counted, hfree,
        hidle, hpin]
    · refine h.quiet (onlyAt_setDev s f _) ⟨?_, ?_, ?_⟩ ?_ ?_ ?_ ?_ rfl rfl rfl
      all_goals simp [State.setState, State.setDev, sectOk, applied, counted, hfree, hidle, hpin]
  · exact h

theorem Inv.lintrDeassert (h : Inv s) (hpin : 0 < (s.devs f).pin) (hfree : s.sect f = .free) :
    Inv (pciLintrDeassert s f) := by
  unfold pciLintrDeassert
  split
  · rename_i hst
    refine h.quiet ((onlyAt_setDev s f _).trans (onlyAt_setSect _ f (.deassert none)))
      ⟨?_, ?_, ?_⟩ ?_ ?_ ?_ ?_ rfl rfl rfl
    all_goals simp [State.setState, State.setSect, State.setDev, sectOk, applied, counted, hfree,
      hst, hpin]
  · split
    · rename_i hst
      refine h.quiet (onlyAt_setDev s f _) ⟨?_, ?_, ?_⟩ ?_ ?_ ?_ ?_ rfl rfl rfl
      all_goals simp [State.setState, State.setDev, sectOk, applied, counted, hfree, hst]
    · exact h

theorem Inv.lintrUpdate (h : Inv s) (hfree : s.sect f = .free) : Inv (pciLintrUpdate s f) := by
  unfold pciLintrUpdate
  split
  · rename_i hst
    have hpin := h.engaged f (.inl (by simp [hst.1]))
    refine h.quiet (onlyAt_setSect s f (.deassert (some .pending))) ⟨?_, ?_, ?_⟩ ?_ ?_ ?_ ?_
      rfl rfl rfl
    all_goals simp [State.setSect, sectOk, applied, counted, hfree, hst.1, hpin]
  · split
    · rename_i hst
      have hpin := h.engaged f (.inl (by simp [hst.1]))
      refine h.quiet ((onlyAt_setDev s f _).trans (onlyAt_setSect _ f .assert))
        ⟨?_, ?_, ?_⟩ ?_ ?_ ?_ ?_ rfl rfl rfl
      all_goals simp [State.setState, State.setSect, State.setDev, sectOk, applied, counted, hfree,
        hst.1, hpin]
    · exact h

theorem Inv.config (h : Inv s) (f : ι) (msi msix : Bool) (cmd : BitVec 16) :
    Inv (s.setDev f { s.devs f with msiEnabled := msi, msixEnabled := msix, cmd := cmd }) := by
  have hsect := h.sect f
  have hengaged := h.engaged f
  refine h.quiet (onlyAt_setDev s f _) ⟨?_, ?_, ?_⟩ ?_ ?_ ?_ ?_ rfl rfl rfl
  all_goals rw [setDev_devs]
  · exact hengaged
  · change sectOk _ (s.sect f)
    revert hsect
    cases s.sect f <;> exact id
  · change applied _ (s.sect f) = _
    cases s.sect f <;> rfl
  · change counted _ (s.sect f) = _
    cases s.sect f <;> rfl

/-! ## The lines move with the marks -/

theorem onlyAt_unlock (s : State ι) (f : ι) (later : Option LintrStat) :
    OnlyAt f s (unlock s f later) := by
  cases later with
  | none => exact onlyAt_setSect s f .free
  | some st => exact (onlyAt_setDev s f _).trans (onlyAt_setSect _ f .free)

theorem unlock_devs (s : State ι) (f : ι) (later : Option LintrStat) :
    (unlock s f later).devs f =
      { s.devs f with state := later.getD (s.devs f).state } := by
  cases later with
  | none => rfl
  | some st => exact setState_devs s f st

theorem unlock_sect (s : State ι) (f : ι) (later : Option LintrStat) :
    (unlock s f later).sect f = .free := by
  cases later <;> exact Function.update_self ..

theorem unlock_lines (s : State ι) (f : ι) (later : Option LintrStat) :
    (unlock s f later).ioapic = s.ioapic ∧ (unlock s f later).atpic = s.atpic ∧
      (unlock s f later).pirqs = s.pirqs := by
  cases later <;> exact ⟨rfl, rfl, rfl⟩

/-- A function that lets go of its lock asserts its pin or not, as its state says. -/
theorem unlock_marks (s : State ι) (f : ι) (later : Option LintrStat) :
    applied ((unlock s f later).devs f) ((unlock s f later).sect f) =
      decide (later.getD (s.devs f).state = .asserted) ∧
    counted ((unlock s f later).devs f) ((unlock s f later).sect f) =
      decide (later.getD (s.devs f).state = .asserted) := by
  rw [unlock_devs, unlock_sect]
  exact ⟨rfl, rfl⟩

/-- The last part of an operation: the lines moved, and the lock let go. -/
theorem Inv.finish (h : Inv s) {later : Option LintrStat} (hother : OnlyAt f s s')
    (hdev : s'.devs f = s.devs f) (hbusy : s.sect f ≠ .free)
    (hio : ∀ irq, s'.ioapic irq = s.ioapic irq + if (s.devs f).ioapicIrq = irq then
      mark (decide (later.getD (s.devs f).state = .asserted)) -
        mark (applied (s.devs f) (s.sect f)) else 0)
    (hact : ∀ pin, (s'.pirqs pin).activeCount =
      (s.pirqs pin).activeCount + if (s.devs f).pirqPin = pin then
        mark (decide (later.getD (s.devs f).state = .asserted)) -
          mark (counted (s.devs f) (s.sect f)) else 0)
    (hat : ∀ irq, s'.atpic irq = s.atpic irq + (tally (drivers s' irq) - tally (drivers s irq))) :
    Inv (unlock s' f later) := by
  obtain ⟨hl₁, hl₂, hl₃⟩ := unlock_lines s' f later
  obtain ⟨happlied, hcounted⟩ := unlock_marks s' f later
  refine h.step (hother.trans (onlyAt_unlock s' f later)) ?_ ?_ ?_ ?_ ?_ ?_
  · rw [unlock_devs, hdev]
    exact ⟨rfl, rfl, rfl⟩
  · intro _
    rw [unlock_devs, hdev]
    exact h.engaged f (.inr hbusy)
  · rw [unlock_sect]
    trivial
  · intro irq
    rw [hl₁, happlied, hdev]
    exact hio irq
  · intro pin
    rw [hl₃, hcounted, hdev]
    exact hact pin
  · intro irq
    have hsame : drivers (unlock s' f later) irq = drivers s' irq := by
      funext p
      simp only [drivers, hl₃]
    rw [hl₂, hsame]
    exact hat irq

theorem Inv.activeCount_nonneg (h : Inv s) (pin : Nat) : 0 ≤ (s.pirqs pin).activeCount := by
  rw [h.active]
  exact tally_nonneg _

theorem Inv.activeCount_pos (h : Inv s) (hc : counted (s.devs f) (s.sect f) = true) :
    0 < (s.pirqs (s.devs f).pirqPin).activeCount := by
  rw [h.active]
  exact tally_pos (a := f) (by simp [counters, hc])

theorem Inv.ioapicAssert (h : Inv s) (hs : s.sect f = .assertIoapic) :
    Inv (unlock (xhVmIoapicAssertIrq s (s.devs f).ioapicIrq) f none) := by
  have hasserted : (s.devs f).state = .asserted := by
    have := h.sect f
    rwa [hs] at this
  obtain ⟨-, -, -, hlt⟩ := h.routed f (h.engaged f (.inr (by simp [hs])))
  rw [xhVmIoapicAssertIrq, ioapicIrqstate_eq s 1 hlt]
  refine h.finish (fun _ _ => ⟨rfl, rfl⟩) rfl (by simp [hs]) (fun irq => ?_) (fun pin => ?_)
    fun irq => ?_
  · refine update_add.trans ?_
    simp [hasserted, hs, applied]
  · simp [hasserted, hs, counted]
  · change s.atpic irq = s.atpic irq + (tally (drivers s irq) - tally (drivers s irq))
    omega

theorem Inv.ioapicDeassert (h : Inv s) {later : Option LintrStat}
    (hs : s.sect f = .deassertIoapic later) :
    Inv (unlock (xhVmIoapicDeassertIrq s (s.devs f).ioapicIrq) f later) := by
  have hfinal : later.getD (s.devs f).state ≠ .asserted := by
    have := h.sect f
    rw [hs] at this
    rcases this with ⟨rfl, hidle⟩ | rfl
    · simp [hidle]
    · simp
  obtain ⟨-, -, -, hlt⟩ := h.routed f (h.engaged f (.inr (by simp [hs])))
  rw [xhVmIoapicDeassertIrq, ioapicIrqstate_eq s (-1) hlt]
  refine h.finish (fun _ _ => ⟨rfl, rfl⟩) rfl (by simp [hs]) (fun irq => ?_) (fun pin => ?_)
    fun irq => ?_
  · refine update_add.trans ?_
    simp [hfinal, hs, applied]
  · simp [hfinal, hs, counted]
  · change s.atpic irq = s.atpic irq + (tally (drivers s irq) - tally (drivers s irq))
    omega

/-- A PIRQ pin whose count has moved. -/
def recount (s : State ι) (f : ι) (d : Int) : State ι :=
  s.setPirq (s.devs f).pirqPin { s.pirqs (s.devs f).pirqPin with
    activeCount := (s.pirqs (s.devs f).pirqPin).activeCount + d }

theorem recount_active (s : State ι) (f : ι) (d : Int) (pin : Nat) :
    ((recount s f d).pirqs pin).activeCount =
      (s.pirqs pin).activeCount + if (s.devs f).pirqPin = pin then d else 0 := by
  by_cases h : pin = (s.devs f).pirqPin
  · subst h
    simp [recount, State.setPirq]
  · simp only [recount, State.setPirq, Function.update_of_ne h, if_neg (Ne.symm h)]
    omega

/-- The IRQ line of a PIRQ pin whose count has moved. -/
theorem recount_drivers (s : State ι) (f : ι) (d : Int)
    (hpin : 0 < (s.devs f).pirqPin ∧ (s.devs f).pirqPin ≤ nPirqs) (irq : Nat) :
    tally (drivers (recount s f d) irq) = tally (drivers s irq) +
      (mark (drives { s.pirqs (s.devs f).pirqPin with
        activeCount := (s.pirqs (s.devs f).pirqPin).activeCount + d } irq) -
      mark (drives (s.pirqs (s.devs f).pirqPin) irq)) := by
  rw [drivers_change hpin fun p hp => Function.update_of_ne hp ..]
  simp only [recount, State.setPirq, Function.update_self]

/-- The first assert of a PIRQ pin raises its IRQ, and no other does. -/
theorem drives_raise {pirq : Pirq} (h : 0 ≤ pirq.activeCount) (irq : Nat) :
    mark (drives { pirq with activeCount := pirq.activeCount + 1 } irq) - mark (drives pirq irq) =
      if pirq.activeCount + 1 = 1 ∧ pirqValidIrq pirq.reg = true then
        if (pirq.reg &&& pirqIrq).toNat = irq then 1 else 0
      else 0 := by
  have hpos : 0 < pirq.activeCount + 1 := by omega
  by_cases hvalid : pirqValidIrq pirq.reg = true
  · by_cases hzero : pirq.activeCount = 0
    · simp [drives, hvalid, hzero, mark]
    · have : 0 < pirq.activeCount := by omega
      have hne : pirq.activeCount + 1 ≠ 1 := by omega
      simp [drives, hvalid, hpos, this, hzero]
  · simp [drives, hvalid]

/-- The last deassert lowers it. -/
theorem drives_lower {pirq : Pirq} (h : 0 < pirq.activeCount) (irq : Nat) :
    mark (drives { pirq with activeCount := pirq.activeCount + -1 } irq) - mark (drives pirq irq) =
      if pirq.activeCount + -1 = 0 ∧ pirqValidIrq pirq.reg = true then
        if (pirq.reg &&& pirqIrq).toNat = irq then -1 else 0
      else 0 := by
  by_cases hvalid : pirqValidIrq pirq.reg = true
  · by_cases hone : pirq.activeCount + -1 = 0
    · simp only [drives, hvalid, hone, h, mark]
      by_cases hirq : (pirq.reg &&& pirqIrq).toNat = irq <;> simp [hirq, -BitVec.toNat_and]
    · have : 0 < pirq.activeCount + -1 := by omega
      simp [drives, hvalid, h, this, hone]
  · simp [drives, hvalid]

omit [DecidableEq ι] [Fintype ι] in
theorem isaLines_atpic (s : State ι) (d : Int) (irq : Nat) (pin : Option Nat) (i : Nat) :
    (isaLines s d irq pin).atpic i = s.atpic i + if irq = i then d else 0 := update_add

theorem Inv.assertPirq (h : Inv s) (hs : s.sect f = .assert)
    (hpin : 0 < (s.devs f).pirqPin ∧ (s.devs f).pirqPin ≤ nPirqs) :
    Inv (assertPirq s f) := by
  have hasserted : (s.devs f).state = .asserted := by
    have := h.sect f
    rwa [hs] at this
  obtain ⟨-, -, -, hlt⟩ := h.routed f (h.engaged f (.inr (by simp [hs])))
  have hrise := drives_raise (h.activeCount_nonneg (s.devs f).pirqPin)
  change Inv (if (s.pirqs (s.devs f).pirqPin).activeCount + 1 = 1 ∧
      pirqValidIrq (s.pirqs (s.devs f).pirqPin).reg = true then
    unlock (isaIrqstate (recount s f 1) 1 ((s.pirqs (s.devs f).pirqPin).reg &&& pirqIrq).toNat
      (some (s.devs f).ioapicIrq)) f none
    else (recount s f 1).setSect f .assertIoapic)
  split
  · rename_i hfirst
    rw [isaIrqstate_eq (recount s f 1) 1 (irq_lt _) (by simpa using hlt)]
    refine h.finish (fun _ _ => ⟨rfl, rfl⟩) rfl (by simp [hs]) (fun irq => ?_) (fun pin => ?_)
      fun irq => ?_
    · refine update_add.trans ?_
      simp [hasserted, hs, applied, recount, State.setPirq]
    · refine (recount_active s f 1 pin).trans ?_
      simp [hasserted, hs, counted]
    · change _ = _ + (tally (drivers (recount s f 1) irq) - _)
      rw [isaLines_atpic, recount_drivers s f 1 hpin, hrise irq, if_pos hfirst]
      simp [recount, State.setPirq]
  · rename_i hmore
    refine h.step (fun g hg => ⟨rfl, Function.update_of_ne hg ..⟩) ⟨rfl, rfl, rfl⟩ ?_ ?_ (fun irq => ?_)
      (fun pin => ?_) fun irq => ?_
    · exact fun _ => h.engaged f (.inr (by simp [hs]))
    · rw [setSect_sect]
      exact hasserted
    · rw [setSect_sect]
      simp [hs, applied, recount, State.setPirq, State.setSect]
    · rw [setSect_sect]
      refine (recount_active s f 1 pin).trans ?_
      simp [hs, counted]
    · change s.atpic irq = s.atpic irq + (tally (drivers (recount s f 1) irq) - _)
      rw [recount_drivers s f 1 hpin, hrise irq, if_neg hmore]
      omega

theorem Inv.deassertPirq (h : Inv s) {later : Option LintrStat} (hs : s.sect f = .deassert later)
    (hpin : 0 < (s.devs f).pirqPin ∧ (s.devs f).pirqPin ≤ nPirqs) :
    Inv (deassertPirq s f later) := by
  have hsect := h.sect f
  rw [hs] at hsect
  have hfinal : later.getD (s.devs f).state ≠ .asserted := by
    rcases hsect with ⟨rfl, hidle⟩ | rfl
    · simp [hidle]
    · simp
  obtain ⟨-, -, -, hlt⟩ := h.routed f (h.engaged f (.inr (by simp [hs])))
  have hfall := drives_lower (h.activeCount_pos (f := f) (by simp [hs, counted]))
  change Inv (if (s.pirqs (s.devs f).pirqPin).activeCount + -1 = 0 ∧
      pirqValidIrq (s.pirqs (s.devs f).pirqPin).reg = true then
    unlock (isaIrqstate (recount s f (-1)) (-1)
      ((s.pirqs (s.devs f).pirqPin).reg &&& pirqIrq).toNat (some (s.devs f).ioapicIrq)) f later
    else (recount s f (-1)).setSect f (.deassertIoapic later))
  split
  · rename_i hlast
    rw [isaIrqstate_eq (recount s f (-1)) (-1) (irq_lt _) (by simpa using hlt)]
    refine h.finish (fun _ _ => ⟨rfl, rfl⟩) rfl (by simp [hs]) (fun irq => ?_) (fun pin => ?_)
      fun irq => ?_
    · refine update_add.trans ?_
      simp [hfinal, hs, applied, recount, State.setPirq]
    · refine (recount_active s f (-1) pin).trans ?_
      simp [hfinal, hs, counted]
    · change _ = _ + (tally (drivers (recount s f (-1)) irq) - _)
      rw [isaLines_atpic, recount_drivers s f (-1) hpin, hfall irq, if_pos hlast]
      simp [recount, State.setPirq]
  · rename_i hmore
    refine h.step (fun g hg => ⟨rfl, Function.update_of_ne hg ..⟩) ⟨rfl, rfl, rfl⟩ ?_ ?_
      (fun irq => ?_) (fun pin => ?_) fun irq => ?_
    · exact fun _ => h.engaged f (.inr (by simp [hs]))
    · rw [setSect_sect]
      exact hsect
    · rw [setSect_sect]
      simp [hs, applied, recount, State.setPirq, State.setSect]
    · rw [setSect_sect]
      refine (recount_active s f (-1) pin).trans ?_
      simp [hs, counted]
    · change s.atpic irq = s.atpic irq + (tally (drivers (recount s f (-1)) irq) - _)
      rw [recount_drivers s f (-1) hpin, hfall irq, if_neg hmore]
      omega

/-- An active pin drives the IRQ its register selects, if that is a valid one. -/
theorem drives_eq (pirq : Pirq) (h : 0 ≤ pirq.activeCount) (irq : Nat) :
    mark (drives pirq irq) =
      if pirq.activeCount ≠ 0 ∧ pirqValidIrq pirq.reg = true then
        if (pirq.reg &&& pirqIrq).toNat = irq then 1 else 0
      else 0 := by
  by_cases hzero : pirq.activeCount = 0
  · simp [drives, hzero]
  · have hpos : 0 < pirq.activeCount := by omega
    by_cases hvalid : pirqValidIrq pirq.reg = true <;> simp [drives, hvalid, hpos, hzero, mark]

/-- A write moves lines of the 8259 only, from the old IRQ to the new one. -/
theorem pirqWrite_lines (pin : Nat) (val : BitVec 8) (hnonneg : 0 ≤ (s.pirqs pin).activeCount) :
    ∃ reg, (pirqWrite s pin val).devs = s.devs ∧ (pirqWrite s pin val).sect = s.sect ∧
      (pirqWrite s pin val).ioapic = s.ioapic ∧
      (pirqWrite s pin val).pirqs = Function.update s.pirqs pin { s.pirqs pin with reg := reg } ∧
      ∀ irq, (pirqWrite s pin val).atpic irq = s.atpic irq +
        (mark (drives { s.pirqs pin with reg := reg } irq) - mark (drives (s.pirqs pin) irq)) := by
  obtain ⟨reg, hreg⟩ : ∃ reg, reg = val &&& (pirqDis ||| pirqIrq) := ⟨_, rfl⟩
  have hnone : ∀ i, (none : Option Nat) = some i → i < redirEntries := by simp
  have hold := drives_eq (s.pirqs pin) hnonneg
  have hnew := drives_eq { s.pirqs pin with reg := reg } hnonneg
  simp only at hnew
  refine ⟨reg, ?_⟩
  unfold pirqWrite
  simp only [← hreg, xhVmIsaAssertIrq, xhVmIsaDeassertIrq, isaIrqstate_eq _ _ (irq_lt _) hnone]
  by_cases hsame : (s.pirqs pin).reg = reg
  · rw [if_neg (by simp [hsame])]
    refine ⟨rfl, rfl, rfl, ?_, fun irq => ?_⟩
    · rw [← hsame]
      exact (Function.update_eq_self ..).symm
    · rw [← hsame]
      change s.atpic irq = s.atpic irq +
        (mark (drives (s.pirqs pin) irq) - mark (drives (s.pirqs pin) irq))
      omega
  · rw [if_pos hsame]
    split <;> split <;> rename_i hn ho <;> refine ⟨rfl, rfl, rfl, rfl, fun irq => ?_⟩
    · rw [hold, hnew, if_pos ho, if_pos hn, isaLines_atpic]
      change (isaLines s (-1) _ none).atpic irq + _ = _
      rw [isaLines_atpic]
      split <;> split <;> omega
    · rw [hold, hnew, if_neg ho, if_pos hn, isaLines_atpic]
      change s.atpic irq + _ = _
      omega
    · rw [hold, hnew, if_pos ho, if_neg hn]
      change (isaLines s (-1) _ none).atpic irq = _
      rw [isaLines_atpic]
      split <;> omega
    · rw [hold, hnew, if_neg ho, if_neg hn]
      change s.atpic irq = _
      omega

/-- The guest selects another IRQ: an active pin takes its assert along. -/
theorem Inv.writePirq (h : Inv s) {pin : Nat} (hpin : 0 < pin ∧ pin ≤ nPirqs) (val : BitVec 8) :
    Inv (pirqWrite s pin val) := by
  obtain ⟨reg, hdevs, hsect, hio, hpirqs, hat⟩ :=
    pirqWrite_lines pin val (h.activeCount_nonneg pin)
  refine ⟨fun f => hdevs ▸ h.routed f, fun f hf => ?_, fun f => ?_, fun irq => ?_, fun p => ?_,
    fun irq => ?_⟩
  · rw [hdevs, hsect] at hf
    rw [hdevs]
    exact h.engaged f hf
  · rw [hdevs, hsect]
    exact h.sect f
  · have hsame : holders (pirqWrite s pin val) irq = holders s irq := by
      funext f
      simp only [holders, hdevs, hsect]
    rw [hio, hsame]
    exact h.ioapic irq
  · have hsame : counters (pirqWrite s pin val) p = counters s p := by
      funext f
      simp only [counters, hdevs, hsect]
    rw [hsame, ← h.active, hpirqs]
    by_cases hp : p = pin
    · subst hp
      rw [Function.update_self]
    · rw [Function.update_of_ne hp]
  · have hkeep : ∀ p, p ≠ pin → (pirqWrite s pin val).pirqs p = s.pirqs p := fun p hp => by
      rw [hpirqs, Function.update_of_ne hp]
    rw [hat, h.atpic, drivers_change hpin hkeep, hpirqs, Function.update_self]

/-! ## Every run -/

theorem Start.inv (h : Start s) : Inv s where
  routed := h.routed
  engaged f hf := by
    rcases hf with hst | hsect
    · exact absurd (h.idle f) hst
    · exact absurd (h.free f) hsect
  sect f := by
    rw [h.free f]
    trivial
  ioapic irq := by
    rw [h.ioapic, tally_false fun f => by simp [holders, h.free f, applied, h.idle f]]
  active pin := by
    rw [h.inactive, tally_false fun f => by simp [counters, h.free f, counted, h.idle f]]
  atpic irq := by
    rw [h.atpic, tally_false fun p => by simp [drivers, drives, h.inactive]]

theorem Inv.pirqPin (h : Inv s) (hbusy : s.sect f ≠ .free) :
    0 < (s.devs f).pirqPin ∧ (s.devs f).pirqPin ≤ nPirqs := by
  obtain ⟨hpos, hle, -, -⟩ := h.routed f (h.engaged f (.inr hbusy))
  exact ⟨hpos, hle⟩

/-- An operation in progress can always go on. -/
theorem Inv.advance (h : Inv s) (hbusy : s.sect f ≠ .free) :
    ∃ s', advance s f = some s' ∧ Inv s' := by
  have hpin := h.pirqPin hbusy
  unfold PciIrq.advance
  cases hs : s.sect f with
  | free => exact absurd hs hbusy
  | assert =>
    simp only [if_pos hpin.1, if_pos hpin.2]
    exact ⟨_, rfl, h.assertPirq hs hpin⟩
  | assertIoapic => exact ⟨_, rfl, h.ioapicAssert hs⟩
  | deassert later =>
    simp only [if_pos hpin.1, if_pos hpin.2]
    exact ⟨_, rfl, h.deassertPirq hs hpin⟩
  | deassertIoapic later => exact ⟨_, rfl, h.ioapicDeassert hs⟩

theorem inductive_inv : (system ι).Inductive Inv where
  init s h := h.inv
  step s op s' h hs := by
    change next s op = some s' at hs
    cases op with
    | lintrAssert f =>
      obtain ⟨⟨hpin, hfree⟩, rfl⟩ := by simpa [next] using hs
      exact h.lintrAssert hpin hfree
    | lintrDeassert f =>
      obtain ⟨⟨hpin, hfree⟩, rfl⟩ := by simpa [next] using hs
      exact h.lintrDeassert hpin hfree
    | lintrUpdate f =>
      obtain ⟨hfree, rfl⟩ := by simpa [next] using hs
      exact h.lintrUpdate hfree
    | advance f =>
      have hbusy : s.sect f ≠ .free := fun hfree => by
        simp [next, PciIrq.advance, hfree] at hs
      obtain ⟨t, ht, hinv⟩ := h.advance hbusy
      obtain rfl : t = s' := Option.some.inj (ht.symm.trans hs)
      exact hinv
    | pirqWrite pin val =>
      obtain ⟨hpin, rfl⟩ := by simpa [next] using hs
      exact h.writePirq hpin val
    | config f msi msix cmd =>
      cases hs
      exact h.config f msi msix cmd

end Runs

end Balance

/-! ## Routing -/

/-- Interrupt pins that have been routed are routed to pins that exist. -/
structure RouterOk (r : Router) : Prop where
  pirqPin : ∀ slot pin, (r.intpins slot pin).pirqPin ≤ nPirqs
  ioapicIrq : ∀ slot pin, (r.intpins slot pin).ioapicIrq = 0 ∨
    16 ≤ (r.intpins slot pin).ioapicIrq ∧ (r.intpins slot pin).ioapicIrq < redirEntries
  inactive : ∀ pin, (r.pirqs pin).activeCount = 0

theorem bestPin_lt (pirqs : Nat → Pirq) : bestPin pirqs < nPirqs := by
  have hfold : ∀ (pins : List Nat) (best : Nat), best < nPirqs → (∀ p ∈ pins, p < nPirqs) →
      pins.foldl (fun best pin =>
        if (pirqs pin).useCount < (pirqs best).useCount then pin else best) best < nPirqs := by
    intro pins
    induction pins with
    | nil => exact fun best hbest _ => hbest
    | cons p pins ih =>
      intro best hbest hpins
      refine ih _ ?_ fun q hq => hpins q (List.mem_cons_of_mem _ hq)
      dsimp only
      split
      · exact hpins p (List.mem_cons_self ..)
      · exact hbest
  exact hfold _ 0 (by decide) fun p hp => List.mem_range.mp hp

theorem pciIrqInit_ok : RouterOk pciIrqInit :=
  ⟨fun _ _ => Nat.zero_le _, fun _ _ => .inl rfl, fun _ => rfl⟩

theorem setIntpin_intpins (r : Router) (slot pin : Nat) (ii : Intxinfo) (slot' pin' : Nat) :
    (r.setIntpin slot pin ii).intpins slot' pin' =
      if slot' = slot ∧ pin' = pin then ii else r.intpins slot' pin' := by
  by_cases hs : slot' = slot
  · subst hs
    by_cases hp : pin' = pin
    · subst hp
      simp [Router.setIntpin]
    · simp [Router.setIntpin, hp]
  · simp [Router.setIntpin, hs]

theorem RouterOk.setIntpin {r : Router} (h : RouterOk r) (slot pin : Nat) {ii : Intxinfo}
    (hpirq : ii.pirqPin ≤ nPirqs)
    (hirq : ii.ioapicIrq = 0 ∨ 16 ≤ ii.ioapicIrq ∧ ii.ioapicIrq < redirEntries) :
    RouterOk (r.setIntpin slot pin ii) where
  pirqPin slot' pin' := by
    rw [setIntpin_intpins]
    split
    · exact hpirq
    · exact h.pirqPin slot' pin'
  ioapicIrq slot' pin' := by
    rw [setIntpin_intpins]
    split
    · exact hirq
    · exact h.ioapicIrq slot' pin'
  inactive := h.inactive

theorem RouterOk.routeIoapic {r : Router} (h : RouterOk r) (slot pin : Nat) :
    RouterOk (routeIoapic r slot pin) ∧
      ((PciIrq.routeIoapic r slot pin).intpins slot pin).ioapicIrq ≠ 0 := by
  unfold PciIrq.routeIoapic
  split
  · have hlt : r.lastPin % pciPins < pciPins := Nat.mod_lt _ (by decide)
    have hbound : 16 ≤ 16 + r.lastPin % pciPins ∧ 16 + r.lastPin % pciPins < redirEntries := by
      unfold pciPins redirEntries at *
      omega
    have hr : RouterOk { r with lastPin := r.lastPin + 1 } := ⟨h.pirqPin, h.ioapicIrq, h.inactive⟩
    refine ⟨hr.setIntpin slot pin (h.pirqPin slot pin) (.inr hbound), ?_⟩
    simp only [ioapicPciAllocIrq, setIntpin_intpins, and_self, if_true]
    omega
  · rename_i hne
    exact ⟨h, hne⟩

theorem RouterOk.allocPin {r r' : Router} {pin : Nat} (h : RouterOk r)
    (hp : pirqAllocPin r = some (pin, r')) :
    RouterOk r' ∧ r'.intpins = r.intpins ∧ 0 < pin ∧ pin ≤ nPirqs := by
  have hlt := bestPin_lt r.pirqs
  have hinactive : ∀ (pirq : Pirq), pirq.activeCount = 0 → ∀ p,
      (Function.update r.pirqs (bestPin r.pirqs) pirq p).activeCount = 0 := by
    intro pirq h0 p
    by_cases hp : p = bestPin r.pirqs
    · subst hp
      rw [Function.update_self]
      exact h0
    · rw [Function.update_of_ne hp]
      exact h.inactive p
  unfold pirqAllocPin at hp
  simp only at hp
  split at hp
  · obtain ⟨irq, -, heq⟩ := Option.map_eq_some_iff.mp hp
    cases heq
    exact ⟨⟨h.pirqPin, h.ioapicIrq, hinactive _ (h.inactive _)⟩, rfl, Nat.succ_pos _, hlt⟩
  · cases hp
    exact ⟨⟨h.pirqPin, h.ioapicIrq, hinactive _ (h.inactive _)⟩, rfl, Nat.succ_pos _, hlt⟩

theorem RouterOk.routePirq {r r' : Router} {slot pin : Nat} (h : RouterOk r)
    (hr : routePirq r slot pin = some r') :
    RouterOk r' ∧ 0 < (r'.intpins slot pin).pirqPin ∧
      (r'.intpins slot pin).ioapicIrq = (r.intpins slot pin).ioapicIrq := by
  unfold PciIrq.routePirq at hr
  split at hr
  · obtain ⟨⟨p, t⟩, hp, heq⟩ := Option.map_eq_some_iff.mp hr
    cases heq
    obtain ⟨ht, hsame, hpos, hle⟩ := h.allocPin hp
    refine ⟨ht.setIntpin slot pin hle (ht.ioapicIrq slot pin), ?_⟩
    simp only [setIntpin_intpins, and_self, if_true, hsame]
    exact ⟨hpos, trivial⟩
  · rename_i hne
    cases hr
    exact ⟨h, Nat.pos_of_ne_zero hne, rfl⟩

/-- `pci_lintr_route` gives a function pins that exist, whatever was routed before. -/
theorem pciLintrRoute_routed {r r' : Router} {slot : Nat} {pi pi' : Devinst} (h : RouterOk r)
    (hr : pciLintrRoute r slot pi = some (r', pi')) : RouterOk r' ∧ Routed pi' := by
  unfold pciLintrRoute at hr
  split at hr
  · rename_i hzero
    cases hr
    exact ⟨h, fun hpos => absurd hzero (Nat.pos_iff_ne_zero.mp hpos)⟩
  · obtain ⟨t, ht, heq⟩ := Option.map_eq_some_iff.mp hr
    cases heq
    obtain ⟨hio, hne⟩ := h.routeIoapic slot (pi.pin - 1)
    obtain ⟨hok, hpos, hsame⟩ := hio.routePirq ht
    refine ⟨hok, fun _ => ⟨hpos, hok.pirqPin slot (pi.pin - 1), ?_⟩⟩
    rcases hok.ioapicIrq slot (pi.pin - 1) with hzero | hbound
    · rw [hsame] at hzero
      exact absurd hzero hne
    · exact hbound

/-! ## The balance -/

end Xhyve.Emul.PciIrq
