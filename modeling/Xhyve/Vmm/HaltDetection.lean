import Xhyve.Vmm.Halt

/-!
# When the machine is halted

A vCPU's bit in `halted_cpus` is set from its first comparison to its leaving, so `halted_cpus` holds
only vCPUs in `vm_handle_hlt` with interrupts disabled. Whoever completes the set is before its
comparison then, and as long as the set stays complete somebody is about to compare, or has read
one side of an equal comparison, or has compared: the last one in always finds the others.

A comparison reads the two sets one after the other. Where `active_cpus` comes first, a vCPU
activated before `halted_cpus` is read is missed.
-/

namespace Xhyve.Vmm.Halt

open Xhyve.Lib

/-! ## What a place in the code says about the vCPU -/

def PhaseOk (v : Vcpu) : Prop :=
  match v.pc with
  | .out | .suspend => v.vcpuHalted = false
  | .check .extint | .check .lapic => v.vcpuHalted = false ∧ v.intrDisabled = false
  | .check _ | .woken | .leave false => v.vcpuHalted = true → v.intrDisabled = true
  | .mark => v.intrDisabled = true
  | .cmp | .cmpActive _ | .cmpHalted _ | .leave true =>
    v.vcpuHalted = true ∧ v.intrDisabled = true
  | .sleep | .lockSleepMtx | .unlock | .released | .waiting => v.vcpuHalted = v.intrDisabled

/-- About to compare, or having read what makes the comparison equal. -/
def Watching (active : Finset Nat) : Pc → Prop
  | .cmp | .leave true => True
  | .cmpActive a => a = active
  | .cmpHalted h => h = active
  | _ => False

structure Inv (s : State) : Prop where
  phase : ∀ i, PhaseOk (s.vcpu i)
  halted : ∀ i, i ∈ s.halted ↔ (s.vcpu i).vcpuHalted = true
  inside : ∀ i, (s.vcpu i).pc ≠ .out → i ∈ s.active
  watched : s.suspend = none → s.halted = s.active → ∃ j, Watching s.active (s.vcpu j).pc

/-- What has been read by a comparison that is not over, and by one that was equal. -/
def SawOk (s : State) (v : Vcpu) : Prop :=
  match v.pc with
  | .cmpActive a => a = s.active
  | .cmpHalted h => s.active ⊆ h → v.sawAllHalted = true
  | .leave true | .suspend => v.sawAllHalted = true
  | _ => True

/-- No vCPU is activated between the reads of a comparison that has read `active_cpus`. -/
def ActivationApart (s : State) : Op → Prop
  | .activate _ => ∀ i a, (s.vcpu i).pc ≠ .cmpActive a
  | _ => True

section Inv
variable {s : State} {i : Nat}

theorem phase_halted {v : Vcpu} (h : PhaseOk v) (hv : v.vcpuHalted = true) :
    v.pc ≠ .out ∧ v.intrDisabled = true := by
  unfold PhaseOk at h
  split at h <;> simp_all

/-- `halted_cpus` holds vCPUs in `vm_handle_hlt` with interrupts disabled. -/
theorem Inv.hardHalted (h : Inv s) (hi : i ∈ s.halted) : s.hardHalted i :=
  phase_halted (h.phase i) ((h.halted i).mp hi)

theorem Inv.halted_subset (h : Inv s) : s.halted ⊆ s.active := by
  intro i hi
  exact h.inside i (h.hardHalted hi).1

/-- The phase at a known place. -/
theorem Inv.phase_at (h : Inv s) {pc : Pc} (hpc : (s.vcpu i).pc = pc) :
    PhaseOk { s.vcpu i with pc := pc } := by
  rw [← hpc]
  exact h.phase i

theorem setVcpu_same (s : State) (i : Nat) (v : Vcpu) : (s.setVcpu i v).vcpu i = v :=
  Function.update_self ..

theorem setVcpu_other (s : State) {i j : Nat} (v : Vcpu) (h : j ≠ i) :
    (s.setVcpu i v).vcpu j = s.vcpu j := Function.update_of_ne h ..

/-- A vCPU's step that leaves its bit alone. -/
theorem Inv.setVcpu (h : Inv s) {v : Vcpu} (hphase : PhaseOk v)
    (hbit : v.vcpuHalted = (s.vcpu i).vcpuHalted) (hin : v.pc ≠ .out → i ∈ s.active)
    (hwatch : s.halted = s.active → Watching s.active (s.vcpu i).pc → Watching s.active v.pc) :
    Inv (s.setVcpu i v) where
  phase j := by
    by_cases hj : j = i
    · subst hj
      rw [setVcpu_same]
      exact hphase
    · rw [setVcpu_other s v hj]
      exact h.phase j
  halted j := by
    by_cases hj : j = i
    · subst hj
      rw [setVcpu_same, hbit]
      exact h.halted j
    · rw [setVcpu_other s v hj]
      exact h.halted j
  inside j := by
    by_cases hj : j = i
    · subst hj
      rw [setVcpu_same]
      exact hin
    · rw [setVcpu_other s v hj]
      exact h.inside j
  watched hs heq := by
    obtain ⟨j, hj⟩ := h.watched hs heq
    refine ⟨j, ?_⟩
    by_cases hji : j = i
    · subst hji
      rw [setVcpu_same]
      exact hwatch heq hj
    · rw [setVcpu_other s v hji]
      exact hj

/-- Whatever is no part of the vCPUs' states and the sets. -/
theorem Inv.congr (h : Inv s) {s' : State} (hv : s'.vcpu = s.vcpu) (ha : s'.active = s.active)
    (hh : s'.halted = s.halted) (hs : s'.suspend = none → s.suspend = none) : Inv s' where
  phase i := by
    rw [hv]
    exact h.phase i
  halted i := by
    rw [hv, hh]
    exact h.halted i
  inside i := by
    rw [hv, ha]
    exact h.inside i
  watched hnone heq := by
    rw [hh, ha] at heq
    rw [hv, ha]
    exact h.watched (hs hnone) heq

theorem Inv.setPoster (h : Inv s) (t : Nat) (p : Option Poster) : Inv (s.setPoster t p) :=
  h.congr rfl rfl rfl id

/-- An event posted to a vCPU moves it nowhere. -/
theorem Inv.event (h : Inv s) {v : Vcpu} (hpc : v.pc = (s.vcpu i).pc)
    (hintr : v.intrDisabled = (s.vcpu i).intrDisabled)
    (hbit : v.vcpuHalted = (s.vcpu i).vcpuHalted) : Inv (s.setVcpu i v) := by
  apply h.setVcpu ?_ hbit
  · rw [hpc]
    exact h.inside i
  · rw [hpc]
    exact fun _ => id
  · have hphase := h.phase i
    unfold PhaseOk at hphase ⊢
    rw [hpc, hintr, hbit]
    exact hphase

/-- A move between two places where nothing but the phase matters. -/
theorem Inv.goto (h : Inv s) {pc : Pc} (hphase : PhaseOk { s.vcpu i with pc := pc })
    (hin : (s.vcpu i).pc ≠ .out)
    (hwatch : s.halted = s.active → Watching s.active (s.vcpu i).pc → Watching s.active pc) :
    Inv (s.goto i pc) :=
  h.setVcpu hphase rfl (fun _ => h.inside i hin) hwatch

theorem Inv.advance (h : Inv s) {p q : Pc} (hpc : (s.vcpu i).pc = p)
    (hphase : PhaseOk { s.vcpu i with pc := p } → PhaseOk { s.vcpu i with pc := q })
    (hout : p ≠ .out)
    (hwatch : s.halted = s.active → Watching s.active p → Watching s.active q) :
    Inv (s.goto i q) := by
  apply h.goto (hphase (h.phase_at hpc))
  · rw [hpc]
    exact hout
  · rw [hpc]
    exact hwatch

end Inv

/-! ## The steps of `vm_handle_hlt` -/

section Steps
variable {s s' : State} {i : Nat}

theorem Inv.check (h : Inv s) {c : Check} (hpc : (s.vcpu i).pc = .check c) :
    Inv (s.goto i (if s.holds i c then .leave false else afterCheck (s.vcpu i).intrDisabled c)) := by
  have hphase := h.phase i
  apply h.goto
  · unfold PhaseOk at hphase
    rw [hpc] at hphase
    split
    · cases c <;> simp_all [PhaseOk]
    · cases c with
      | rendezvous => exact hphase
      | suspend => exact hphase
      | nmi =>
        cases hintr : (s.vcpu i).intrDisabled with
        | true => simp [PhaseOk, afterCheck, hintr]
        | false =>
          simp only [hintr, Bool.false_eq_true, imp_false, Bool.not_eq_true] at hphase
          simp [PhaseOk, afterCheck, hintr, hphase]
      | extint => exact hphase
      | lapic => simp [PhaseOk, afterCheck, hphase]
  · rw [hpc]
    nofun
  · rw [hpc]
    nofun

theorem Inv.mark (h : Inv s) (hpc : (s.vcpu i).pc = .mark)
    (hnew : (s.vcpu i).vcpuHalted = false) :
    Inv { s.setVcpu i { s.vcpu i with vcpuHalted := true, pc := .cmp } with
      halted := insert i s.halted } where
  phase j := by
    show PhaseOk ((s.setVcpu i _).vcpu j)
    by_cases hj : j = i
    · subst hj
      rw [setVcpu_same]
      exact ⟨rfl, h.phase_at hpc⟩
    · rw [setVcpu_other s _ hj]
      exact h.phase j
  halted j := by
    show j ∈ insert i s.halted ↔ ((s.setVcpu i _).vcpu j).vcpuHalted = true
    rw [Finset.mem_insert]
    by_cases hj : j = i
    · subst hj
      rw [setVcpu_same]
      exact iff_of_true (Or.inl rfl) rfl
    · rw [setVcpu_other s _ hj, h.halted j]
      exact or_iff_right hj
  inside j := by
    show ((s.setVcpu i _).vcpu j).pc ≠ .out → j ∈ s.active
    by_cases hj : j = i
    · subst hj
      intro _
      apply h.inside
      rw [hpc]
      nofun
    · rw [setVcpu_other s _ hj]
      exact h.inside j
  watched _ _ := by
    refine ⟨i, ?_⟩
    show Watching s.active ((s.setVcpu i _).vcpu i).pc
    rw [setVcpu_same]
    trivial

/-- Clearing its bit, a vCPU leaves `halted_cpus` short of an active one. -/
theorem Inv.leave (h : Inv s) {vmHalted : Bool} (hpc : (s.vcpu i).pc = .leave vmHalted) :
    Inv { s.setVcpu i { s.vcpu i with
        vcpuHalted := false, pc := if vmHalted then .suspend else .out } with
      halted := if (s.vcpu i).vcpuHalted then s.halted.erase i else s.halted } where
  phase j := by
    show PhaseOk ((s.setVcpu i _).vcpu j)
    by_cases hj : j = i
    · subst hj
      rw [setVcpu_same]
      cases vmHalted <;> rfl
    · rw [setVcpu_other s _ hj]
      exact h.phase j
  halted j := by
    show j ∈ (if (s.vcpu i).vcpuHalted then s.halted.erase i else s.halted) ↔
      ((s.setVcpu i _).vcpu j).vcpuHalted = true
    by_cases hj : j = i
    · subst hj
      rw [setVcpu_same]
      refine iff_of_false ?_ Bool.false_ne_true
      split
      · exact Finset.notMem_erase j s.halted
      · rename_i hbit
        exact mt (h.halted j).mp hbit
    · rw [setVcpu_other s _ hj, ← h.halted j]
      split
      · rw [Finset.mem_erase]
        exact and_iff_right hj
      · exact Iff.rfl
  inside j := by
    show ((s.setVcpu i _).vcpu j).pc ≠ .out → j ∈ s.active
    by_cases hj : j = i
    · subst hj
      intro _
      apply h.inside
      rw [hpc]
      nofun
    · rw [setVcpu_other s _ hj]
      exact h.inside j
  watched _ heq := by
    have hact : i ∈ s.active := h.inside i (by rw [hpc]; nofun)
    have hgone : i ∉ (if (s.vcpu i).vcpuHalted then s.halted.erase i else s.halted) := by
      split
      · exact Finset.notMem_erase i s.halted
      · rename_i hbit
        exact mt (h.halted i).mp hbit
    have hset : (if (s.vcpu i).vcpuHalted then s.halted.erase i else s.halted) = s.active := heq
    rw [hset] at hgone
    exact absurd hact hgone

/-- The second read of a comparison: equal sets lead to `leave true`. -/
theorem Inv.compared (h : Inv s) {v : Vcpu} {equal : Bool}
    (hintr : v.intrDisabled = (s.vcpu i).intrDisabled)
    (hbit : v.vcpuHalted = (s.vcpu i).vcpuHalted)
    (hcmp : (s.vcpu i).vcpuHalted = true ∧ (s.vcpu i).intrDisabled = true)
    (hin : (s.vcpu i).pc ≠ .out)
    (hwatch : s.halted = s.active → Watching s.active (s.vcpu i).pc → equal = true) :
    Inv (s.setVcpu i { v with pc := afterCmp equal }) := by
  apply h.setVcpu (v := { v with pc := afterCmp equal }) ?_ hbit (fun _ => h.inside i hin)
  · intro heq hw
    rw [hwatch heq hw]
    trivial
  · cases equal with
    | false =>
      show v.vcpuHalted = v.intrDisabled
      rw [hbit, hintr, hcmp.1, hcmp.2]
    | true =>
      show v.vcpuHalted = true ∧ v.intrDisabled = true
      rw [hbit, hintr]
      exact hcmp

theorem stepVcpu_inv (h : Inv s) (hs : stepVcpu s i = some s') : Inv s' := by
  unfold stepVcpu at hs
  cases hpc : (s.vcpu i).pc with
  | out => simp only [hpc, reduceCtorEq] at hs
  | cmp => simp only [hpc, reduceCtorEq] at hs
  | waiting => simp only [hpc, reduceCtorEq] at hs
  | suspend => simp only [hpc, reduceCtorEq] at hs
  | check c =>
    simp only [hpc, Option.some.injEq] at hs
    rw [← hs]
    exact h.check hpc
  | mark =>
    simp only [hpc] at hs
    cases hbit : (s.vcpu i).vcpuHalted with
    | true =>
      rw [hbit, if_pos rfl, Option.some.injEq] at hs
      rw [← hs]
      exact h.advance hpc (fun hintr => ⟨hbit, hintr⟩) nofun nofun
    | false =>
      rw [hbit, if_neg Bool.false_ne_true, Option.some.injEq] at hs
      rw [← hs]
      exact h.mark hpc hbit
  | cmpActive a =>
    simp only [hpc, Option.some.injEq] at hs
    rw [← hs]
    apply h.compared (v := recordHalted s i) rfl rfl (h.phase_at hpc) (by rw [hpc]; nofun)
    intro heq hw
    rw [hpc] at hw
    rw [heq]
    exact decide_eq_true hw.symm
  | cmpHalted hd =>
    simp only [hpc, Option.some.injEq] at hs
    rw [← hs]
    apply h.compared rfl rfl (h.phase_at hpc) (by rw [hpc]; nofun)
    intro _ hw
    rw [hpc] at hw
    exact decide_eq_true hw
  | sleep =>
    simp only [hpc, Option.some.injEq] at hs
    rw [← hs]
    exact h.advance hpc id nofun nofun
  | lockSleepMtx =>
    simp only [hpc, Option.some.injEq] at hs
    rw [← hs]
    exact h.advance hpc id nofun nofun
  | unlock =>
    simp only [hpc, Option.some.injEq] at hs
    rw [← hs]
    exact h.advance hpc id nofun nofun
  | released =>
    simp only [hpc, Option.some.injEq] at hs
    rw [← hs]
    exact h.advance hpc id nofun nofun
  | woken =>
    simp only [hpc, Option.some.injEq] at hs
    rw [← hs]
    exact h.advance hpc id nofun nofun
  | leave vmHalted =>
    simp only [hpc, Option.some.injEq] at hs
    rw [← hs]
    exact h.leave hpc

/-- The end of a wait. -/
theorem Inv.wake (h : Inv s) (hpc : (s.vcpu i).pc = .waiting) : Inv (s.goto i .woken) := by
  have hphase : (s.vcpu i).vcpuHalted = (s.vcpu i).intrDisabled := h.phase_at hpc
  apply h.advance hpc ?_ nofun nofun
  intro _ hbit
  exact hphase.symm.trans hbit

theorem Inv.activate (h : Inv s) {n : Nat} (hn : n ∉ s.active) :
    Inv { s with active := insert n s.active } where
  phase := h.phase
  halted := h.halted
  inside i hi := Finset.mem_insert_of_mem (h.inside i hi)
  watched _ heq := by
    have hmem : n ∈ s.halted := by
      rw [show s.halted = insert n s.active from heq]
      exact Finset.mem_insert_self n s.active
    exact absurd (h.halted_subset hmem) hn

theorem post_some {t : Nat} {u : State} (hs : post s t u = some s') : s.posters t = none ∧ s' = u := by
  unfold post at hs
  split at hs
  · cases hs
  · rename_i hfree
    exact ⟨hfree, (Option.some.inj hs).symm⟩

/-- A notification leaves the vCPU where it is, or ends its wait. -/
theorem notifyEvent_cases (hs : vcpuNotifyEvent s i = some s') :
    (s.vcpu i).pc.locked = false ∧
      (((s.vcpu i).pc = .waiting ∧ s' = s.goto i .woken) ∨ ((s.vcpu i).pc ≠ .waiting ∧ s' = s)) := by
  unfold vcpuNotifyEvent at hs
  split at hs
  · cases hs
  · rename_i hlock
    refine ⟨Bool.eq_false_of_not_eq_true hlock, ?_⟩
    split at hs
    · rename_i hpc
      exact Or.inl ⟨hpc, (Option.some.inj hs).symm⟩
    · rename_i hpc
      exact Or.inr ⟨hpc, (Option.some.inj hs).symm⟩

/-- A poster's step notifies one vCPU or none, and moves the poster on. -/
theorem stepPoster_cases {t : Nat} (hs : stepPoster s t = some s') :
    ∃ p, (∃ i u, vcpuNotifyEvent s i = some u ∧ s' = u.setPoster t p) ∨ s' = s.setPoster t p := by
  have hturn : ∀ i isset q, loopTurn s t i isset q = some s' →
      ∃ p, (∃ i u, vcpuNotifyEvent s i = some u ∧ s' = u.setPoster t p) ∨ s' = s.setPoster t p := by
    intro i isset q hs
    unfold loopTurn at hs
    split at hs
    · exact ⟨none, Or.inr (Option.some.inj hs).symm⟩
    · split at hs
      · obtain ⟨u, hu, heq⟩ := Option.map_eq_some_iff.mp hs
        exact ⟨some q, Or.inl ⟨i, u, hu, heq.symm⟩⟩
      · exact ⟨some q, Or.inr (Option.some.inj hs).symm⟩
  unfold stepPoster at hs
  split at hs
  · cases hs
  · obtain ⟨u, hu, heq⟩ := Option.map_eq_some_iff.mp hs
    exact ⟨none, Or.inl ⟨_, u, hu, heq.symm⟩⟩
  · exact hturn _ _ _ hs
  · exact hturn _ _ _ hs

theorem stepPoster_inv (h : Inv s) {t : Nat} (hs : stepPoster s t = some s') : Inv s' := by
  obtain ⟨p, ⟨i, u, hu, rfl⟩ | rfl⟩ := stepPoster_cases hs
  · apply Inv.setPoster
    obtain ⟨_, ⟨hpc, rfl⟩ | ⟨_, rfl⟩⟩ := notifyEvent_cases hu
    · exact h.wake hpc
    · exact h
  · exact h.setPoster t p

theorem Inv.vmSuspend (h : Inv s) (t : Nat) (how : SuspendHow) : Inv (Halt.vmSuspend s t how) := by
  unfold Halt.vmSuspend
  split
  · exact h
  · apply Inv.setPoster
    exact h.congr rfl rfl rfl fun hnone => by cases hnone

theorem next_inv {op : Op} (h : Inv s) (hs : next s op = some s') : Inv s' := by
  cases op with
  | hlt i intrDisabled =>
    simp only [next] at hs
    split at hs
    · rename_i hin
      cases hs
      have hclear : (s.vcpu i).vcpuHalted = false := h.phase_at hin.2
      apply h.setVcpu ?_ hclear.symm fun _ => hin.1
      · rw [hin.2]
        nofun
      · exact fun hbit => absurd hbit Bool.false_ne_true
    · cases hs
  | step i => exact stepVcpu_inv h hs
  | readActive i =>
    simp only [next] at hs
    split at hs
    · rename_i hpc
      cases hs
      exact h.advance hpc id nofun fun _ _ => rfl
    · cases hs
  | readHalted i =>
    simp only [next] at hs
    split at hs
    · rename_i hpc
      cases hs
      exact h.setVcpu (h.phase_at hpc) rfl (fun _ => h.inside i (by rw [hpc]; nofun)) fun heq _ => heq
    · cases hs
  | wake i =>
    simp only [next] at hs
    split at hs
    · rename_i hpc
      cases hs
      exact h.wake hpc
    · cases hs
  | own i vlapic nmiPending extintPending =>
    simp only [next] at hs
    split at hs
    · cases hs
      exact h.event rfl rfl rfl
    · cases hs
  | activate n =>
    simp only [next] at hs
    split at hs
    · rename_i hn
      cases hs
      exact h.activate hn.2.1
    · cases hs
  | injectNmi t i =>
    obtain ⟨_, rfl⟩ := post_some hs
    apply Inv.setPoster
    exact h.event rfl rfl rfl
  | injectExtint t i =>
    obtain ⟨_, rfl⟩ := post_some hs
    apply Inv.setPoster
    exact h.event rfl rfl rfl
  | setIntr t i vector level =>
    obtain ⟨_, rfl⟩ := post_some hs
    apply Inv.setPoster
    exact h.event rfl rfl rfl
  | suspend t how =>
    obtain ⟨_, rfl⟩ := post_some hs
    exact h.vmSuspend t how
  | haltSuspend t i =>
    simp only [next] at hs
    split at hs
    · rename_i hpc
      obtain ⟨_, rfl⟩ := post_some hs
      have hclear : (s.vcpu i).vcpuHalted = false := h.phase_at hpc
      apply Inv.vmSuspend
      exact h.advance hpc (fun _ => hclear) nofun nofun
    · cases hs
  | rendezvous t dest =>
    simp only [next] at hs
    split at hs
    · cases hs
    · obtain ⟨_, rfl⟩ := post_some hs
      apply Inv.setPoster
      exact h.congr rfl rfl rfl id
  | endRendezvous =>
    cases hs
    exact h.congr rfl rfl rfl id
  | notify t => exact stepPoster_inv h hs

theorem initial_inv (h : Initial s) : Inv s where
  phase i := by
    unfold PhaseOk
    rw [h.out]
    exact h.notHalted i
  halted i := by
    rw [h.halted, h.notHalted]
    exact iff_of_false (Finset.notMem_empty i) Bool.false_ne_true
  inside i hi := absurd (h.out i) hi
  watched _ heq := by
    rw [h.halted, h.active] at heq
    exact absurd heq.symm (Finset.singleton_ne_empty 0)

end Steps

/-! ## What the comparisons have read -/

section Saw
variable {s s' : State} {i : Nat}

def Saw (s : State) : Prop := ∀ i, SawOk s (s.vcpu i)

theorem Saw.setVcpu (h : Saw s) {v : Vcpu} (hv : SawOk s v) : Saw (s.setVcpu i v) := by
  intro j
  by_cases hj : j = i
  · subst hj
    rw [setVcpu_same]
    exact hv
  · rw [setVcpu_other s v hj]
    exact h j

theorem Saw.event (h : Saw s) {v : Vcpu} (hpc : v.pc = (s.vcpu i).pc)
    (hsaw : v.sawAllHalted = (s.vcpu i).sawAllHalted) : Saw (s.setVcpu i v) := by
  apply h.setVcpu
  have hi := h i
  unfold SawOk at hi ⊢
  rw [hpc, hsaw]
  exact hi

/-- With all active vCPUs in `halted_cpus`, all of them are halted. -/
theorem Inv.sawAllHalted (h : Inv s) (i : Nat) (hsub : s.active ⊆ s.halted) :
    (recordHalted s i).sawAllHalted = true := by
  apply decide_eq_true
  intro k hk
  exact h.hardHalted (hsub hk)

theorem stepVcpu_saw (h : Inv s) (hsaw : Saw s) (hs : stepVcpu s i = some s') : Saw s' := by
  have hi := hsaw i
  unfold SawOk at hi
  unfold stepVcpu at hs
  cases hpc : (s.vcpu i).pc with
  | out => simp only [hpc, reduceCtorEq] at hs
  | cmp => simp only [hpc, reduceCtorEq] at hs
  | waiting => simp only [hpc, reduceCtorEq] at hs
  | suspend => simp only [hpc, reduceCtorEq] at hs
  | check c =>
    simp only [hpc, Option.some.injEq] at hs
    rw [← hs]
    apply hsaw.setVcpu
    cases s.holds i c with
    | true => trivial
    | false =>
      cases c with
      | nmi => cases (s.vcpu i).intrDisabled <;> trivial
      | _ => trivial
  | mark =>
    simp only [hpc] at hs
    split at hs
    · cases hs
      exact hsaw.setVcpu trivial
    · cases hs
      exact hsaw.setVcpu (i := i) (v := { s.vcpu i with vcpuHalted := true, pc := .cmp }) trivial
  | cmpActive a =>
    simp only [hpc, Option.some.injEq] at hs hi
    rw [← hs]
    apply hsaw.setVcpu
    by_cases heq : s.halted = a
    · rw [decide_eq_true heq]
      exact h.sawAllHalted i (Finset.subset_of_eq (heq.trans hi).symm)
    · rw [decide_eq_false heq]
      trivial
  | cmpHalted hd =>
    simp only [hpc, Option.some.injEq] at hs hi
    rw [← hs]
    apply hsaw.setVcpu
    by_cases heq : hd = s.active
    · rw [decide_eq_true heq]
      exact hi (Finset.subset_of_eq heq.symm)
    · rw [decide_eq_false heq]
      trivial
  | sleep =>
    simp only [hpc, Option.some.injEq] at hs
    rw [← hs]
    exact hsaw.setVcpu trivial
  | lockSleepMtx =>
    simp only [hpc, Option.some.injEq] at hs
    rw [← hs]
    exact hsaw.setVcpu trivial
  | unlock =>
    simp only [hpc, Option.some.injEq] at hs
    rw [← hs]
    exact hsaw.setVcpu trivial
  | released =>
    simp only [hpc, Option.some.injEq] at hs
    rw [← hs]
    exact hsaw.setVcpu trivial
  | woken =>
    simp only [hpc, Option.some.injEq] at hs
    rw [← hs]
    exact hsaw.setVcpu trivial
  | leave vmHalted =>
    simp only [hpc, Option.some.injEq] at hs hi
    rw [← hs]
    intro j
    apply hsaw.setVcpu (i := i)
    cases vmHalted with
    | false => trivial
    | true => exact hi

theorem stepPoster_saw (h : Saw s) {t : Nat} (hs : stepPoster s t = some s') : Saw s' := by
  obtain ⟨p, ⟨i, u, hu, rfl⟩ | rfl⟩ := stepPoster_cases hs
  · obtain ⟨_, ⟨_, rfl⟩ | ⟨_, rfl⟩⟩ := notifyEvent_cases hu
    · exact h.setVcpu (i := i) (v := { s.vcpu i with pc := .woken }) trivial
    · exact h
  · exact h

theorem Saw.vmSuspend (h : Saw s) (t : Nat) (how : SuspendHow) : Saw (Halt.vmSuspend s t how) := by
  unfold Halt.vmSuspend
  split
  · exact h
  · exact h

theorem next_saw {op : Op} (h : Inv s) (hsaw : Saw s) (hok : ActivationApart s op)
    (hs : next s op = some s') : Saw s' := by
  cases op with
  | hlt i intrDisabled =>
    simp only [next] at hs
    split at hs
    · cases hs
      exact hsaw.setVcpu trivial
    · cases hs
  | step i => exact stepVcpu_saw h hsaw hs
  | readActive i =>
    simp only [next] at hs
    split at hs
    · cases hs
      exact hsaw.setVcpu rfl
    · cases hs
  | readHalted i =>
    simp only [next] at hs
    split at hs
    · cases hs
      exact hsaw.setVcpu (h.sawAllHalted i)
    · cases hs
  | wake i =>
    simp only [next] at hs
    split at hs
    · cases hs
      exact hsaw.setVcpu trivial
    · cases hs
  | own i vlapic nmiPending extintPending =>
    simp only [next] at hs
    split at hs
    · cases hs
      exact hsaw.event rfl rfl
    · cases hs
  | activate n =>
    simp only [next] at hs
    split at hs
    · cases hs
      intro i
      have hi := hsaw i
      unfold SawOk at hi ⊢
      cases hpc : (s.vcpu i).pc with
      | cmpActive a => exact absurd hpc (hok i a)
      | cmpHalted hd =>
        simp only [hpc] at hi ⊢
        intro hsub
        exact hi ((Finset.subset_insert n s.active).trans hsub)
      | leave vmHalted =>
        rw [hpc] at hi
        cases vmHalted with
        | false => trivial
        | true => exact hi
      | suspend =>
        rw [hpc] at hi
        exact hi
      | _ => trivial
    · cases hs
  | injectNmi t i =>
    obtain ⟨_, rfl⟩ := post_some hs
    exact hsaw.event (i := i) (v := { s.vcpu i with nmiPending := true }) rfl rfl
  | injectExtint t i =>
    obtain ⟨_, rfl⟩ := post_some hs
    exact hsaw.event (i := i) (v := { s.vcpu i with extintPending := true }) rfl rfl
  | setIntr t i vector level =>
    obtain ⟨_, rfl⟩ := post_some hs
    exact hsaw.event (i := i) (v := { s.vcpu i with
      vlapic := (Lapic.vlapicSetIntrReady (s.vcpu i).vlapic vector level).1 }) rfl rfl
  | suspend t how =>
    obtain ⟨_, rfl⟩ := post_some hs
    exact hsaw.vmSuspend t how
  | haltSuspend t i =>
    simp only [next] at hs
    split at hs
    · obtain ⟨_, rfl⟩ := post_some hs
      apply Saw.vmSuspend
      exact hsaw.setVcpu trivial
    · cases hs
  | rendezvous t dest =>
    simp only [next] at hs
    split at hs
    · cases hs
    · obtain ⟨_, rfl⟩ := post_some hs
      exact hsaw
  | endRendezvous =>
    cases hs
    exact hsaw
  | notify t => exact stepPoster_saw hsaw hs

end Saw

/-! ## Whole runs -/

section Runs

theorem inv_inductive : system.Inductive Inv where
  init _ h := initial_inv h
  step _ _ _ h hs := next_inv h hs

theorem saw_inductive : (system.restrict ActivationApart).Inductive fun s => Inv s ∧ Saw s where
  init s h := by
    refine ⟨initial_inv h, ?_⟩
    intro i
    unfold SawOk
    rw [h.out]
    trivial
  step _ _ _ h hs := ⟨next_inv h.1 hs.2, next_saw h.1 h.2 hs.1 hs.2⟩

/-- No machine is left with all its active vCPUs in the wait and interrupts disabled. -/
theorem Inv.not_all_waiting {s : State} (h : Inv s) (hs : s.suspend = none) :
    ¬ ∀ i ∈ s.active, (s.vcpu i).pc = .waiting ∧ (s.vcpu i).intrDisabled = true := by
  intro hall
  have heq : s.halted = s.active := by
    apply Finset.Subset.antisymm h.halted_subset
    intro i hi
    have hphase : (s.vcpu i).vcpuHalted = (s.vcpu i).intrDisabled := h.phase_at (hall i hi).1
    exact (h.halted i).mpr (hphase.trans (hall i hi).2)
  obtain ⟨j, hj⟩ := h.watched hs heq
  have hact : j ∈ s.active := by
    apply h.inside
    intro hout
    rw [hout] at hj
    exact hj
  rw [(hall j hact).1] at hj
  exact hj

/-- In a run in which no vCPU is activated between the two reads of a comparison, a vCPU that asks
for the machine to be halted read `halted_cpus` when all active ones were halted; no machine is left
with all of them in the wait; and `halted_cpus` holds only vCPUs in `vm_handle_hlt`. -/
theorem halt_detection_exact (s : State) (h : (system.restrict ActivationApart).Reachable s) :
    (∀ t i s', next s (.haltSuspend t i) = some s' → (s.vcpu i).sawAllHalted = true) ∧
      ¬ (s.suspend = none ∧
        ∀ i ∈ s.active, (s.vcpu i).pc = .waiting ∧ (s.vcpu i).intrDisabled = true) ∧
      ∀ i ∈ s.halted, (s.vcpu i).pc ≠ .out := by
  obtain ⟨hinv, hsaw⟩ := saw_inductive.reachable h
  refine ⟨?_, fun hall => hinv.not_all_waiting hall.1 hall.2, fun i hi => (hinv.hardHalted hi).1⟩
  intro t i s' hs
  simp only [next] at hs
  split at hs
  · rename_i hpc
    have hi := hsaw i
    unfold SawOk at hi
    rw [hpc] at hi
    exact hi
  · cases hs

/-- The machine when its boot vCPU starts. -/
def bootState : State where
  vcpu _ := ⟨.out, false, false, false, false, Lapic.bzero, false⟩
  active := {0}
  halted := ∅
  suspend := none
  rendezvousFunc := false
  posters _ := none

theorem bootState_initial : Initial bootState :=
  ⟨fun _ => rfl, fun _ => rfl, rfl, rfl, rfl, rfl, fun _ => rfl⟩

/-- A vCPU enters with interrupts disabled, finds nothing pending and sets its bit. -/
def hardHlt (i : Nat) : List Op := [.hlt i true, .step i, .step i, .step i, .step i]

/-- vCPU 1 is activated; it sleeps, and vCPU 0 finds both halted. -/
theorem halt_detection_two :
    ∃ s s', System.exec next { bootState with active := insert 1 {0} }
        (hardHlt 1 ++ [.readActive 1] ++ [.step 1, .step 1, .step 1, .step 1] ++
          hardHlt 0 ++ [.readActive 0, .step 0, .step 0]) = some s ∧
      next s (.haltSuspend 0 0) = some s' ∧ (s.vcpu 0).sawAllHalted = true := by
  refine ⟨_, _, rfl, rfl, ?_⟩
  refine (halt_detection_exact _ ?_).1 0 0 _ rfl
  refine System.exec_reachable_restrict ?_ ?_
    (rfl : System.exec next { bootState with active := insert 1 {0} }
      (hardHlt 1 ++ [.readActive 1] ++ [.step 1, .step 1, .step 1, .step 1] ++
        hardHlt 0 ++ [.readActive 0, .step 0, .step 0]) = some _)
  · intro op hop s
    simp only [hardHlt, List.cons_append, List.nil_append, List.mem_cons, List.not_mem_nil,
      or_false] at hop
    rcases hop with rfl | rfl | rfl | rfl | rfl | rfl | rfl | rfl | rfl | rfl | rfl | rfl | rfl |
      rfl | rfl | rfl | rfl | rfl <;> trivial
  · refine System.Reachable.step (a := .activate 1) (System.Reachable.init bootState_initial) ?_
    exact ⟨nofun, rfl⟩

/-- vCPU 1 has read `active_cpus` when vCPU 0 activates vCPU 2 and halts: vCPU 1 then asks for the
machine to be halted while vCPU 2 runs. -/
def missedRun : List Op :=
  [.activate 1] ++ hardHlt 1 ++ [.readActive 1, .activate 2] ++ hardHlt 0 ++ [.step 1, .step 1]

theorem halt_detection_missed :
    ∃ s s', system.Reachable s ∧ next s (.haltSuspend 0 1) = some s' ∧
      s'.suspend = some .halt ∧ (s.vcpu 1).sawAllHalted = false ∧
      2 ∈ s.active ∧ (s.vcpu 2).pc = .out := by
  have hrun : ∃ s, System.exec next bootState missedRun = some s ∧
      ∃ s', next s (.haltSuspend 0 1) = some s' ∧ s'.suspend = some .halt ∧
        (s.vcpu 1).sawAllHalted = false ∧ 2 ∈ s.active ∧ (s.vcpu 2).pc = .out :=
    ⟨_, rfl, _, rfl, rfl, by decide, by decide, by decide⟩
  obtain ⟨s, hexec, s', hs'⟩ := hrun
  exact ⟨s, s', System.exec_reachable (System.Reachable.init bootState_initial) hexec, hs'⟩

end Runs

end Xhyve.Vmm.Halt
