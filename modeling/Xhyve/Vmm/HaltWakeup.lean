import Xhyve.Vmm.HaltDetection

/-!
# Waking a halted vCPU

Whatever ends the sleep of a vCPU is posted first and notified of afterwards. A condition that the
vCPU has found false in this turn of its loop, and that holds now, was posted since; its poster needs
the vCPU lock to notify, so it has still to do so when the vCPU gives up the lock. Between
there and the wait the vCPU has neither lock nor wait, and a signal that comes then is lost; and a
rendezvous notifies nobody but its own vCPUs, though it ends the sleep of all.
-/

namespace Xhyve.Vmm.Halt

open Xhyve.Lib

def Check.rank : Check → Nat
  | .rendezvous => 0
  | .suspend => 1
  | .nmi => 2
  | .extint => 3
  | .lapic => 4

/-- With interrupts disabled the last two conditions are not looked at. -/
def Check.relevant (intrDisabled : Bool) (c : Check) : Prop := c.rank ≤ 2 ∨ intrDisabled = false

/-- The conditions a vCPU has found false in this turn of its loop. -/
def Passed (v : Vcpu) (c : Check) : Prop :=
  match v.pc with
  | .check d => c.rank < d.rank
  | .mark | .cmp | .cmpActive _ | .cmpHalted _ | .sleep | .lockSleepMtx | .unlock | .released
  | .waiting => c.relevant v.intrDisabled
  | _ => False

/-- Whether a poster has still to notify a vCPU. -/
def Targets (active : Finset Nat) (i : Nat) : Option Poster → Prop
  | none => False
  | some (.notify k) => k = i
  | some (.suspendLoop j) => j ≤ i ∧ i < vmMaxcpu ∧ i ∈ active
  | some (.rendezvousLoop dest j) => j ≤ i ∧ i < vmMaxcpu ∧ i ∈ dest

def Awaited (s : State) (i : Nat) : Prop := ∃ t, Targets s.active i (s.posters t)

/-- Whom a poster's next step notifies. -/
def notifies (active : Finset Nat) : Option Poster → Option Nat
  | none => none
  | some (.notify i) => some i
  | some (.suspendLoop i) => if i < vmMaxcpu ∧ i ∈ active then some i else none
  | some (.rendezvousLoop dest i) => if i < vmMaxcpu ∧ i ∈ dest then some i else none

/-- No signal is sent to a vCPU that is about to wait, and a rendezvous is for all vCPUs in
`vm_handle_hlt`. -/
def SignalReaches (s : State) : Op → Prop
  | .notify t => ∀ i, notifies s.active (s.posters t) = some i → (s.vcpu i).pc ≠ .released
  | .rendezvous _ dest => ∀ i, (s.vcpu i).pc ≠ .out → i ∈ dest
  | _ => True

structure Covered (s : State) : Prop where
  active_lt : ∀ i ∈ s.active, i < vmMaxcpu
  awaited : ∀ i c, Passed (s.vcpu i) c → s.holds i c = true → Awaited s i

section Covered
variable {s s' : State} {i t : Nat}

theorem passed_not_out {v : Vcpu} {c : Check} (h : Passed v c) : v.pc ≠ .out := by
  intro hout
  unfold Passed at h
  rw [hout] at h
  exact h

/-- Away from its loop and at its first check a vCPU relies on nobody. -/
theorem not_passed_of_pc {v : Vcpu} {c : Check}
    (h : v.pc = .out ∨ v.pc = .woken ∨ v.pc = .suspend ∨ v.pc = .check .rendezvous ∨
      ∃ b, v.pc = .leave b) : ¬ Passed v c := by
  intro hp
  unfold Passed at hp
  rcases h with h | h | h | h | ⟨b, h⟩
  · rw [h] at hp
    exact hp
  · rw [h] at hp
    exact hp
  · rw [h] at hp
    exact hp
  · rw [h] at hp
    exact Nat.not_lt_zero _ hp
  · rw [h] at hp
    exact hp

/-- Other threads' doings that a vCPU does not see. -/
theorem holds_other (s : State) {i j : Nat} (v : Vcpu) (c : Check) (h : j ≠ i) :
    (s.setVcpu i v).holds j c = s.holds j c := by
  cases c with
  | rendezvous => rfl
  | suspend => rfl
  | nmi => rw [State.holds, State.holds, setVcpu_other s v h]
  | extint => rw [State.holds, State.holds, setVcpu_other s v h]
  | lapic => rw [State.holds, State.holds, setVcpu_other s v h]

theorem Covered.setVcpu (h : Covered s) {v : Vcpu}
    (hv : ∀ c, Passed v c → (s.setVcpu i v).holds i c = true → Awaited s i) :
    Covered (s.setVcpu i v) where
  active_lt := h.active_lt
  awaited j c := by
    by_cases hj : j = i
    · subst hj
      rw [setVcpu_same]
      exact hv c
    · rw [setVcpu_other s v hj, holds_other s v c hj]
      exact h.awaited j c

/-- A vCPU that moves on in its loop, with its events as they are: it relies on others only for what
it has found false. -/
theorem Covered.moves (h : Covered s) {v : Vcpu} (hnmi : v.nmiPending = (s.vcpu i).nmiPending)
    (hext : v.extintPending = (s.vcpu i).extintPending) (hlapic : v.vlapic = (s.vcpu i).vlapic)
    (hpc : ∀ c, Passed v c → Passed (s.vcpu i) c ∨ s.holds i c = false) :
    Covered (s.setVcpu i v) := by
  apply h.setVcpu
  intro c hp hc
  have hsame : (s.setVcpu i v).holds i c = s.holds i c := by
    cases c with
    | rendezvous => rfl
    | suspend => rfl
    | nmi => rw [State.holds, State.holds, setVcpu_same, hnmi]
    | extint => rw [State.holds, State.holds, setVcpu_same, hext]
    | lapic => rw [State.holds, State.holds, setVcpu_same, hlapic]
  rw [hsame] at hc
  rcases hpc c hp with hold | hfalse
  · exact h.awaited i c hold hc
  · rw [hfalse] at hc
    cases hc

theorem Covered.goto (h : Covered s) {pc : Pc}
    (hpc : ∀ c, Passed { s.vcpu i with pc := pc } c →
      Passed (s.vcpu i) c ∨ s.holds i c = false) : Covered (s.goto i pc) :=
  h.moves rfl rfl rfl hpc

theorem Covered.leaves (h : Covered s) {pc : Pc}
    (hpc : pc = .out ∨ pc = .woken ∨ pc = .suspend ∨ pc = .check .rendezvous ∨
      ∃ b, pc = .leave b) : Covered (s.goto i pc) :=
  h.goto fun _ hp => absurd hp (not_passed_of_pc hpc)

/-- Posters may be added, and other fields changed, as long as no condition comes to hold. -/
theorem Covered.congr (h : Covered s) (hv : s'.vcpu = s.vcpu) (ha : s'.active = s.active)
    (hh : ∀ j c, s'.holds j c = true → s.holds j c = true)
    (hp : ∀ j, Awaited s j → Awaited s' j) : Covered s' where
  active_lt := by
    rw [ha]
    exact h.active_lt
  awaited j c hj hc := by
    rw [hv] at hj
    exact hp j (h.awaited j c hj (hh j c hc))

/-- Everybody in `vm_handle_hlt` is awaited. -/
theorem Covered.of_all (hlt : ∀ i ∈ s.active, i < vmMaxcpu)
    (hall : ∀ j, (s.vcpu j).pc ≠ .out → Awaited s j) : Covered s where
  active_lt := hlt
  awaited j _ hj _ := hall j (passed_not_out hj)

theorem Covered.setHalted (h : Covered s) (halted : Finset Nat) :
    Covered { s with halted := halted } :=
  h.congr rfl rfl (fun _ _ hc => hc) fun _ hp => hp

theorem awaited_setPoster {p : Option Poster}
    (hp : Targets s.active i (s.posters t) → Targets s.active i p) (h : Awaited s i) :
    Awaited (s.setPoster t p) i := by
  obtain ⟨u, hu⟩ := h
  refine ⟨u, ?_⟩
  show Targets s.active i (Function.update s.posters t p u)
  by_cases hut : u = t
  · subst hut
    rw [Function.update_self]
    exact hp hu
  · rw [Function.update_of_ne hut]
    exact hu

theorem awaited_new {p : Option Poster} (h : Targets s.active i p) :
    Awaited (s.setPoster t p) i := by
  refine ⟨t, ?_⟩
  show Targets s.active i (Function.update s.posters t p t)
  rw [Function.update_self]
  exact h

theorem Covered.setPoster (h : Covered s) {p : Option Poster}
    (hp : ∀ j, Targets s.active j (s.posters t) → Targets s.active j p) :
    Covered (s.setPoster t p) :=
  h.congr rfl rfl (fun _ _ hc => hc) fun j => awaited_setPoster (hp j)

/-- An event is posted to a vCPU by a thread that will notify it. -/
theorem Covered.event (h : Covered s) (hfree : s.posters t = none) (v : Vcpu) :
    Covered ((s.setVcpu i v).setPoster t (some (.notify i))) where
  active_lt := h.active_lt
  awaited j c hj hc := by
    by_cases hji : j = i
    · subst hji
      exact awaited_new rfl
    · change Passed ((s.setVcpu i v).vcpu j) c at hj
      change (s.setVcpu i v).holds j c = true at hc
      rw [setVcpu_other s v hji] at hj
      rw [holds_other s v c hji] at hc
      apply awaited_setPoster
      · intro hnone
        rw [show (s.setVcpu i v).posters t = none from hfree] at hnone
        exact hnone.elim
      · exact h.awaited j c hj hc

/-- A vCPU that is notified, by a signal that reaches it if it is about to wait. -/
theorem Covered.notify (h : Covered s) (hs : vcpuNotifyEvent s i = some s')
    (hrel : (s.vcpu i).pc ≠ .released) {p : Option Poster}
    (hp : ∀ j, j ≠ i → Targets s.active j (s.posters t) → Targets s.active j p) :
    Covered (s'.setPoster t p) := by
  obtain ⟨hlock, hcase⟩ := notifyEvent_cases hs
  -- The vCPU notified relies on nobody then.
  have hfree : Covered s' ∧ s'.active = s.active ∧ s'.posters = s.posters ∧
      ∀ c, ¬ Passed (s'.vcpu i) c := by
    rcases hcase with ⟨hwait, rfl⟩ | ⟨hwait, rfl⟩
    · refine ⟨h.leaves (Or.inr (Or.inl rfl)), rfl, rfl, ?_⟩
      intro c
      apply not_passed_of_pc
      rw [State.goto, setVcpu_same]
      exact Or.inr (Or.inl rfl)
    · refine ⟨h, rfl, rfl, fun c => not_passed_of_pc ?_⟩
      cases hpc : (s'.vcpu i).pc with
      | out => exact Or.inl rfl
      | woken => exact Or.inr (Or.inl rfl)
      | suspend => exact Or.inr (Or.inr (Or.inl rfl))
      | released => exact absurd hpc hrel
      | waiting => exact absurd hpc hwait
      | _ =>
        rw [hpc] at hlock
        cases hlock
  obtain ⟨hcov, hact, hpost, hnone⟩ := hfree
  constructor
  · exact hcov.active_lt
  · intro j c hj hc
    have hji : j ≠ i := by
      intro heq
      subst heq
      exact hnone c hj
    apply awaited_setPoster _ (hcov.awaited j c hj hc)
    rw [hact, hpost]
    exact hp j hji

end Covered

/-! ## Every step -/

section Steps
variable {s s' : State} {i t : Nat}

theorem Covered.check (h : Covered s) {c : Check} (hpc : (s.vcpu i).pc = .check c) :
    Covered (s.goto i
      (if s.holds i c then .leave false else afterCheck (s.vcpu i).intrDisabled c)) := by
  cases hc : s.holds i c with
  | true => exact h.leaves (Or.inr (Or.inr (Or.inr (Or.inr ⟨false, rfl⟩))))
  | false =>
    apply h.goto
    intro d hd
    by_cases hdc : d = c
    · subst hdc
      exact Or.inr hc
    · -- What was passed at the next place, but for this condition, was passed before.
      left
      unfold Passed
      rw [hpc]
      show d.rank < c.rank
      cases c with
      | nmi =>
        cases hintr : (s.vcpu i).intrDisabled with
        | true =>
          have hrel : d.relevant (s.vcpu i).intrDisabled := by simpa [afterCheck, hintr, Passed] using hd
          unfold Check.relevant at hrel
          rw [hintr] at hrel
          cases d <;> simp_all [Check.rank]
        | false =>
          have hlt : d.rank < 3 := by simpa [afterCheck, hintr, Passed, Check.rank] using hd
          cases d <;> simp_all [Check.rank]
      | rendezvous =>
        have hlt : d.rank < 1 := hd
        cases d <;> simp_all [Check.rank]
      | suspend =>
        have hlt : d.rank < 2 := hd
        cases d <;> simp_all [Check.rank]
      | extint =>
        have hlt : d.rank < 4 := hd
        cases d <;> simp_all [Check.rank]
      | lapic => cases d <;> simp_all [Check.rank]

/-- Where the conditions passed are all there are, they stay so. -/
theorem Covered.advance (h : Covered s) {p q : Pc} (hpc : (s.vcpu i).pc = p)
    (hq : ∀ c, Passed { s.vcpu i with pc := q } c → Passed { s.vcpu i with pc := p } c) :
    Covered (s.goto i q) := by
  apply h.goto
  intro c hc
  left
  have hp := hq c hc
  rw [← hpc] at hp
  exact hp

theorem passed_afterCmp {v : Vcpu} {equal : Bool} {c : Check}
    (h : Passed { v with pc := afterCmp equal } c) : c.relevant v.intrDisabled := by
  cases equal with
  | false => exact h
  | true => exact absurd h (not_passed_of_pc (Or.inr (Or.inr (Or.inr (Or.inr ⟨true, rfl⟩)))))

theorem stepVcpu_covered (h : Covered s) (hs : stepVcpu s i = some s') : Covered s' := by
  unfold stepVcpu at hs
  cases hpc : (s.vcpu i).pc with
  | out => simp only [hpc, reduceCtorEq] at hs
  | cmp => simp only [hpc, reduceCtorEq] at hs
  | waiting => simp only [hpc, reduceCtorEq] at hs
  | suspend => simp only [hpc, reduceCtorEq] at hs
  | check c =>
    simp only [hpc, Option.some.injEq] at hs
    rw [← hs]
    exact h.check hpc
  | mark =>
    simp only [hpc] at hs
    split at hs
    · cases hs
      exact h.advance hpc fun _ => id
    · cases hs
      apply Covered.setHalted
      refine h.moves rfl rfl rfl ?_
      intro c hc
      left
      rw [Passed, hpc]
      exact hc
  | cmpActive a =>
    simp only [hpc, Option.some.injEq] at hs
    rw [← hs]
    refine h.moves rfl rfl rfl ?_
    intro c hc
    left
    rw [Passed, hpc]
    exact passed_afterCmp hc
  | cmpHalted hd =>
    simp only [hpc, Option.some.injEq] at hs
    rw [← hs]
    exact h.advance hpc fun _ => passed_afterCmp
  | sleep =>
    simp only [hpc, Option.some.injEq] at hs
    rw [← hs]
    exact h.advance hpc fun _ => id
  | lockSleepMtx =>
    simp only [hpc, Option.some.injEq] at hs
    rw [← hs]
    exact h.advance hpc fun _ => id
  | unlock =>
    simp only [hpc, Option.some.injEq] at hs
    rw [← hs]
    exact h.advance hpc fun _ => id
  | released =>
    simp only [hpc, Option.some.injEq] at hs
    rw [← hs]
    exact h.advance hpc fun _ => id
  | woken =>
    simp only [hpc, Option.some.injEq] at hs
    rw [← hs]
    exact h.leaves (Or.inr (Or.inr (Or.inr (Or.inl rfl))))
  | leave vmHalted =>
    simp only [hpc, Option.some.injEq] at hs
    rw [← hs]
    apply Covered.setHalted
    refine h.moves rfl rfl rfl ?_
    intro c hc
    refine absurd hc (not_passed_of_pc ?_)
    cases vmHalted with
    | false => exact Or.inl rfl
    | true => exact Or.inr (Or.inr (Or.inl rfl))

/-- A turn of a loop over the vCPUs, which notifies those that it is for. -/
theorem Covered.loopTurn (h : Covered s) {j : Nat} {isset : Bool} {q : Poster}
    (hs : Halt.loopTurn s t j isset q = some s')
    (hrel : j < vmMaxcpu → isset = true → (s.vcpu j).pc ≠ .released)
    (hend : vmMaxcpu ≤ j → ∀ i, ¬ Targets s.active i (s.posters t))
    (hskip : isset = false → ¬ Targets s.active j (s.posters t))
    (hnext : ∀ i, i ≠ j → Targets s.active i (s.posters t) → Targets s.active i (some q)) :
    Covered s' := by
  unfold Halt.loopTurn at hs
  split at hs
  · rename_i hge
    cases hs
    exact h.setPoster fun i hi => absurd hi (hend hge i)
  · rename_i hlt
    cases isset with
    | true =>
      obtain ⟨u, hu, rfl⟩ := Option.map_eq_some_iff.mp hs
      exact h.notify hu (hrel (by omega) rfl) hnext
    | false =>
      cases hs
      apply h.setPoster
      intro i hi
      refine hnext i ?_ hi
      intro heq
      exact hskip rfl (heq ▸ hi)

theorem stepPoster_covered (h : Covered s)
    (hok : ∀ i, notifies s.active (s.posters t) = some i → (s.vcpu i).pc ≠ .released)
    (hs : stepPoster s t = some s') : Covered s' := by
  unfold stepPoster at hs
  cases hp : s.posters t with
  | none =>
    rw [hp] at hs
    cases hs
  | some p =>
    rw [hp] at hs hok
    cases p with
    | notify i =>
      obtain ⟨u, hu, rfl⟩ := Option.map_eq_some_iff.mp hs
      apply h.notify hu (hok i rfl)
      intro j hj htarget
      rw [hp] at htarget
      exact absurd htarget.symm hj
    | suspendLoop j =>
      apply h.loopTurn hs
      · intro hlt hact
        exact hok j (if_pos ⟨hlt, of_decide_eq_true hact⟩)
      · intro hge i
        rw [hp]
        intro ⟨hle, hlt, _⟩
        omega
      · intro hact
        rw [hp]
        exact fun htarget => of_decide_eq_false hact htarget.2.2
      · intro i hne
        rw [hp]
        intro ⟨hle, hrest⟩
        exact ⟨by omega, hrest⟩
    | rendezvousLoop dest j =>
      apply h.loopTurn hs
      · intro hlt hdest
        exact hok j (if_pos ⟨hlt, of_decide_eq_true hdest⟩)
      · intro hge i
        rw [hp]
        intro ⟨hle, hlt, _⟩
        omega
      · intro hdest
        rw [hp]
        exact fun htarget => of_decide_eq_false hdest htarget.2.2
      · intro i hne
        rw [hp]
        intro ⟨hle, hrest⟩
        exact ⟨by omega, hrest⟩

/-- `vm_suspend` goes on to notify all that are active. -/
theorem Covered.vmSuspend (h : Covered s) (hin : ∀ i, (s.vcpu i).pc ≠ .out → i ∈ s.active)
    (how : SuspendHow) : Covered (Halt.vmSuspend s t how) := by
  unfold Halt.vmSuspend
  split
  · exact h
  · apply Covered.of_all
    · exact h.active_lt
    · intro j hj
      have hact := hin j hj
      exact awaited_new ⟨Nat.zero_le j, h.active_lt j hact, hact⟩

theorem Covered.activate (h : Covered s) {n : Nat} (hn : n < vmMaxcpu) :
    Covered { s with active := insert n s.active } where
  active_lt i hi := by
    rcases Finset.mem_insert.mp hi with rfl | hi
    · exact hn
    · exact h.active_lt i hi
  awaited i c hi hc := by
    obtain ⟨u, hu⟩ := h.awaited i c hi hc
    refine ⟨u, ?_⟩
    show Targets (insert n s.active) i (s.posters u)
    cases hp : s.posters u with
    | none =>
      rw [hp] at hu
      exact hu
    | some p =>
      rw [hp] at hu
      cases p with
      | suspendLoop j => exact ⟨hu.1, hu.2.1, Finset.mem_insert_of_mem hu.2.2⟩
      | notify k => exact hu
      | rendezvousLoop dest j => exact hu

/-- An interrupt that is not taken changes nothing. -/
theorem setIntrReady_refused (v : Lapic.Vlapic) (vector : Nat) (level : Bool)
    (h : (Lapic.vlapicSetIntrReady v vector level).2 = false) :
    (Lapic.vlapicSetIntrReady v vector level).1 = v := by
  unfold Lapic.vlapicSetIntrReady at h ⊢
  split
  · rfl
  · rename_i hen
    rw [if_neg hen] at h
    split at h
    · cases h
    · unfold Lapic.setIrr at h
      rw [if_neg hen] at h
      cases h

theorem next_covered {op : Op} (hinv : Inv s) (h : Covered s) (hok : SignalReaches s op)
    (hs : next s op = some s') : Covered s' := by
  cases op with
  | hlt i intrDisabled =>
    simp only [next] at hs
    split at hs
    · cases hs
      refine h.moves rfl rfl rfl ?_
      intro c hc
      exact absurd hc (not_passed_of_pc (Or.inr (Or.inr (Or.inr (Or.inl rfl)))))
    · cases hs
  | step i => exact stepVcpu_covered h hs
  | readActive i =>
    simp only [next] at hs
    split at hs
    · rename_i hpc
      cases hs
      exact h.advance hpc fun _ => id
    · cases hs
  | readHalted i =>
    simp only [next] at hs
    split at hs
    · rename_i hpc
      cases hs
      refine h.moves rfl rfl rfl ?_
      intro c hc
      left
      rw [Passed, hpc]
      exact hc
    · cases hs
  | wake i =>
    simp only [next] at hs
    split at hs
    · cases hs
      exact h.leaves (Or.inr (Or.inl rfl))
    · cases hs
  | own i vlapic nmiPending extintPending =>
    simp only [next] at hs
    split at hs
    · rename_i hpc
      cases hs
      apply h.setVcpu
      intro c hc
      exact absurd hpc (passed_not_out hc)
    · cases hs
  | activate n =>
    simp only [next] at hs
    split at hs
    · rename_i hn
      cases hs
      exact h.activate hn.1
    · cases hs
  | injectNmi t i =>
    obtain ⟨hfree, rfl⟩ := post_some hs
    exact h.event hfree _
  | injectExtint t i =>
    obtain ⟨hfree, rfl⟩ := post_some hs
    exact h.event hfree _
  | setIntr t i vector level =>
    obtain ⟨hfree, rfl⟩ := post_some hs
    cases hr : (Lapic.vlapicSetIntrReady (s.vcpu i).vlapic vector level).2 with
    | true =>
      rw [if_pos rfl]
      exact h.event hfree _
    | false =>
      rw [if_neg Bool.false_ne_true]
      apply Covered.setPoster
      · exact h.moves rfl rfl (setIntrReady_refused _ _ _ hr) fun _ hc => Or.inl hc
      · intro j hj
        rw [show (s.setVcpu i _).posters t = none from hfree] at hj
        exact hj
  | suspend t how =>
    obtain ⟨_, rfl⟩ := post_some hs
    exact h.vmSuspend hinv.inside how
  | haltSuspend t i =>
    simp only [next] at hs
    split at hs
    · rename_i hpc
      obtain ⟨_, rfl⟩ := post_some hs
      apply Covered.vmSuspend (h.leaves (Or.inl rfl))
      intro j hj
      by_cases hji : j = i
      · subst hji
        rw [State.goto, setVcpu_same] at hj
        exact absurd rfl hj
      · rw [State.goto, setVcpu_other s _ hji] at hj
        exact hinv.inside j hj
    · cases hs
  | rendezvous t dest =>
    simp only [next] at hs
    split at hs
    · cases hs
    · obtain ⟨_, rfl⟩ := post_some hs
      apply Covered.of_all
      · exact h.active_lt
      · intro j hj
        exact awaited_new ⟨Nat.zero_le j, h.active_lt j (hinv.inside j hj), hok j hj⟩
  | endRendezvous =>
    cases hs
    refine h.congr rfl rfl ?_ fun _ hp => hp
    intro j c hc
    cases c with
    | rendezvous => cases hc
    | _ => exact hc
  | notify t => exact stepPoster_covered h hok hs

end Steps

/-! ## Whole runs -/

section Runs

theorem covered_inductive :
    (system.restrict SignalReaches).Inductive fun s => Inv s ∧ Covered s where
  init s h := by
    refine ⟨initial_inv h, ?_, ?_⟩
    · intro i hi
      rw [h.active, Finset.mem_singleton] at hi
      rw [hi]
      decide
    · intro i c hi
      exact absurd (h.out i) (passed_not_out hi)
  step _ _ _ h hs := ⟨next_inv h.1 hs.2, next_covered h.1 h.2 hs.1 hs.2⟩

/-- In a run in which no signal is sent to a vCPU that is about to wait, and no rendezvous leaves out
a vCPU in `vm_handle_hlt`, a vCPU waits with something to wake it for only as long as somebody
has still to notify it. -/
theorem wakeup_not_lost (s : State) (h : (system.restrict SignalReaches).Reachable s) (i : Nat)
    (c : Check) :
    ¬ ((s.vcpu i).pc = .waiting ∧ c.relevant (s.vcpu i).intrDisabled ∧ s.holds i c = true ∧
      ¬ Awaited s i) := by
  intro ⟨hwait, hrel, hc, hnone⟩
  obtain ⟨_, hcov⟩ := covered_inductive.reachable h
  apply hnone
  apply hcov.awaited i c ?_ hc
  rw [Passed, hwait]
  exact hrel

/-- A vCPU goes to sleep with interrupts enabled, up to where it is about to wait. -/
def softHlt (i : Nat) : List Op :=
  [.hlt i false, .step i, .step i, .step i, .step i, .step i, .step i, .step i, .step i]

/-- vCPU 0 waits, and an NMI has been posted to it. -/
theorem wakeup_not_lost_nmi :
    ∃ s, System.exec next bootState (softHlt 0 ++ [.step 0, .injectNmi 7 0]) = some s ∧
      (s.vcpu 0).pc = .waiting ∧ s.holds 0 .nmi = true ∧ Awaited s 0 := by
  refine ⟨_, rfl, rfl, rfl, ?_⟩
  by_contra hnone
  refine wakeup_not_lost _ ?_ 0 .nmi ⟨rfl, Or.inl (Nat.le_refl 2), rfl, hnone⟩
  refine System.exec_reachable_restrict ?_ (System.Reachable.init bootState_initial)
    (rfl : System.exec next bootState (softHlt 0 ++ [.step 0, .injectNmi 7 0]) = some _)
  intro op hop s
  simp only [softHlt, List.cons_append, List.nil_append, List.mem_cons, List.not_mem_nil,
    or_false] at hop
  rcases hop with rfl | rfl | rfl | rfl | rfl | rfl | rfl | rfl | rfl | rfl | rfl <;> trivial

/-- The NMI is posted and its notification done while vCPU 0 is about to wait: nobody is left to
wake it. -/
theorem wakeup_lost :
    ∃ s, system.Reachable s ∧ (s.vcpu 0).pc = .waiting ∧
      Check.relevant (s.vcpu 0).intrDisabled .nmi ∧ s.holds 0 .nmi = true ∧ ¬ Awaited s 0 := by
  have hrun : ∃ s, System.exec next bootState
      (softHlt 0 ++ [.injectNmi 7 0, .notify 7, .step 0]) = some s ∧ (s.vcpu 0).pc = .waiting ∧
      Check.relevant (s.vcpu 0).intrDisabled .nmi ∧ s.holds 0 .nmi = true ∧
      ∀ t, s.posters t = none := by
    refine ⟨_, rfl, rfl, Or.inl (Nat.le_refl 2), rfl, ?_⟩
    intro t
    by_cases ht : t = 7
    · subst ht
      rfl
    · show Function.update (Function.update bootState.posters 7 _) 7 none t = none
      rw [Function.update_of_ne ht, Function.update_of_ne ht]
      rfl
  obtain ⟨s, hexec, hwait, hrel, hc, hfree⟩ := hrun
  refine ⟨s, System.exec_reachable (System.Reachable.init bootState_initial) hexec, hwait, hrel, hc,
    ?_⟩
  intro ⟨t, ht⟩
  rw [hfree t] at ht
  exact ht

end Runs

end Xhyve.Vmm.Halt
