import Xhyve.Vmm.Hpet

/-!
# The HPET's status bits over a run

Routing, trigger type and MSI may change while a line is asserted. What is wired is kept apart from what
is timed: a status bit with its pin and the count of asserts on one side, the callouts and the rates
on the other.
-/

namespace Xhyve.Vmm.Hpet

open Xhyve.Lib

/-! ## Wiring -/

/-- A timer's status bit, counted at the pin it is routed to. -/
def drives (s : Vhpet) (p : Nat) (n : Fin vhpetNumTimers) : Bool := isrSet s n && decide (pin s n = p)

structure Wired (s : Vhpet) : Prop where
  known : ∀ k, s.isr.getLsbD k = true → k < vhpetNumTimers
  routed : ∀ n, isrSet s n = true →
    interruptEnabled (s.timer n).capConfig = true ∧ edgeTrig (s.timer n).capConfig = false ∧
      msiEnabled (s.timer n).capConfig = false ∧ pin s n ≠ 0
  allowed : ∀ n, pin s n ≠ 0 → pinAllowed (s.timer n).capConfig (pin s n) = true
  asserted : ∀ p, s.net p = tally (drives s p)

/-- Two configurations that differ in nothing an interrupt depends on. -/
structure SameRoute (c d : BitVec 64) : Prop where
  enabled : interruptEnabled d = interruptEnabled c
  edge : edgeTrig d = edgeTrig c
  msi : msiEnabled d = msiEnabled c
  pin : ioapicPin d = ioapicPin c
  allowed : ∀ p, pinAllowed d p = pinAllowed c p

theorem SameRoute.refl (c : BitVec 64) : SameRoute c c := ⟨rfl, rfl, rfl, rfl, fun _ => rfl⟩

section Wiring

variable {s t : Vhpet}

theorem Wired.congr (h : Wired s) (hisr : t.isr = s.isr) (hnet : t.net = s.net)
    (hcap : ∀ n, SameRoute (s.timer n).capConfig (t.timer n).capConfig) : Wired t := by
  have hset : ∀ n, isrSet t n = isrSet s n := fun n => by rw [isrSet, hisr, isrSet]
  have hpin : ∀ n, pin t n = pin s n := fun n => (hcap n).pin
  refine ⟨by rw [hisr]; exact h.known, ?_, ?_, ?_⟩
  · intro n hn
    rw [hset] at hn
    obtain ⟨he, hl, hm, hp⟩ := h.routed n hn
    rw [(hcap n).enabled, (hcap n).edge, (hcap n).msi, hpin]
    exact ⟨he, hl, hm, hp⟩
  · intro n hn
    rw [hpin] at hn ⊢
    rw [(hcap n).allowed]
    exact h.allowed n hn
  · intro p
    rw [hnet, h.asserted]
    congr 1
    funext n
    rw [drives, drives, hset, hpin]

/-- A timer is replaced by one that is wired alike. -/
theorem wired_setTimer (h : Wired s) {n : Fin vhpetNumTimers} {u : Timer}
    (hu : SameRoute (s.timer n).capConfig u.capConfig) : Wired (setTimer s n u) := by
  refine h.congr rfl rfl ?_
  intro m
  by_cases hm : m = n
  · subst hm
    simp only [setTimer, Function.update_self]
    exact hu
  · simp only [setTimer, Function.update_of_ne hm]
    exact SameRoute.refl _

theorem kassert_true (s : Vhpet) (msg : String) : kassert s true msg = s := rfl

theorem wired_kassert (h : Wired s) (b : Bool) (msg : String) : Wired (kassert s b msg) := by
  cases b
  · exact h.congr rfl rfl fun _ => SameRoute.refl _
  · exact h

theorem isrSet_set (n m : Fin vhpetNumTimers) :
    (WordSet.set n s.isr).getLsbD m = (isrSet s m || decide (m = n)) := by
  rw [WordSet.getLsbD_set (lt_trans n.isLt (by decide)), isrSet]
  simp only [Fin.ext_iff]

theorem isrSet_clr (n m : Fin vhpetNumTimers) :
    (WordSet.clr n s.isr).getLsbD m = (isrSet s m && decide (m ≠ n)) := by
  rw [WordSet.getLsbD_clr (lt_trans n.isLt (by decide)), isrSet]
  simp only [ne_eq, Fin.ext_iff]

/-- A level interrupt is raised: one more status bit, one more assert. -/
theorem wired_assert (h : Wired s) {n : Fin vhpetNumTimers} (hoff : isrSet s n = false)
    (he : interruptEnabled (s.timer n).capConfig = true) (hl : edgeTrig (s.timer n).capConfig = false)
    (hm : msiEnabled (s.timer n).capConfig = false) (hp : pin s n ≠ 0) :
    Wired (assertIrq { s with isr := WordSet.set n s.isr } (pin s n)) := by
  have hset : ∀ m, isrSet (assertIrq { s with isr := WordSet.set n s.isr } (pin s n)) m =
      (isrSet s m || decide (m = n)) := isrSet_set n
  have hlt : (n : Nat) < 64 := lt_trans n.isLt (by decide)
  refine ⟨?_, ?_, h.allowed, ?_⟩
  · intro k hk
    change (WordSet.set n s.isr).getLsbD k = true at hk
    rw [WordSet.getLsbD_set hlt, Bool.or_eq_true, decide_eq_true_iff] at hk
    rcases hk with hk | rfl
    · exact h.known k hk
    · exact n.isLt
  · intro m hmset
    by_cases heq : m = n
    · subst heq
      exact ⟨he, hl, hm, hp⟩
    · rw [hset, decide_eq_false heq, Bool.or_false] at hmset
      exact h.routed m hmset
  · intro p
    have hdrives : ∀ m, m ≠ n →
        drives (assertIrq { s with isr := WordSet.set n s.isr } (pin s n)) p m = drives s p m := by
      intro m hne
      rw [drives, hset, decide_eq_false hne, Bool.or_false]
      rfl
    rw [tally_change hdrives, ← h.asserted p]
    have hnow : drives (assertIrq { s with isr := WordSet.set n s.isr } (pin s n)) p n =
        decide (pin s n = p) := by
      rw [drives, hset, decide_eq_true rfl, Bool.or_true, Bool.true_and]
      rfl
    have hbefore : drives s p n = false := by rw [drives, hoff, Bool.false_and]
    rw [hnow, hbefore]
    by_cases hpp : pin s n = p
    · subst hpp
      simp [assertIrq]
    · rw [decide_eq_false hpp]
      change Function.update s.net (pin s n) _ p = _
      rw [Function.update_of_ne (fun h => hpp h.symm)]
      simp

/-- A timer's status bit goes, with one deassert at the pin it was routed to. -/
theorem wired_deassert {n : Fin vhpetNumTimers} {p₀ : Nat} {u : Timer} (h : Wired s)
    (hon : isrSet s n = true) (hp₀ : pin s n = p₀)
    (hallowed : ioapicPin u.capConfig ≠ 0 → pinAllowed u.capConfig (ioapicPin u.capConfig) = true)
    (hisr : t.isr = WordSet.clr n s.isr) (hnet : t.net = Function.update s.net p₀ (s.net p₀ - 1))
    (htimer : t.timer = Function.update s.timer n u) : Wired t := by
  have hset : ∀ m, isrSet t m = (isrSet s m && decide (m ≠ n)) := by
    intro m
    rw [isrSet, hisr]
    exact isrSet_clr n m
  have hother : ∀ m, m ≠ n → t.timer m = s.timer m := by
    intro m hne
    rw [htimer, Function.update_of_ne hne]
  have hlt : (n : Nat) < 64 := lt_trans n.isLt (by decide)
  refine ⟨?_, ?_, ?_, ?_⟩
  · intro k hk
    rw [hisr, WordSet.getLsbD_clr hlt, Bool.and_eq_true] at hk
    exact h.known k hk.1
  · intro m hmset
    rw [hset, Bool.and_eq_true, decide_eq_true_iff] at hmset
    rw [pin, hother m hmset.2]
    exact h.routed m hmset.1
  · intro m hmp
    by_cases heq : m = n
    · subst heq
      rw [pin, htimer, Function.update_self] at hmp ⊢
      exact hallowed hmp
    · rw [pin, hother m heq] at hmp ⊢
      exact h.allowed m hmp
  · intro p
    have hdrives : ∀ m, m ≠ n → drives t p m = drives s p m := by
      intro m hne
      rw [drives, hset, decide_eq_true hne, Bool.and_true, pin, hother m hne]
      rfl
    rw [tally_change hdrives, ← h.asserted p, hnet]
    have hnow : drives t p n = false := by
      rw [drives, hset, decide_eq_false (by simp), Bool.and_false, Bool.false_and]
    have hbefore : drives s p n = decide (p₀ = p) := by
      rw [drives, hon, Bool.true_and, hp₀]
    rw [hnow, hbefore]
    by_cases hpp : p₀ = p
    · subst hpp
      simp
      omega
    · rw [decide_eq_false hpp, Function.update_of_ne (fun h => hpp h.symm)]
      simp

end Wiring

/-! ## The invariant -/

/-- What every part of the device keeps. -/
structure Core (up : Uptime) (s : Vhpet) : Prop where
  wired : Wired s
  /-- A one-shot timer has no rate. -/
  oneshot : ∀ n, periodic (s.timer n).capConfig = false → (s.timer n).comprate = 0
  uptime : counterEnabled s = true → s.countbaseSbt ≤ up.read s.ups
  failed : s.failed = []

/-- No callout is active while the counter stands still. -/
def Stopped (s : Vhpet) : Prop := counterEnabled s = false → ∀ n, (s.timer n).active = false

section Steps

variable {up : Uptime} {s t : Vhpet}

theorem stopped_of_enabled (h : counterEnabled s = true) : Stopped s := by
  intro hoff
  rw [h] at hoff
  cases hoff

theorem counterEnabled_bit (s : Vhpet) : counterEnabled s = s.config.getLsbD 0 := by
  rw [counterEnabled, Bool.eq_iff_iff, decide_eq_true_iff]
  exact and_flag_ne_zero (k := 0) (by decide) s.config

/-- A timer is replaced by one with the same wiring and a rate that fits. -/
theorem core_setTimer (h : Core up s) {n : Fin vhpetNumTimers} {u : Timer}
    (hu : SameRoute (s.timer n).capConfig u.capConfig)
    (hrate : periodic u.capConfig = false → u.comprate = 0) : Core up (setTimer s n u) := by
  refine ⟨wired_setTimer h.wired hu, ?_, h.uptime, h.failed⟩
  intro m hm
  by_cases heq : m = n
  · subst heq
    simp only [setTimer, Function.update_self] at hm ⊢
    exact hrate hm
  · simp only [setTimer, Function.update_of_ne heq] at hm ⊢
    exact h.oneshot m hm

/-- What `vhpet_timer_interrupt` leaves alone. -/
theorem interrupt_frame (s : Vhpet) (n : Fin vhpetNumTimers) :
    (vhpetTimerInterrupt s n).timer = s.timer ∧ (vhpetTimerInterrupt s n).config = s.config ∧
      (vhpetTimerInterrupt s n).countbaseSbt = s.countbaseSbt ∧
      (vhpetTimerInterrupt s n).ups = s.ups ∧ (vhpetTimerInterrupt s n).failed = s.failed := by
  unfold vhpetTimerInterrupt
  dsimp only
  split_ifs <;> exact ⟨rfl, rfl, rfl, rfl, rfl⟩

theorem wired_interrupt (h : Wired s) (n : Fin vhpetNumTimers) : Wired (vhpetTimerInterrupt s n) := by
  unfold vhpetTimerInterrupt
  dsimp only
  split_ifs with he hi hm hp hl
  · exact h
  · exact h
  · exact h
  · exact h
  · exact h
  · exact wired_assert h (by simpa using hi) (by simpa using he) (by simpa using hl)
      (by simpa using hm) hp

theorem core_interrupt (h : Core up s) (n : Fin vhpetNumTimers) :
    Core up (vhpetTimerInterrupt s n) := by
  obtain ⟨ht, hc, hb, hu, hf⟩ := interrupt_frame s n
  refine ⟨wired_interrupt h.wired n, ?_, ?_, hf.trans h.failed⟩
  · rw [ht]
    exact h.oneshot
  · rw [counterEnabled, hc, hb, hu]
    exact h.uptime

theorem core_startTimer (h : Core up s) (n : Fin vhpetNumTimers) (counter : BitVec 32) (now : Int) :
    Core up (vhpetStartTimer s n counter now) := by
  unfold vhpetStartTimer
  dsimp only
  have hone := h.oneshot n
  split_ifs with hr
  · exact core_setTimer h (SameRoute.refl _) hone
  · exact core_setTimer h (SameRoute.refl _) hone

theorem startTimer_config (s : Vhpet) (n : Fin vhpetNumTimers) (counter : BitVec 32) (now : Int) :
    (vhpetStartTimer s n counter now).config = s.config := rfl

theorem core_stopTimer (h : Core up s) (n : Fin vhpetNumTimers) (now : Int) :
    Core up (vhpetStopTimer s n now) := by
  have hset : Core up (setTimer s n { s.timer n with active := false, pending := false }) :=
    core_setTimer h (SameRoute.refl _) (h.oneshot n)
  unfold vhpetStopTimer
  dsimp only
  split_ifs
  · exact core_interrupt hset n
  · exact hset

theorem stopTimer_timer (s : Vhpet) (n : Fin vhpetNumTimers) (now : Int) :
    (vhpetStopTimer s n now).timer =
      Function.update s.timer n { s.timer n with active := false, pending := false } := by
  unfold vhpetStopTimer
  dsimp only
  split_ifs
  · exact (interrupt_frame _ n).1
  · rfl

/-- The loop that stops the timers leaves none of them active. -/
theorem core_stopAll (now : Int) : ∀ (l : List (Fin vhpetNumTimers)) {s : Vhpet}, Core up s →
    Core up (l.foldl (fun s i => vhpetStopTimer s i now) s) ∧
      ∀ n, n ∈ l ∨ (s.timer n).active = false →
        ((l.foldl (fun s i => vhpetStopTimer s i now) s).timer n).active = false := by
  intro l
  induction l with
  | nil =>
    intro s h
    exact ⟨h, fun n hn => hn.resolve_left List.not_mem_nil⟩
  | cons i l ih =>
    intro s h
    obtain ⟨hcore, hoff⟩ := ih (core_stopTimer h i now)
    refine ⟨hcore, ?_⟩
    intro n hn
    refine hoff n ?_
    rw [stopTimer_timer]
    by_cases heq : n = i
    · subst heq
      exact .inr (by rw [Function.update_self])
    · rw [Function.update_of_ne heq]
      rcases hn with hn | hn
      · exact .inl ((List.mem_cons.mp hn).resolve_left heq)
      · exact .inr hn

theorem core_startAll (now : Int) : ∀ (l : List (Fin vhpetNumTimers)) {s : Vhpet}, Core up s →
    Core up (l.foldl (fun s i => vhpetStartTimer s i s.countbase now) s) ∧
      (l.foldl (fun s i => vhpetStartTimer s i s.countbase now) s).config = s.config := by
  intro l
  induction l with
  | nil =>
    intro s h
    exact ⟨h, rfl⟩
  | cons i l ih =>
    intro s h
    exact ih (core_startTimer h i s.countbase now)

/-- Counting starts at the uptime just read, whatever the base was. -/
theorem core_startCounting (up : Uptime) (hw : Wired s)
    (ho : ∀ n, periodic (s.timer n).capConfig = false → (s.timer n).comprate = 0)
    (hf : s.failed = []) :
    Core up (vhpetStartCounting up s) ∧ (vhpetStartCounting up s).config = s.config := by
  refine core_startAll (up.read s.ups) _ ⟨?_, ho, ?_, hf⟩
  · exact hw.congr rfl rfl fun _ => SameRoute.refl _
  · intro _
    exact up.mono (Nat.le_succ s.ups)

/-- Reading the counter takes a reading of the uptime and nothing else. -/
theorem counter_spec (h : Core up s) (nowptr : Bool) (hp : nowptr = true → counterEnabled s = true) :
    ∃ k, (vhpetCounter up s nowptr).2.2 = { s with ups := s.ups + k } := by
  unfold vhpetCounter
  dsimp only
  split_ifs with he
  · have hle := h.uptime he
    have hpos : (0 : Int) ≤ up.read s.ups - s.countbaseSbt := by omega
    refine ⟨1, ?_⟩
    simp only [hpos, decide_true]
    rfl
  · refine ⟨0, ?_⟩
    have hn : nowptr = false := by
      cases nowptr with
      | false => rfl
      | true => exact absurd (hp rfl) he
    rw [hn]
    rfl

theorem core_reading (h : Core up s) (k : Nat) : Core up { s with ups := s.ups + k } :=
  ⟨h.wired.congr rfl rfl fun _ => SameRoute.refl _, h.oneshot,
    fun he => (h.uptime he).trans (up.mono (Nat.le_add_right ..)), h.failed⟩

/-! ## Configuration -/

/-- A route that is not allowed is taken out. -/
theorem validRoute_allowed (c : BitVec 64) (h : ioapicPin (validRoute c) ≠ 0) :
    pinAllowed (validRoute c) (ioapicPin (validRoute c)) = true := by
  unfold validRoute at h ⊢
  split_ifs at h ⊢ with hbad
  · exfalso
    apply h
    have hzero : c &&& ~~~hpetTcnfIntRoute &&& hpetTcnfIntRoute = 0#64 := by
      rw [BitVec.and_assoc, show ~~~hpetTcnfIntRoute &&& hpetTcnfIntRoute = 0#64 by decide,
        BitVec.and_zero]
    rw [ioapicPin, hzero]
    split_ifs <;> rfl
  · by_contra hno
    exact hbad ⟨h, by simpa using hno⟩

/-- The value-set bit is no part of the wiring. -/
theorem sameRoute_valSet (c : BitVec 64) : SameRoute c (c &&& ~~~hpetTcnfValSet) := by
  have hmask : ∀ m, ~~~hpetTcnfValSet &&& m = m → c &&& ~~~hpetTcnfValSet &&& m = c &&& m := by
    intro m hm
    rw [BitVec.and_assoc, hm]
  have hmsi : msiEnabled (c &&& ~~~hpetTcnfValSet) = msiEnabled c := by
    rw [msiEnabled, hmask _ (by decide), msiEnabled]
  refine ⟨?_, ?_, hmsi, ?_, ?_⟩
  · rw [interruptEnabled, hmask _ (by decide), interruptEnabled]
  · rw [edgeTrig, hmask _ (by decide), edgeTrig]
  · rw [ioapicPin, hmask _ (by decide), hmsi, ioapicPin]
  · intro p
    have hbit : hpetTcnfValSet = BitVec.twoPow 64 6 := by decide
    rw [pinAllowed, pinAllowed, BitVec.getLsbD_ushiftRight, BitVec.getLsbD_ushiftRight,
      BitVec.getLsbD_and, BitVec.getLsbD_not, hbit, BitVec.getLsbD_twoPow]
    cases hc : c.getLsbD (32 + p) with
    | false => rfl
    | true =>
      have hlt := BitVec.lt_of_getLsbD hc
      have hne : ¬ 6 = 32 + p := by omega
      simp [hlt, hne]

theorem periodic_valSet (c : BitVec 64) : periodic (c &&& ~~~hpetTcnfValSet) = periodic c := by
  rw [periodic, BitVec.and_assoc, show ~~~hpetTcnfValSet &&& hpetTcnfType = hpetTcnfType by decide,
    periodic]

/-- A timer's configuration changes under a status bit that it still fits. -/
theorem wired_reconfigure (h : Wired s) {n : Fin vhpetNumTimers} {u : Timer}
    (hallowed : ioapicPin u.capConfig ≠ 0 → pinAllowed u.capConfig (ioapicPin u.capConfig) = true)
    (hkeep : isrSet s n = true → interruptEnabled u.capConfig = true ∧
      edgeTrig u.capConfig = false ∧ msiEnabled u.capConfig = false ∧ ioapicPin u.capConfig = pin s n) :
    Wired (setTimer s n u) := by
  have hself : (setTimer s n u).timer n = u := Function.update_self ..
  have hother : ∀ m, m ≠ n → (setTimer s n u).timer m = s.timer m := fun m hm =>
    Function.update_of_ne hm ..
  refine ⟨h.known, ?_, ?_, ?_⟩
  · intro m hm
    by_cases heq : m = n
    · subst heq
      obtain ⟨he, hl, hms, hp⟩ := hkeep hm
      rw [pin, hself, hp]
      exact ⟨he, hl, hms, (h.routed m hm).2.2.2⟩
    · rw [pin, hother m heq]
      exact h.routed m hm
  · intro m hm
    by_cases heq : m = n
    · subst heq
      rw [pin, hself] at hm ⊢
      exact hallowed hm
    · rw [pin, hother m heq] at hm ⊢
      exact h.allowed m hm
  · intro p
    have hsame : drives (setTimer s n u) p = drives s p := by
      funext m
      have hisr : isrSet (setTimer s n u) m = isrSet s m := rfl
      rw [drives, drives, hisr]
      by_cases heq : m = n
      · subst heq
        cases hm : isrSet s m with
        | false => rfl
        | true =>
          obtain ⟨-, -, -, hp⟩ := hkeep hm
          rw [pin, hself, hp]
      · rw [pin, hother m heq]
        rfl
    rw [hsame]
    exact h.asserted p

theorem fits_of_clearIsr {cap : BitVec 64} {p : Nat} (h : clearIsr cap p = false) :
    interruptEnabled cap = true ∧ edgeTrig cap = false ∧ msiEnabled cap = false ∧
      ioapicPin cap = p := by
  unfold clearIsr at h
  split_ifs at h with he hm hl
  exact ⟨by simpa using he, by simpa using hl, by simpa using hm, by simpa using h⟩

/-- The new configuration under the status bit: deasserted at the old pin, or still fitting. -/
theorem wired_settleIsr (h : Wired s) {n : Fin vhpetNumTimers} {u : Timer} {cap : BitVec 64}
    (hcap : u.capConfig = cap)
    (hallowed : ioapicPin cap ≠ 0 → pinAllowed cap (ioapicPin cap) = true) :
    Wired (settleIsr (setTimer s n u) n cap (pin s n)) ∧
      (settleIsr (setTimer s n u) n cap (pin s n)).failed = s.failed ∧
      (settleIsr (setTimer s n u) n cap (pin s n)).timer = (setTimer s n u).timer ∧
      (settleIsr (setTimer s n u) n cap (pin s n)).config = s.config ∧
      (settleIsr (setTimer s n u) n cap (pin s n)).countbaseSbt = s.countbaseSbt ∧
      (settleIsr (setTimer s n u) n cap (pin s n)).ups = s.ups := by
  have hset : isrSet (setTimer s n u) n = isrSet s n := rfl
  unfold settleIsr
  rw [hset]
  by_cases hi : isrSet s n = true
  · obtain ⟨-, -, -, hp⟩ := h.routed n hi
    rw [if_pos hi]
    dsimp only
    rw [decide_eq_true hp, kassert_true]
    split_ifs with hclear
    · refine ⟨?_, rfl, rfl, rfl, rfl, rfl⟩
      exact wired_deassert h hi rfl (by rw [hcap]; exact hallowed) rfl rfl rfl
    · refine ⟨wired_reconfigure h (by rw [hcap]; exact hallowed) ?_, rfl, rfl, rfl, rfl, rfl⟩
      intro _
      rw [hcap]
      exact fits_of_clearIsr (by simpa using hclear)
  · rw [if_neg hi]
    exact ⟨wired_reconfigure h (by rw [hcap]; exact hallowed) fun hi' => absurd hi' hi,
      rfl, rfl, rfl, rfl, rfl⟩

theorem updateConfig_spec (h : Core up s) (n : Fin vhpetNumTimers) (data mask : BitVec 64) :
    Core up (vhpetTimerUpdateConfig s n data mask) ∧
      (vhpetTimerUpdateConfig s n data mask).config = s.config ∧
      ∀ m, ((vhpetTimerUpdateConfig s n data mask).timer m).active = (s.timer m).active := by
  have hcheck : (!((msiEnabled (s.timer n).capConfig || edgeTrig (s.timer n).capConfig) &&
      isrSet s n)) = true := by
    cases hi : isrSet s n with
    | false => simp
    | true =>
      obtain ⟨-, hl, hm, -⟩ := h.wired.routed n hi
      simp [hl, hm]
  unfold vhpetTimerUpdateConfig
  dsimp only
  rw [hcheck, kassert_true]
  split_ifs with hsame
  · exact ⟨h, rfl, fun _ => rfl⟩
  · generalize hc : validRoute (newConfig (s.timer n).capConfig data mask) = cap
    have hallowed : ioapicPin cap ≠ 0 → pinAllowed cap (ioapicPin cap) = true := by
      rw [← hc]
      exact validRoute_allowed _
    obtain ⟨hw, hf, ht, hcfg, hb, hu⟩ :=
      @wired_settleIsr s h.wired n (setConfig (s.timer n) cap) cap rfl hallowed
    change Core up (settleIsr _ n cap (pin s n)) ∧ _
    refine ⟨⟨hw, ?_, ?_, hf.trans h.failed⟩, hcfg, ?_⟩
    · intro m hm
      rw [ht] at hm ⊢
      by_cases heq : m = n
      · subst heq
        simp only [setTimer, Function.update_self, setConfig] at hm ⊢
        rw [if_neg (by simp [hm])]
      · simp only [setTimer, Function.update_of_ne heq] at hm ⊢
        exact h.oneshot m hm
    · rw [counterEnabled, hcfg, hb, hu]
      exact h.uptime
    · intro m
      change ((settleIsr _ n cap (pin s n)).timer m).active = _
      rw [ht]
      by_cases heq : m = n
      · subst heq
        simp only [setTimer, Function.update_self, setConfig]
      · simp only [setTimer, Function.update_of_ne heq]

/-! ## The other registers -/

theorem core_clearIsr (h : Core up s) (n : Fin vhpetNumTimers) :
    Core up (vhpetTimerClearIsr s n) ∧ (vhpetTimerClearIsr s n).config = s.config ∧
      (vhpetTimerClearIsr s n).timer = s.timer := by
  unfold vhpetTimerClearIsr
  split_ifs with hi
  · obtain ⟨-, -, -, hp⟩ := h.wired.routed n hi
    dsimp only
    rw [decide_eq_true hp]
    refine ⟨⟨?_, h.oneshot, h.uptime, h.failed⟩, rfl, rfl⟩
    refine wired_deassert h.wired hi rfl (h.wired.allowed n) rfl rfl ?_
    exact (Function.update_eq_self n s.timer).symm
  · exact ⟨h, rfl, rfl⟩

theorem core_isrWrite (mask : BitVec 32) : ∀ (l : List (Fin vhpetNumTimers)) {s : Vhpet}, Core up s →
    Core up (l.foldl (fun s (i : Fin vhpetNumTimers) =>
        if mask.getLsbD i then vhpetTimerClearIsr s i else s) s) ∧
      (l.foldl (fun s (i : Fin vhpetNumTimers) =>
        if mask.getLsbD i then vhpetTimerClearIsr s i else s) s).config = s.config ∧
      (l.foldl (fun s (i : Fin vhpetNumTimers) =>
        if mask.getLsbD i then vhpetTimerClearIsr s i else s) s).timer = s.timer := by
  intro l
  induction l with
  | nil =>
    intro s h
    exact ⟨h, rfl, rfl⟩
  | cons i l ih =>
    intro s h
    rw [List.foldl_cons]
    split_ifs
    · obtain ⟨hc, hcfg, ht⟩ := core_clearIsr h i
      obtain ⟨hc', hcfg', ht'⟩ := ih hc
      exact ⟨hc', hcfg'.trans hcfg, ht'.trans ht⟩
    · exact ih h

theorem comparatorValues_spec (t : Timer) (data mask : BitVec 64) :
    (comparatorValues t data mask).active = t.active ∧
      (periodic t.capConfig = false → (comparatorValues t data mask).comprate = t.comprate) := by
  unfold comparatorValues
  by_cases hp : periodic t.capConfig = true
  · rw [if_pos hp]
    exact ⟨rfl, fun hp' => absurd hp (by simp [hp'])⟩
  · rw [if_neg hp]
    exact ⟨rfl, fun _ => rfl⟩

theorem comparator_spec (h : Core up s) (hs : Stopped s) (n : Fin vhpetNumTimers)
    (data mask : BitVec 64) :
    Core up (comparatorWrite up s n data mask) ∧ Stopped (comparatorWrite up s n data mask) := by
  have hcheck : (periodic (s.timer n).capConfig || decide ((s.timer n).comprate = 0)) = true := by
    cases hp : periodic (s.timer n).capConfig with
    | true => rfl
    | false => simp [h.oneshot n hp]
  obtain ⟨hact, hrate⟩ := comparatorValues_spec (s.timer n) data mask
  unfold comparatorWrite
  dsimp only
  rw [hcheck, kassert_true]
  generalize hu : ({ comparatorValues (s.timer n) data mask with
    capConfig := (s.timer n).capConfig &&& ~~~hpetTcnfValSet } : Timer) = u
  have hcap : u.capConfig = (s.timer n).capConfig &&& ~~~hpetTcnfValSet := by rw [← hu]
  have hcore : Core up (setTimer s n u) := by
    refine core_setTimer h (by rw [hcap]; exact sameRoute_valSet _) ?_
    intro hp
    rw [hcap, periodic_valSet] at hp
    rw [← hu]
    exact (hrate hp).trans (h.oneshot n hp)
  have hstop : Stopped (setTimer s n u) := by
    intro he m
    by_cases heq : m = n
    · subst heq
      have hself : (setTimer s m u).timer m = u := Function.update_self ..
      rw [hself, ← hu]
      exact hact.trans (hs he m)
    · have hother : (setTimer s n u).timer m = s.timer m := Function.update_of_ne heq ..
      rw [hother]
      exact hs he m
  split_ifs with hrun
  · obtain ⟨-, he⟩ := hrun
    obtain ⟨k, hk⟩ := counter_spec hcore true (fun _ => he)
    rw [hk]
    exact ⟨core_startTimer (core_reading hcore k) .., stopped_of_enabled he⟩
  · exact ⟨hcore, hstop⟩

theorem handler_spec (h : Core up s) (hs : Stopped s) (n : Fin vhpetNumTimers) :
    Core up (vhpetHandler up s n) ∧ Stopped (vhpetHandler up s n) := by
  unfold vhpetHandler
  split_ifs with hidle
  · exact ⟨h, hs⟩
  · -- The callout was active, so the counter runs.
    have hact : (s.timer n).active = true := by
      cases ha : (s.timer n).active with
      | true => rfl
      | false => simp [ha] at hidle
    have he : counterEnabled s = true := by
      by_contra hoff
      rw [hs (by simpa using hoff) n] at hact
      cases hact
    have hcore : Core up (setTimer s n { s.timer n with active := false }) :=
      core_setTimer h (SameRoute.refl _) (h.oneshot n)
    have hrun : counterEnabled (setTimer s n { s.timer n with active := false }) = true := he
    dsimp only
    rw [hrun, kassert_true]
    obtain ⟨k, hk⟩ := counter_spec hcore true (fun _ => hrun)
    rw [hk]
    refine ⟨core_interrupt (core_startTimer (core_reading hcore k) ..) n, stopped_of_enabled ?_⟩
    rw [counterEnabled, (interrupt_frame _ n).2.1]
    exact he

theorem counterWrite_spec (h : Core up s) (hs : Stopped s) (data mask : BitVec 64) :
    Core up (counterWrite up s data mask) ∧ Stopped (counterWrite up s data mask) := by
  obtain ⟨k, hk⟩ := counter_spec h false (fun hn => absurd hn (by simp))
  have hread := core_reading h k
  have hset : ∀ b, Core up { s with ups := s.ups + k, countbase := b } := fun b =>
    ⟨hread.wired.congr rfl rfl fun _ => SameRoute.refl _, hread.oneshot, hread.uptime, hread.failed⟩
  unfold counterWrite
  dsimp only
  rw [hk]
  split_ifs with he
  · obtain ⟨hcore, hcfg⟩ := core_startCounting up (hset _).wired (hset _).oneshot (hset _).failed
    refine ⟨hcore, stopped_of_enabled ?_⟩
    rw [counterEnabled, hcfg]
    exact he
  · exact ⟨hset _, hs⟩

theorem configWrite_spec (h : Core up s) (hs : Stopped s) (data mask : BitVec 64) :
    Core up (configWrite up s data mask) ∧ Stopped (configWrite up s data mask) := by
  obtain ⟨k, hk⟩ := counter_spec h (counterEnabled s) (fun hn => hn)
  have hread := core_reading h k
  unfold configWrite
  dsimp only
  rw [hk]
  dsimp only
  generalize hc : updateRegister s.config data mask &&& ~~~hpetCnfLegRt = c
  have hbit : ((s.config ^^^ c) &&& hpetCnfEnable ≠ 0) ↔
      (s.config.getLsbD 0 ^^ c.getLsbD 0) = true := by
    rw [← BitVec.getLsbD_xor]
    exact and_flag_ne_zero (k := 0) (by decide) _
  have hw : Wired { s with ups := s.ups + k, config := c } :=
    h.wired.congr rfl rfl fun _ => SameRoute.refl _
  have hnow : counterEnabled { s with ups := s.ups + k, config := c } = c.getLsbD 0 :=
    counterEnabled_bit _
  by_cases hch : (s.config ^^^ c) &&& hpetCnfEnable ≠ 0
  · rw [if_pos hch]
    split_ifs with he
    · obtain ⟨hcore, hcfg⟩ := core_startCounting up hw h.oneshot h.failed
      refine ⟨hcore, stopped_of_enabled ?_⟩
      rw [counterEnabled, hcfg]
      exact he
    · have hcore : Core up { s with
          ups := s.ups + k, config := c
          countbase := (vhpetCounter up s (counterEnabled s)).1 } :=
        ⟨hw.congr rfl rfl fun _ => SameRoute.refl _, h.oneshot, fun he' => absurd he' he, h.failed⟩
      obtain ⟨hcore', hoff⟩ := core_stopAll (vhpetCounter up s (counterEnabled s)).2.1
        (List.finRange vhpetNumTimers) hcore
      exact ⟨hcore', fun _ n => hoff n (.inl (List.mem_finRange n))⟩
  · rw [if_neg hch]
    have hsame : counterEnabled { s with ups := s.ups + k, config := c } = counterEnabled s := by
      rw [hnow, counterEnabled_bit]
      have hx := fun hx => hch (hbit.mpr hx)
      cases ha : s.config.getLsbD 0 <;> cases hb : c.getLsbD 0 <;> simp_all
    refine ⟨⟨hw, h.oneshot, ?_, h.failed⟩, ?_⟩
    · rw [hsame]
      exact hread.uptime
    · intro hoff
      rw [hsame] at hoff
      exact hs hoff

/-! ## Runs -/

theorem timerWrite_spec (h : Core up s) (hs : Stopped s) (offset : Nat) (data mask : BitVec 64)
    (i : Fin vhpetNumTimers) :
    Core up (timerWrite up s offset data mask i) ∧ Stopped (timerWrite up s offset data mask i) := by
  unfold timerWrite
  split_ifs
  · obtain ⟨hcore, hcfg, hact⟩ := updateConfig_spec h i data mask
    refine ⟨hcore, ?_⟩
    intro hoff n
    rw [counterEnabled, hcfg] at hoff
    rw [hact]
    exact hs hoff n
  · exact comparator_spec h hs i data mask
  · refine ⟨core_setTimer h (SameRoute.refl _) (h.oneshot i), ?_⟩
    intro hoff n
    by_cases heq : n = i
    · subst heq
      simp only [setTimer, Function.update_self]
      exact hs hoff n
    · simp only [setTimer, Function.update_of_ne heq]
      exact hs hoff n

theorem registerWrite_spec (h : Core up s) (hs : Stopped s) (offset : Nat) (data mask : BitVec 64) :
    Core up (registerWrite up s offset data mask) ∧ Stopped (registerWrite up s offset data mask) := by
  unfold registerWrite
  split_ifs
  · exact configWrite_spec h hs data mask
  · obtain ⟨hcore, hcfg, ht⟩ := core_isrWrite ((s.isr &&& data).setWidth 32)
      (List.finRange vhpetNumTimers) h
    refine ⟨hcore, ?_⟩
    intro hoff n
    rw [isrWrite, counterEnabled, hcfg] at hoff
    rw [isrWrite, ht]
    exact hs hoff n
  · exact counterWrite_spec h hs data mask
  · split
    · exact timerWrite_spec h hs offset data mask _
    · exact ⟨h, hs⟩

theorem mmioWrite_spec (h : Core up s) (hs : Stopped s) (offset : Nat) (val : BitVec 64) (size : Nat) :
    Core up (vhpetMmioWrite up s offset val size) ∧ Stopped (vhpetMmioWrite up s offset val size) := by
  unfold vhpetMmioWrite
  split_ifs
  · exact registerWrite_spec h hs ..
  · exact ⟨h, hs⟩
  · exact registerWrite_spec h hs ..
  · exact registerWrite_spec h hs ..
  · exact ⟨h, hs⟩
  · exact ⟨h, hs⟩

/-- The callout thread's own flags are no part of what is kept. -/
theorem flags_spec (h : Core up s) (hs : Stopped s) {n : Fin vhpetNumTimers} {u : Timer}
    (hcap : u.capConfig = (s.timer n).capConfig) (hrate : u.comprate = (s.timer n).comprate)
    (hact : u.active = (s.timer n).active) : Core up (setTimer s n u) ∧ Stopped (setTimer s n u) := by
  refine ⟨core_setTimer h (by rw [hcap]; exact SameRoute.refl _) ?_, ?_⟩
  · rw [hcap, hrate]
    exact h.oneshot n
  · intro hoff m
    by_cases heq : m = n
    · subst heq
      simp only [setTimer, Function.update_self]
      rw [hact]
      exact hs hoff m
    · simp only [setTimer, Function.update_of_ne heq]
      exact hs hoff m

theorem next_spec (h : Core up s) (hs : Stopped s) {o : Op} (ht : next up s o = some t) :
    Core up t ∧ Stopped t := by
  cases o with
  | write offset val size =>
    obtain rfl := Option.some.inj ht
    exact mmioWrite_spec h hs offset val size
  | dispatch n =>
    simp only [next, Option.ite_none_right_eq_some, Option.some.injEq] at ht
    obtain ⟨-, rfl⟩ := ht
    exact flags_spec h hs rfl rfl rfl
  | expire n =>
    simp only [next, Option.ite_none_right_eq_some, Option.some.injEq] at ht
    obtain ⟨-, rfl⟩ := ht
    obtain ⟨hcore, hstop⟩ := handler_spec h hs n
    exact flags_spec hcore hstop rfl rfl rfl

end Steps

theorem core_init (up : Uptime) (pincount : Nat) : Core up (vhpetInit pincount) := by
  have hisr : ∀ n, isrSet (vhpetInit pincount) n = false := fun n => BitVec.getLsbD_zero
  have hpin : ∀ n, pin (vhpetInit pincount) n = 0 := by
    intro n
    simp only [pin, vhpetInit]
    split_ifs <;> decide
  refine ⟨⟨?_, ?_, ?_, ?_⟩, fun _ _ => rfl, ?_, rfl⟩
  · intro k hk
    change (0#64).getLsbD k = true at hk
    rw [BitVec.getLsbD_zero] at hk
    cases hk
  · intro n hn
    rw [hisr n] at hn
    cases hn
  · intro n hn
    exact absurd (hpin n) hn
  · intro p
    rw [tally_false]
    · rfl
    · intro n
      rw [drives, hisr n, Bool.false_and]
  · intro he
    have hoff : counterEnabled (vhpetInit pincount) = false := by
      change decide ((0 : BitVec 64) &&& hpetCnfEnable ≠ 0) = false
      decide
    rw [hoff] at he
    cases he

theorem inductive_status (up : Uptime) (pincount : Nat) :
    (system up pincount).Inductive fun s => Core up s ∧ Stopped s where
  init s hs := by
    obtain rfl := hs
    exact ⟨core_init up pincount, fun _ _ => rfl⟩
  step s o t h hs := next_spec h.1 h.2 hs

/-- Over any run of writes and callouts, each status bit is that of an enabled level interrupt routed to an
allowed pin, each pin is asserted once for each of them, and no check of the device fires. -/
theorem status_kept (up : Uptime) (pincount : Nat) {s : Vhpet}
    (h : (system up pincount).Reachable s) : StatusOk s := by
  obtain ⟨hcore, -⟩ := (inductive_status up pincount).reachable h
  refine ⟨hcore.wired.known, ?_, ?_, hcore.failed⟩
  · intro n hn
    obtain ⟨he, hl, hm, hp⟩ := hcore.wired.routed n hn
    exact ⟨he, hl, hm, hp, hcore.wired.allowed n hp⟩
  · intro p
    rw [hcore.wired.asserted, tally_eq_card]
    simp only [drives, Bool.and_eq_true, decide_eq_true_iff]

/-- An uptime that stands still. -/
def stillUptime : Uptime where
  read _ := 0
  mono _ _ _ := le_refl _

/-- The first timer's level interrupt at pin 20, started and expired. -/
def levelInterrupt : List Op :=
  [.write 0x100 0x2806 4, .write 0x108 0x10 8, .write 0x10 1 4, .dispatch ⟨0, by decide⟩,
    .expire ⟨0, by decide⟩]

theorem status_kept_level :
    ∃ s, (system stillUptime 24).Reachable s ∧ StatusOk s ∧ s.isr = 1 ∧ s.net 20 = 1 := by
  obtain ⟨s, hs, hi, hn⟩ : ∃ s,
      System.exec (next stillUptime) (vhpetInit 24) levelInterrupt = some s ∧ s.isr = 1 ∧
        s.net 20 = 1 := ⟨_, rfl, rfl, rfl⟩
  have hr : (system stillUptime 24).Reachable s := System.exec_reachable (.init rfl) hs
  exact ⟨s, hr, status_kept stillUptime 24 hr, hi, hn⟩

end Xhyve.Vmm.Hpet
