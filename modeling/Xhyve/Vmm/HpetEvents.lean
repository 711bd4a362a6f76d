import Xhyve.Vmm.HpetTiming

/-!
# The HPET's interrupts over a run

The counter's full value is the base with the ticks since, so the 32-bit counter passes a comparator once a
turn. A timer's callout is programmed for the instant its counter gets to the comparator, in every state
the guest can bring about; from there a run without guest writes is followed handler by handler.
-/

namespace Xhyve.Vmm.Hpet

open Xhyve.Lib

/-! ## Positions of the counter -/

/-- The counter at an instant, not cut to 32 bits. -/
def position (s : Vhpet) (time : Int) : Int := s.countbase.toNat + (time - s.countbaseSbt) / freqSbt

/-- Where the counter is when the timer's callout is due. -/
def armedFor (s : Vhpet) (n : Fin vhpetNumTimers) : Int := position s (s.timer n).calloutSbt

/-- The ticks between the timer's matches: its rate, or a whole turn of the counter. -/
def period (t : Timer) : Int := if t.comprate = 0 then 2 ^ 32 else t.comprate.toNat

/-- The handler finds the callout neither reset nor stopped. -/
def fires (s : Vhpet) (n : Fin vhpetNumTimers) : Bool := !(s.timer n).pending && (s.timer n).active

/-- What an interrupt of the timer is sent as. -/
inductive Signal
  | msi (addr data : BitVec 64)
  | edge (pin : Nat)
  | level (pin : Nat)
  /-- A level interrupt that is asserted already. -/
  | held
deriving DecidableEq, Repr

/-- What `vhpet_timer_interrupt` sends. -/
def signal (s : Vhpet) (n : Fin vhpetNumTimers) : Option Signal :=
  let cap := (s.timer n).capConfig
  if interruptEnabled cap = false then none
  else if isrSet s n then some .held
  else if msiEnabled cap then
    some (.msi ((s.timer n).msireg >>> 32) ((s.timer n).msireg &&& 0xffffffff))
  else if pin s n = 0 then none
  else if edgeTrig cap then some (.edge (pin s n))
  else some (.level (pin s n))

theorem vhpetTimerInterrupt_signal (s : Vhpet) (n : Fin vhpetNumTimers) :
    vhpetTimerInterrupt s n =
      match signal s n with
      | some (.level p) => assertIrq { s with isr := WordSet.set n s.isr } p
      | _ => s := by
  unfold vhpetTimerInterrupt signal
  dsimp only
  split_ifs <;> rfl

/-- A handler that ran, with what it left. -/
structure Event where
  now : Int
  /-- The counter it found. -/
  counter : Int
  /-- The expiry the timer is armed again for. -/
  calloutSbt : Int
  sent : Option Signal

section Runs

variable (up : Uptime) (n : Fin vhpetNumTimers)

/-- The timer's handler, if it is what the step runs. -/
def event (s : Vhpet) : Op → List Event
  | .expire m =>
    if m = n ∧ fires s m then
      [{ now := up.read s.ups, counter := position s (up.read s.ups)
         calloutSbt := ((vhpetHandler up s m).timer m).calloutSbt, sent := signal s m }]
    else []
  | _ => []

/-- No guest write, and no handler before the instant its callout was programmed for. -/
def OnTime (s : Vhpet) : Op → Prop
  | .write .. => False
  | .dispatch _ => True
  | .expire m => fires s m = true → (s.timer m).calloutSbt ≤ up.read s.ups

/-- The timer's handler runs less than a turn of the counter after the match, and with a one-shot timer
not in the tick of the match itself. -/
def InTime (s : Vhpet) : Op → Prop
  | .expire m => m = n → fires s m = true →
      position s (up.read s.ups) < armedFor s m + 2 ^ 32 ∧
        ((s.timer m).comprate = 0 → position s (up.read s.ups) ≠ armedFor s m)
  | _ => True

/-- A run whose steps meet a condition, with the events of one timer. -/
inductive Run (ok : Vhpet → Op → Prop) : Vhpet → List Event → Vhpet → Prop
  | refl (s : Vhpet) : Run ok s [] s
  | step {s t u : Vhpet} {o : Op} {es : List Event} : ok s o → next up s o = some t →
      Run ok t es u → Run ok s (event up n s o ++ es) u

/-- Interrupts of the period that begins with the match at `m`. -/
def interruptsFrom (p m : Int) (es : List Event) : Nat := (es.map (·.counter)).countP (Paced.during p m)

structure OneEventPerMatch (s : Vhpet) (es : List Event) (t : Vhpet) : Prop where
  /-- The timer is armed again for at least a tick later. -/
  rearmed : ∀ e ∈ es, e.now + freqSbt ≤ e.calloutSbt
  /-- At most one interrupt for each match of the schedule, -/
  single : ∀ m, period (s.timer n) ∣ m - armedFor s n → interruptsFrom (period (s.timer n)) m es ≤ 1
  /-- and with a one-shot timer one for each before the match it is armed for in the end. -/
  oneshot : (s.timer n).comprate = 0 → ∀ m, BitVec.ofInt 32 m = (s.timer n).compval →
    armedFor s n ≤ m → m < armedFor t n → interruptsFrom (2 ^ 32) m es = 1
  /-- An interrupt that is enabled and goes somewhere is sent. -/
  sent : interruptEnabled (s.timer n).capConfig = true →
    (msiEnabled (s.timer n).capConfig = true ∨ pin s n ≠ 0) → ∀ e ∈ es, e.sent.isSome

end Runs

/-! ## A timer that is started -/

/-- The timer's callout is active, and due when the counter gets to the comparator. -/
structure ArmedAt (s : Vhpet) (n : Fin vhpetNumTimers) : Prop where
  active : (s.timer n).active = true
  due : BitVec.ofInt 32 (armedFor s n) = (s.timer n).compval

/-- While the counter runs all timers are armed. -/
def Armed (s : Vhpet) : Prop := counterEnabled s = true → ∀ n, ArmedAt s n

section Start

variable {s t : Vhpet} {n : Fin vhpetNumTimers}

theorem position_add (s : Vhpet) (now : Int) (k : Nat) :
    position s (now + k * freqSbt) = position s now + k := by
  unfold position
  rw [show now + k * freqSbt - s.countbaseSbt = now - s.countbaseSbt + k * freqSbt by ring,
    Int.add_mul_ediv_right _ _ freqSbt_pos.ne', add_assoc]

theorem position_mono (s : Vhpet) {x y : Int} (h : x ≤ y) : position s x ≤ position s y := by
  unfold position
  have := Int.ediv_le_ediv freqSbt_pos (show x - s.countbaseSbt ≤ y - s.countbaseSbt by omega)
  omega

/-- The values `vhpet_start_timer` arms a timer with. -/
def started (t : Timer) (counter : BitVec 32) : Timer :=
  if t.comprate ≠ 0 then vhpetAdjustCompval t counter else t

theorem startTimer_self (s : Vhpet) (n : Fin vhpetNumTimers) (counter : BitVec 32) (now : Int) :
    (vhpetStartTimer s n counter now).timer n = { started (s.timer n) counter with
      calloutSbt := now + ((started (s.timer n) counter).compval - counter).toNat * freqSbt
      active := true, pending := true } := by
  simp only [vhpetStartTimer, setTimer, Function.update_self, started]

theorem startTimer_other (s : Vhpet) {n m : Fin vhpetNumTimers} (h : m ≠ n) (counter : BitVec 32)
    (now : Int) : (vhpetStartTimer s n counter now).timer m = s.timer m := by
  simp only [vhpetStartTimer, setTimer, Function.update_of_ne h]

/-- The callout is due the comparator's distance from the counter later. -/
theorem startTimer_armedFor (s : Vhpet) (n : Fin vhpetNumTimers) (counter : BitVec 32) (now : Int) :
    armedFor (vhpetStartTimer s n counter now) n =
      position s now + ((started (s.timer n) counter).compval - counter).toNat := by
  rw [← position_add, armedFor, startTimer_self]
  rfl

/-- The counter at `now` is the one given. -/
theorem startTimer_armed {counter : BitVec 32} {now : Int}
    (hc : BitVec.ofInt 32 (position s now) = counter) :
    ArmedAt (vhpetStartTimer s n counter now) n := by
  refine ⟨by rw [startTimer_self], ?_⟩
  rw [startTimer_armedFor, BitVec.ofInt_add, hc, startTimer_self, BitVec.ofInt_natCast,
    BitVec.ofNat_toNat, BitVec.setWidth_eq]
  bv_omega

/-- Nothing the armed callouts depend on has changed. -/
structure SameTiming (s t : Vhpet) : Prop where
  enabled : counterEnabled t = true → counterEnabled s = true
  base : t.countbase = s.countbase ∧ t.countbaseSbt = s.countbaseSbt
  timer : ∀ n, (t.timer n).active = (s.timer n).active ∧
    (t.timer n).calloutSbt = (s.timer n).calloutSbt ∧ (t.timer n).compval = (s.timer n).compval

theorem ArmedAt.congr (h : ArmedAt s n) (hc : t.countbase = s.countbase)
    (hb : t.countbaseSbt = s.countbaseSbt) (ha : (t.timer n).active = (s.timer n).active)
    (hsbt : (t.timer n).calloutSbt = (s.timer n).calloutSbt)
    (hv : (t.timer n).compval = (s.timer n).compval) : ArmedAt t n := by
  refine ⟨ha.trans h.active, ?_⟩
  rw [armedFor, position, hc, hb, hsbt, hv]
  exact h.due

theorem Armed.congr (h : Armed s) (hs : SameTiming s t) : Armed t := by
  intro he n
  obtain ⟨ha, hsbt, hv⟩ := hs.timer n
  exact (h (hs.enabled he) n).congr hs.base.1 hs.base.2 ha hsbt hv

/-- A timer is started among the others. -/
theorem armed_startTimer (h : ∀ m, m ≠ n → ArmedAt s m) {counter : BitVec 32} {now : Int}
    (hc : BitVec.ofInt 32 (position s now) = counter) (m : Fin vhpetNumTimers) :
    ArmedAt (vhpetStartTimer s n counter now) m := by
  by_cases hm : m = n
  · subst hm
    exact startTimer_armed hc
  · have hother := startTimer_other s hm counter now
    exact (h m hm).congr rfl rfl (by rw [hother]) (by rw [hother]) (by rw [hother])

/-- The loop over the timers when counting starts. -/
theorem armed_startAll (now : Int) : ∀ (l : List (Fin vhpetNumTimers)) {s : Vhpet},
    s.countbaseSbt = now → ∀ n, n ∈ l ∨ ArmedAt s n →
      ArmedAt (l.foldl (fun s i => vhpetStartTimer s i s.countbase now) s) n := by
  intro l
  induction l with
  | nil =>
    intro s _ n hn
    exact hn.resolve_left List.not_mem_nil
  | cons i l ih =>
    intro s hb n hn
    have hnow : BitVec.ofInt 32 (position s now) = s.countbase := by
      simp [position, hb]
    refine ih (s := vhpetStartTimer s i s.countbase now) hb n ?_
    by_cases heq : n = i
    · subst heq
      exact .inr (startTimer_armed hnow)
    · rcases hn with hn | hn
      · exact .inl ((List.mem_cons.mp hn).resolve_left heq)
      · have hother := startTimer_other s heq s.countbase now
        exact .inr (hn.congr rfl rfl (by rw [hother]) (by rw [hother]) (by rw [hother]))

theorem armed_startCounting (up : Uptime) (s : Vhpet) : Armed (vhpetStartCounting up s) := fun _ n =>
  armed_startAll (up.read s.ups) _ rfl n (.inl (List.mem_finRange n))

end Start

/-! ## Writes -/

section Writes

variable {up : Uptime} {s t u : Vhpet}

theorem SameTiming.of_eq (hc : t.config = s.config) (hb : t.countbase = s.countbase)
    (hs : t.countbaseSbt = s.countbaseSbt) (ht : t.timer = s.timer) : SameTiming s t := by
  refine ⟨?_, ⟨hb, hs⟩, ?_⟩
  · rw [counterEnabled, counterEnabled, hc]
    exact id
  · intro n
    rw [ht]
    exact ⟨rfl, rfl, rfl⟩

theorem SameTiming.refl (s : Vhpet) : SameTiming s s := .of_eq rfl rfl rfl rfl

theorem SameTiming.trans (h : SameTiming s t) (h' : SameTiming t u) : SameTiming s u := by
  refine ⟨h.enabled ∘ h'.enabled, ⟨h'.base.1.trans h.base.1, h'.base.2.trans h.base.2⟩, ?_⟩
  intro n
  obtain ⟨ha, hs, hv⟩ := h.timer n
  obtain ⟨ha', hs', hv'⟩ := h'.timer n
  exact ⟨ha'.trans ha, hs'.trans hs, hv'.trans hv⟩

theorem sameTiming_setTimer (s : Vhpet) {n : Fin vhpetNumTimers} {v : Timer}
    (ha : v.active = (s.timer n).active) (hs : v.calloutSbt = (s.timer n).calloutSbt)
    (hv : v.compval = (s.timer n).compval) : SameTiming s (setTimer s n v) := by
  refine ⟨id, ⟨rfl, rfl⟩, ?_⟩
  intro m
  by_cases hm : m = n
  · subst hm
    simp only [setTimer, Function.update_self]
    exact ⟨ha, hs, hv⟩
  · simp only [setTimer, Function.update_of_ne hm]
    exact ⟨trivial, trivial, trivial⟩

theorem sameTiming_kassert (s : Vhpet) (b : Bool) (msg : String) : SameTiming s (kassert s b msg) := by
  cases b
  · exact .of_eq rfl rfl rfl rfl
  · exact SameTiming.refl s

theorem sameTiming_settleIsr (s : Vhpet) (n : Fin vhpetNumTimers) (cap : BitVec 64) (oldPin : Nat) :
    SameTiming s (settleIsr s n cap oldPin) := by
  unfold settleIsr
  dsimp only
  split_ifs
  · exact (sameTiming_kassert s _ _).trans (.of_eq rfl rfl rfl rfl)
  · exact sameTiming_kassert s _ _
  · exact SameTiming.refl s

theorem sameTiming_updateConfig (s : Vhpet) (n : Fin vhpetNumTimers) (data mask : BitVec 64) :
    SameTiming s (vhpetTimerUpdateConfig s n data mask) := by
  unfold vhpetTimerUpdateConfig
  dsimp only
  have hcheck := sameTiming_kassert s (!((msiEnabled (s.timer n).capConfig ||
    edgeTrig (s.timer n).capConfig) && isrSet s n)) "vhpet timer isr should not be asserted"
  split_ifs
  · exact hcheck
  · refine (hcheck.trans (sameTiming_setTimer _ ?_ ?_ ?_)).trans (sameTiming_settleIsr _ n _ _) <;> rfl

theorem sameTiming_clearIsr (s : Vhpet) (n : Fin vhpetNumTimers) :
    SameTiming s (vhpetTimerClearIsr s n) := by
  unfold vhpetTimerClearIsr
  dsimp only
  split_ifs
  · exact (sameTiming_kassert s _ _).trans (.of_eq rfl rfl rfl rfl)
  · exact SameTiming.refl s

theorem sameTiming_clearAll (mask : BitVec 32) : ∀ (l : List (Fin vhpetNumTimers)) (s : Vhpet),
    SameTiming s (l.foldl (fun s (i : Fin vhpetNumTimers) =>
      if mask.getLsbD i then vhpetTimerClearIsr s i else s) s) := by
  intro l
  induction l with
  | nil => exact SameTiming.refl
  | cons i l ih =>
    intro s
    rw [List.foldl_cons]
    split_ifs
    · exact (sameTiming_clearIsr s i).trans (ih _)
    · exact ih s

/-- A reading of the running counter. -/
theorem counter_running (h : Core up s) (he : counterEnabled s = true) (nowptr : Bool) :
    vhpetCounter up s nowptr = (BitVec.ofInt 32 (position s (up.read s.ups)), up.read s.ups,
      { s with ups := s.ups + 1 }) := by
  have hle := h.uptime he
  have hpos : (0 : Int) ≤ up.read s.ups - s.countbaseSbt := by omega
  unfold vhpetCounter
  rw [if_pos he]
  simp only [hpos, decide_true, kassert_true, position, Int.tdiv_eq_ediv_of_nonneg hpos,
    BitVec.ofInt_add, BitVec.ofInt_natCast, BitVec.ofNat_toNat, BitVec.setWidth_eq]

theorem armed_comparatorWrite (h : Core up s) (ha : Armed s) (n : Fin vhpetNumTimers)
    (data mask : BitVec 64) : Armed (comparatorWrite up s n data mask) := by
  have hcheck : (periodic (s.timer n).capConfig || decide ((s.timer n).comprate = 0)) = true := by
    cases hp : periodic (s.timer n).capConfig with
    | true => rfl
    | false => simp [h.oneshot n hp]
  obtain ⟨hact, hrate⟩ := comparatorValues_spec (s.timer n) data mask
  have hsbt : (comparatorValues (s.timer n) data mask).calloutSbt = (s.timer n).calloutSbt := by
    unfold comparatorValues
    split_ifs <;> rfl
  unfold comparatorWrite
  dsimp only
  rw [hcheck, kassert_true]
  generalize hu : ({ comparatorValues (s.timer n) data mask with
    capConfig := (s.timer n).capConfig &&& ~~~hpetTcnfValSet } : Timer) = v
  have hcore : Core up (setTimer s n v) := by
    have hcap : v.capConfig = (s.timer n).capConfig &&& ~~~hpetTcnfValSet := by rw [← hu]
    refine core_setTimer h (by rw [hcap]; exact sameRoute_valSet _) ?_
    intro hp
    rw [hcap, periodic_valSet] at hp
    rw [← hu]
    exact (hrate hp).trans (h.oneshot n hp)
  by_cases hrun : ((comparatorValues (s.timer n) data mask).compval ≠ (s.timer n).compval ∨
      (comparatorValues (s.timer n) data mask).comprate ≠ (s.timer n).comprate) ∧
      counterEnabled (setTimer s n v) = true
  · rw [if_pos hrun, counter_running hcore hrun.2]
    intro _ m
    refine armed_startTimer ?_ rfl m
    intro m hm
    have hother : (setTimer s n v).timer m = s.timer m := Function.update_of_ne hm ..
    exact (ha hrun.2 m).congr rfl rfl (by rw [hother]) (by rw [hother]) (by rw [hother])
  · rw [if_neg hrun]
    intro he
    have hsame : (comparatorValues (s.timer n) data mask).compval = (s.timer n).compval := by
      by_contra hne
      exact hrun ⟨.inl hne, he⟩
    refine ha.congr (sameTiming_setTimer s ?_ ?_ ?_) he
    · rw [← hu]
      exact hact
    · rw [← hu]
      exact hsbt
    · rw [← hu]
      exact hsame

theorem armed_counterWrite (h : Core up s) (data mask : BitVec 64) :
    Armed (counterWrite up s data mask) := by
  obtain ⟨k, hk⟩ := counter_spec h false (fun hn => absurd hn (by simp))
  unfold counterWrite
  dsimp only
  rw [hk]
  split_ifs with he
  · exact armed_startCounting up _
  · exact fun he' => absurd he' he

/-- Stopping the timers leaves the counter as it is. -/
theorem stopAll_config (now : Int) : ∀ (l : List (Fin vhpetNumTimers)) (s : Vhpet),
    (l.foldl (fun s i => vhpetStopTimer s i now) s).config = s.config := by
  intro l
  induction l with
  | nil => exact fun _ => rfl
  | cons i l ih =>
    intro s
    rw [List.foldl_cons, ih]
    unfold vhpetStopTimer
    dsimp only
    split_ifs
    · exact (interrupt_frame _ i).2.1
    · rfl

theorem armed_configWrite (h : Core up s) (ha : Armed s) (data mask : BitVec 64) :
    Armed (configWrite up s data mask) := by
  obtain ⟨k, hk⟩ := counter_spec h (counterEnabled s) (fun hn => hn)
  unfold configWrite
  dsimp only
  rw [hk]
  dsimp only
  generalize hc : updateRegister s.config data mask &&& ~~~hpetCnfLegRt = c
  split_ifs with hch he
  · exact armed_startCounting up _
  · intro he'
    rw [vhpetStopCounting, counterEnabled, stopAll_config] at he'
    exact absurd he' he
  · refine ha.congr ⟨?_, ⟨rfl, rfl⟩, fun _ => ⟨rfl, rfl, rfl⟩⟩
    intro he
    rw [counterEnabled_bit] at he ⊢
    have hbit : (s.config ^^^ c).getLsbD 0 = false := by
      by_contra hx
      exact hch ((and_flag_ne_zero (k := 0) (by decide) _).mpr (by simpa using hx))
    rw [BitVec.getLsbD_xor, he] at hbit
    simpa using hbit

theorem armed_registerWrite (h : Core up s) (ha : Armed s) (offset : Nat) (data mask : BitVec 64) :
    Armed (registerWrite up s offset data mask) := by
  unfold registerWrite
  split_ifs
  · exact armed_configWrite h ha data mask
  · exact ha.congr (sameTiming_clearAll _ _ s)
  · exact armed_counterWrite h data mask
  · split
    · unfold timerWrite
      split_ifs
      · exact ha.congr (sameTiming_updateConfig s _ data mask)
      · exact armed_comparatorWrite h ha _ data mask
      · exact ha.congr (sameTiming_setTimer s rfl rfl rfl)
    · exact ha

theorem armed_mmioWrite (h : Core up s) (ha : Armed s) (offset : Nat) (val : BitVec 64) (size : Nat) :
    Armed (vhpetMmioWrite up s offset val size) := by
  unfold vhpetMmioWrite
  split_ifs
  · exact armed_registerWrite h ha _ _ _
  · exact ha
  · exact armed_registerWrite h ha _ _ _
  · exact armed_registerWrite h ha _ _ _
  · exact ha
  · exact ha

end Writes

/-! ## Runs without guest writes -/

section Events

variable {up : Uptime} {s t u : Vhpet} {n : Fin vhpetNumTimers}

theorem period_pos (t : Timer) : 0 < period t := by
  unfold period
  split_ifs with h
  · decide
  · have hne : t.comprate.toNat ≠ 0 := fun h0 => h (BitVec.eq_of_toNat_eq h0)
    omega

theorem ofInt_sub_toNat (x y : Int) :
    ((BitVec.ofInt 32 x - BitVec.ofInt 32 y).toNat : Int) = (x - y) % 2 ^ 32 := by
  rw [BitVec.toNat_sub, BitVec.toNat_ofInt, BitVec.toNat_ofInt]
  omega

/-- What the handler leaves a timer with when it goes through. -/
structure Rearmed (s t : Vhpet) (n : Fin vhpetNumTimers) (now : Int) : Prop where
  base : t.countbase = s.countbase ∧ t.countbaseSbt = s.countbaseSbt
  calloutSbt : (t.timer n).calloutSbt = now + ((t.timer n).compval -
    BitVec.ofInt 32 (position s now)).toNat * freqSbt
  compval : (t.timer n).compval =
    (started (s.timer n) (BitVec.ofInt 32 (position s now))).compval
  comprate : (t.timer n).comprate = (s.timer n).comprate
  capConfig : (t.timer n).capConfig = (s.timer n).capConfig

theorem started_frame (t : Timer) (counter : BitVec 32) :
    (started t counter).comprate = t.comprate ∧ (started t counter).capConfig = t.capConfig := by
  unfold started
  split_ifs <;> exact ⟨rfl, rfl⟩

theorem enabled_of_fires (hs : Stopped s) (hf : fires s n = true) : counterEnabled s = true := by
  by_contra hoff
  have hact := hs (by simpa using hoff) n
  simp [fires, hact] at hf

/-- The handler reads the counter, starts the timer again and raises its interrupt. -/
theorem handler_fired (h : Core up s) (hs : Stopped s) (hf : fires s n = true) :
    vhpetHandler up s n = vhpetTimerInterrupt (vhpetStartTimer
      { setTimer s n { s.timer n with active := false } with ups := s.ups + 1 } n
      (BitVec.ofInt 32 (position s (up.read s.ups))) (up.read s.ups)) n := by
  have he := enabled_of_fires hs hf
  have hgo : ((s.timer n).pending || !(s.timer n).active) = false := by
    simpa [fires] using hf
  have hcore : Core up (setTimer s n { s.timer n with active := false }) :=
    core_setTimer h (SameRoute.refl _) (h.oneshot n)
  have hrun : counterEnabled (setTimer s n { s.timer n with active := false }) = true := he
  unfold vhpetHandler
  dsimp only
  rw [hgo, hrun, kassert_true, counter_running hcore hrun]
  rfl

theorem interrupt_base (s : Vhpet) (n : Fin vhpetNumTimers) :
    (vhpetTimerInterrupt s n).countbase = s.countbase := by
  unfold vhpetTimerInterrupt
  dsimp only
  split_ifs <;> rfl

theorem handler_rearmed (h : Core up s) (hs : Stopped s) (hf : fires s n = true) :
    Rearmed s (vhpetHandler up s n) n (up.read s.ups) := by
  have hcompval : ∀ c, (started { s.timer n with active := false } c).compval =
      (started (s.timer n) c).compval := by
    intro c
    unfold started vhpetAdjustCompval
    dsimp only
    split_ifs <;> rfl
  rw [handler_fired h hs hf]
  generalize hc : BitVec.ofInt 32 (position s (up.read s.ups)) = c
  obtain ⟨htimer, -, hsbt, -, -⟩ := interrupt_frame (vhpetStartTimer
    { setTimer s n { s.timer n with active := false } with ups := s.ups + 1 } n c (up.read s.ups)) n
  refine ⟨⟨interrupt_base _ n, hsbt⟩, ?_, ?_, ?_, ?_⟩
  all_goals
    rw [htimer, startTimer_self]
    simp only [setTimer, Function.update_self]
  · rw [hc]
  · rw [hc]
    exact hcompval c
  · exact (started_frame _ c).1
  · exact (started_frame _ c).2

/-- Another timer's handler. -/
theorem handler_other (h : Core up s) (hs : Stopped s) {m : Fin vhpetNumTimers} (hm : n ≠ m) :
    (vhpetHandler up s m).timer n = s.timer n ∧ (vhpetHandler up s m).countbase = s.countbase ∧
      (vhpetHandler up s m).countbaseSbt = s.countbaseSbt := by
  cases hf : fires s m with
  | true =>
    rw [handler_fired h hs hf]
    obtain ⟨htimer, -, hsbt, -, -⟩ := interrupt_frame (vhpetStartTimer
      { setTimer s m { s.timer m with active := false } with ups := s.ups + 1 } m
      (BitVec.ofInt 32 (position s (up.read s.ups))) (up.read s.ups)) m
    refine ⟨?_, interrupt_base _ m, hsbt⟩
    rw [htimer, startTimer_other _ hm]
    simp only [setTimer, Function.update_of_ne hm]
  | false =>
    have hidle : ((s.timer m).pending || !(s.timer m).active) = true := by
      simpa [fires, or_iff_not_imp_left] using hf
    unfold vhpetHandler
    rw [if_pos hidle]
    exact ⟨rfl, rfl, rfl⟩

theorem armed_handler (h : Core up s) (hs : Stopped s) (ha : Armed s) (m : Fin vhpetNumTimers) :
    Armed (vhpetHandler up s m) := by
  cases hf : fires s m with
  | true =>
    have he := enabled_of_fires hs hf
    rw [handler_fired h hs hf]
    obtain ⟨htimer, hcfg, hsbt, -, -⟩ := interrupt_frame (vhpetStartTimer
      { setTimer s m { s.timer m with active := false } with ups := s.ups + 1 } m
      (BitVec.ofInt 32 (position s (up.read s.ups))) (up.read s.ups)) m
    refine Armed.congr ?_ (.of_eq hcfg (interrupt_base _ m) hsbt htimer)
    intro _ n
    refine armed_startTimer ?_ rfl n
    intro n hn
    have hother : (setTimer s m { s.timer m with active := false }).timer n = s.timer n :=
      Function.update_of_ne hn ..
    exact (ha he n).congr rfl rfl (by rw [hother]) (by rw [hother]) (by rw [hother])
  | false =>
    have hidle : ((s.timer m).pending || !(s.timer m).active) = true := by
      simpa [fires, or_iff_not_imp_left] using hf
    unfold vhpetHandler
    rw [if_pos hidle]
    exact ha

theorem armed_next (h : Core up s) (hs : Stopped s) (ha : Armed s) {o : Op}
    (ht : next up s o = some t) : Armed t := by
  cases o with
  | write offset val size =>
    obtain rfl := Option.some.inj ht
    exact armed_mmioWrite h ha offset val size
  | dispatch m =>
    simp only [next, Option.ite_none_right_eq_some, Option.some.injEq] at ht
    obtain ⟨-, rfl⟩ := ht
    exact ha.congr (sameTiming_setTimer s rfl rfl rfl)
  | expire m =>
    simp only [next, Option.ite_none_right_eq_some, Option.some.injEq] at ht
    obtain ⟨-, rfl⟩ := ht
    exact (armed_handler h hs ha m).congr (sameTiming_setTimer _ rfl rfl rfl)

/-- Every state the guest can bring about has its timers armed while the counter runs. -/
theorem inductive_armed (up : Uptime) (pincount : Nat) :
    (system up pincount).Inductive fun s => (Core up s ∧ Stopped s) ∧ Armed s where
  init s hs := by
    refine ⟨(inductive_status up pincount).init s hs, ?_⟩
    obtain rfl := hs
    intro he
    have hoff : counterEnabled (vhpetInit pincount) = false := by
      change decide ((0 : BitVec 64) &&& hpetCnfEnable ≠ 0) = false
      decide
    rw [hoff] at he
    cases he
  step _ _ _ h hs := ⟨next_spec h.1.1 h.1.2 hs, armed_next h.1.1 h.1.2 h.2 hs⟩

/-- A step has left the timer as it was, its callout's flags apart. -/
structure Alike (s t : Vhpet) (n : Fin vhpetNumTimers) : Prop where
  base : t.countbase = s.countbase ∧ t.countbaseSbt = s.countbaseSbt
  calloutSbt : (t.timer n).calloutSbt = (s.timer n).calloutSbt
  compval : (t.timer n).compval = (s.timer n).compval
  comprate : (t.timer n).comprate = (s.timer n).comprate
  capConfig : (t.timer n).capConfig = (s.timer n).capConfig

theorem Alike.armedFor (h : Alike s t n) : armedFor t n = armedFor s n := by
  rw [Hpet.armedFor, position, h.base.1, h.base.2, h.calloutSbt, Hpet.armedFor, position]

/-- The flags of a timer's callout are no part of it. -/
theorem alike_flags (hb : t.countbase = s.countbase ∧ t.countbaseSbt = s.countbaseSbt)
    (ht : t.timer n = s.timer n) (m : Fin vhpetNumTimers) (p d : Bool) :
    Alike s (setTimer t m { t.timer m with pending := p, dispatched := d }) n := by
  refine ⟨hb, ?_, ?_, ?_, ?_⟩
  all_goals
    by_cases hm : n = m
    · subst hm
      simp only [setTimer, Function.update_self, ht]
    · simp only [setTimer, Function.update_of_ne hm, ht]

/-- A step that is no write and runs none of the timer's handlers. -/
theorem next_quiet (h : Core up s) (hs : Stopped s) {o : Op} (hok : OnTime up s o)
    (hno : event up n s o = []) (ht : next up s o = some t) : Alike s t n := by
  cases o with
  | write offset val size => exact hok.elim
  | dispatch m =>
    simp only [next, Option.ite_none_right_eq_some, Option.some.injEq] at ht
    obtain ⟨-, rfl⟩ := ht
    exact alike_flags ⟨rfl, rfl⟩ rfl m _ _
  | expire m =>
    simp only [next, Option.ite_none_right_eq_some, Option.some.injEq] at ht
    obtain ⟨-, rfl⟩ := ht
    by_cases hm : n = m
    · have hf : fires s m = false := by
        by_contra hf
        simp [event, hm, hf] at hno
      have hidle : ((s.timer m).pending || !(s.timer m).active) = true := by
        simpa [fires, or_iff_not_imp_left] using hf
      have hsame : vhpetHandler up s m = s := by
        unfold vhpetHandler
        rw [if_pos hidle]
      rw [hsame]
      exact alike_flags ⟨rfl, rfl⟩ rfl m _ _
    · obtain ⟨htimer, hb⟩ := handler_other h hs hm
      exact alike_flags hb htimer m _ _

/-- A step that runs the timer's handler. -/
theorem next_fired (h : Core up s) (hs : Stopped s) (hf : fires s n = true)
    (ht : next up s (.expire n) = some t) :
    Rearmed s t n (up.read s.ups) ∧
      event up n s (.expire n) = [{ now := up.read s.ups, counter := position s (up.read s.ups)
                                    calloutSbt := (t.timer n).calloutSbt, sent := signal s n }] := by
  simp only [next, Option.ite_none_right_eq_some, Option.some.injEq] at ht
  obtain ⟨-, rfl⟩ := ht
  have hr := handler_rearmed h hs hf
  have hself : ∀ v : Timer, (setTimer (vhpetHandler up s n) n v).timer n = v := fun v =>
    Function.update_self ..
  refine ⟨⟨hr.base, ?_, ?_, ?_, ?_⟩, ?_⟩
  · rw [hself]
    exact hr.calloutSbt
  · rw [hself]
    exact hr.compval
  · rw [hself]
    exact hr.comprate
  · rw [hself]
    exact hr.capConfig
  · rw [hself]
    simp only [event, hf, and_self, if_pos]

/-- The deadline a handler sets, from the one it is late for. -/
structure NextDeadline (s t : Vhpet) (n : Fin vhpetNumTimers) (now : Int) : Prop where
  later : now + freqSbt ≤ (t.timer n).calloutSbt
  beyond : position s now < armedFor t n
  within : armedFor t n ≤ position s now + period (s.timer n)
  phase : period (s.timer n) ∣ armedFor t n - armedFor s n
  next : (s.timer n).comprate ≠ 0 ∨ armedFor t n = armedFor s n + period (s.timer n)

theorem Rearmed.armedFor {now : Int} (h : Rearmed s t n now) :
    armedFor t n = position s now + ((t.timer n).compval - BitVec.ofInt 32 (position s now)).toNat := by
  rw [← position_add, ← h.calloutSbt, Hpet.armedFor, position, h.base.1, h.base.2, position]

/-- Less than a turn after the match, and with a one-shot timer not in its tick, the timer is armed for a
later match of its own. -/
theorem rearmed_next {now : Int} (h : Rearmed s t n now) (hdue : BitVec.ofInt 32 (armedFor s n) =
    (s.timer n).compval) (hpast : armedFor s n ≤ position s now)
    (hturn : position s now < armedFor s n + 2 ^ 32)
    (htick : (s.timer n).comprate = 0 → position s now ≠ armedFor s n) :
    NextDeadline s t n now := by
  have hnext := h.armedFor
  have hexp := h.calloutSbt
  rw [h.compval] at hnext hexp
  generalize hk : ((started (s.timer n) (BitVec.ofInt 32 (position s now))).compval -
    BitVec.ofInt 32 (position s now)).toNat = k at hnext hexp
  have hlater : 1 ≤ k → now + freqSbt ≤ (t.timer n).calloutSbt := by
    intro hpos
    have hfreq := freqSbt_pos
    rw [hexp]
    nlinarith
  by_cases hrate : (s.timer n).comprate = 0
  · -- The comparator stays, and the counter is past it by less than a turn.
    have hone : (k : Int) = armedFor s n + 2 ^ 32 - position s now := by
      have hdist := ofInt_sub_toNat (armedFor s n) (position s now)
      have hne := htick hrate
      rw [started, if_neg (by simpa using hrate), ← hdue] at hk
      rw [hk] at hdist
      omega
    have hp : period (s.timer n) = 2 ^ 32 := if_pos hrate
    refine ⟨hlater (by omega), by omega, by omega, ?_, .inr (by omega)⟩
    rw [hp]
    exact ⟨1, by omega⟩
  · have hstarted : started (s.timer n) (BitVec.ofInt 32 (position s now)) =
        vhpetAdjustCompval (s.timer n) (BitVec.ofInt 32 (position s now)) := if_pos hrate
    have hp : period (s.timer n) = (s.timer n).comprate.toNat := if_neg hrate
    obtain ⟨hone, hle⟩ := adjust_within (s.timer n) (BitVec.ofInt 32 (position s now)) hrate
    have hunits := adjust_units (s.timer n) (BitVec.ofInt 32 (position s now)) hrate
    rw [← hstarted, hk] at hone hle hunits
    rw [← hdue, ofInt_sub_toNat] at hunits
    have hdist : (position s now - armedFor s n) % 2 ^ 32 = position s now - armedFor s n := by omega
    refine ⟨hlater hone, by omega, by omega, ?_, .inl hrate⟩
    rw [hdist] at hunits
    rw [hp, hnext, show position s now + k - armedFor s n = position s now - armedFor s n + k by ring]
    exact hunits

/-- The steps of a run that is in time, without guest writes. -/
def Punctual (up : Uptime) (n : Fin vhpetNumTimers) (s : Vhpet) (o : Op) : Prop :=
  OnTime up s o ∧ InTime up n s o

/-- What one step does to the timer's schedule. -/
theorem next_cases (h : (Core up s ∧ Stopped s) ∧ Armed s) {o : Op} (hok : Punctual up n s o)
    (ht : next up s o = some t) :
    (event up n s o = [] ∧ Alike s t n) ∨
      ∃ e, event up n s o = [e] ∧ e.counter = position s e.now ∧
        e.calloutSbt = (t.timer n).calloutSbt ∧ e.sent = signal s n ∧
        BitVec.ofInt 32 (armedFor s n) = (s.timer n).compval ∧ armedFor s n ≤ e.counter ∧
        (t.timer n).comprate = (s.timer n).comprate ∧
        (t.timer n).capConfig = (s.timer n).capConfig ∧ NextDeadline s t n e.now := by
  by_cases hno : event up n s o = []
  · exact .inl ⟨hno, next_quiet h.1.1 h.1.2 hok.1 hno ht⟩
  · right
    cases o with
    | write offset val size => exact absurd rfl hno
    | dispatch m => exact absurd rfl hno
    | expire m =>
      obtain ⟨rfl, hf⟩ : m = n ∧ fires s m = true := by
        by_contra hneg
        exact hno (if_neg hneg)
      obtain ⟨hre, hev⟩ := next_fired h.1.1 h.1.2 hf ht
      have hdue := (h.2 (enabled_of_fires h.1.2 hf) m).due
      have hpast : armedFor s m ≤ position s (up.read s.ups) := position_mono s (hok.1 hf)
      obtain ⟨hturn, htick⟩ := hok.2 rfl hf
      exact ⟨_, hev, rfl, rfl, rfl, hdue, hpast, hre.comprate, hre.capConfig,
        rearmed_next hre hdue hpast hturn htick⟩

/-- The events of a run follow the timer's schedule. -/
theorem run_paced (h : (Core up s ∧ Stopped s) ∧ Armed s) {es : List Event}
    (hr : Run up n (Punctual up n) s es t) :
    Paced (period (s.timer n)) ((s.timer n).comprate ≠ 0) (armedFor s n) (es.map (·.counter))
      (armedFor t n) := by
  induction hr with
  | refl s => exact .nil _
  | @step s t u o es hok ht _ ih =>
    have ih := ih ⟨next_spec h.1.1 h.1.2 ht, armed_next h.1.1 h.1.2 h.2 ht⟩
    rcases next_cases h hok ht with ⟨hno, halike⟩ | ⟨e, he, hc, -, -, -, hpast, hrate, -, hnext⟩
    · rw [period, halike.comprate, halike.armedFor] at ih
      rw [hno]
      exact ih
    · rw [period, hrate] at ih
      rw [he, List.singleton_append, List.map_cons]
      obtain ⟨-, hbeyond, hwithin, hphase, hone⟩ := hnext
      rw [← hc] at hbeyond hwithin
      exact .cons hpast hbeyond hwithin hphase hone ih

/-- A timer with an event was armed for its comparator from the start. -/
theorem run_due (h : (Core up s ∧ Stopped s) ∧ Armed s) {es : List Event}
    (hr : Run up n (Punctual up n) s es t) (hne : es ≠ []) :
    BitVec.ofInt 32 (armedFor s n) = (s.timer n).compval := by
  induction hr with
  | refl s => exact absurd rfl hne
  | @step s t u o es hok ht _ ih =>
    rcases next_cases h hok ht with ⟨hno, halike⟩ | ⟨e, -, -, -, -, hdue, -⟩
    · rw [hno, List.nil_append] at hne
      have ih := ih ⟨next_spec h.1.1 h.1.2 ht, armed_next h.1.1 h.1.2 h.2 ht⟩ hne
      rwa [halike.armedFor, halike.compval] at ih
    · exact hdue

/-- Each handler of a run arms the timer for at least a tick later and sends what its configuration
says. -/
theorem run_events (h : (Core up s ∧ Stopped s) ∧ Armed s) {es : List Event}
    (hr : Run up n (Punctual up n) s es t) :
    ∀ e ∈ es, e.now + freqSbt ≤ e.calloutSbt ∧
      (interruptEnabled (s.timer n).capConfig = true →
        (msiEnabled (s.timer n).capConfig = true ∨ ioapicPin (s.timer n).capConfig ≠ 0) →
        e.sent.isSome) := by
  induction hr with
  | refl s => simp
  | @step s t u o es hok ht _ ih =>
    have ih := ih ⟨next_spec h.1.1 h.1.2 ht, armed_next h.1.1 h.1.2 h.2 ht⟩
    intro e he
    rcases next_cases h hok ht with ⟨hno, halike⟩ | ⟨e', he', -, hsbt, hsent, -, -, -, hcap, hnext⟩
    · rw [hno] at he
      rw [halike.capConfig] at ih
      exact ih e he
    · rw [he', List.singleton_append] at he
      rw [hcap] at ih
      rcases List.mem_cons.mp he with rfl | he
      · refine ⟨by rw [hsbt]; exact hnext.later, ?_⟩
        intro hen hroute
        rw [hsent, signal, if_neg (by simp [hen])]
        split_ifs with hheld hmsi hpin
        · rfl
        · rfl
        · exact absurd (hroute.resolve_left hmsi) (by simpa [pin] using hpin)
        · rfl
        · rfl
      · exact ih e he

end Events

/-- Over a run without guest writes whose handlers run on time, less than a turn after the match and with a
one-shot timer not in its tick, a one-shot timer interrupts once for each match, a periodic one at most
once a period, and each time the timer is armed again for at least a tick later. -/
theorem one_event_per_match (up : Uptime) (pincount : Nat) (n : Fin vhpetNumTimers) {s t : Vhpet}
    (h : (system up pincount).Reachable s) {es : List Event}
    (hr : Run up n (fun s o => OnTime up s o ∧ InTime up n s o) s es t) :
    OneEventPerMatch n s es t := by
  have hinv := (inductive_armed up pincount).reachable h
  have hpaced := run_paced hinv hr
  have hevents := run_events hinv hr
  refine ⟨fun e he => (hevents e he).1, hpaced.at_most_one (period_pos _), ?_, ?_⟩
  · intro hone m hm hfrom hto
    have hp : period (s.timer n) = 2 ^ 32 := if_pos hone
    rw [hp] at hpaced
    have hne : es ≠ [] := by
      rintro rfl
      have hsame := hpaced.eq_of_nil
      omega
    have hdvd : (2 ^ 32 : Int) ∣ m - armedFor s n := by
      have hzero := ofInt_sub_toNat m (armedFor s n)
      rw [run_due hinv hr hne, hm, BitVec.sub_self] at hzero
      exact Int.dvd_of_emod_eq_zero hzero.symm
    exact hpaced.exactly_one (by decide) (by simpa using hone) m hdvd hfrom hto
  · intro hen hroute e he
    exact (hevents e he).2 hen hroute

/-- The uptime when the guest starts the counter, and from then on that of the sixteenth tick and so many
units more. -/
def sixteenth (late : Int) (h : 0 ≤ late) : Uptime where
  read k := if k = 0 then 0 else 16 * freqSbt + late
  mono i j hij := by
    have := freqSbt_pos
    dsimp only
    split_ifs <;> omega

/-- The first timer's one-shot message at tick 16. -/
def messageAt16 : List Op := [.write 0x100 0x4004 4, .write 0x108 0x10 8, .write 0x10 1 4]

theorem vhpetNumTimers_pos : 0 < vhpetNumTimers := by decide

def firstTimer : Fin vhpetNumTimers := ⟨0, vhpetNumTimers_pos⟩

/-- A tick later the handler arms the timer for the next turn. -/
theorem one_event_per_match_late :
    ∃ s, (system (sixteenth freqSbt (by decide)) 24).Reachable s ∧ ∃ es t,
      OneEventPerMatch firstTimer s es t ∧ interruptsFrom (2 ^ 32) 16 es = 1 ∧
        armedFor t firstTimer = 16 + 2 ^ 32 := by
  obtain ⟨s, hs⟩ : ∃ s, System.exec (next (sixteenth freqSbt (by decide))) (vhpetInit 24)
      messageAt16 = some s := ⟨_, rfl⟩
  have hr : (system (sixteenth freqSbt (by decide)) 24).Reachable s :=
    System.exec_reachable (.init rfl) hs
  obtain rfl := Option.some.inj hs
  refine ⟨_, hr, _, _, one_event_per_match _ 24 firstTimer hr
    (.step (o := .dispatch firstTimer) ⟨trivial, trivial⟩ rfl
      (.step (o := .expire firstTimer) ⟨?_, ?_⟩ rfl (.refl _))), ?_, ?_⟩
  · intro _
    decide +kernel
  · intro _ _
    exact ⟨by decide +kernel, fun _ => by decide +kernel⟩
  · decide +kernel
  · decide +kernel

/-- The handler finds the counter at its comparator and arms the timer for the same instant: two messages
in one tick. -/
theorem repeated_in_tick :
    ∃ s, (system (sixteenth 0 (by decide)) 24).Reachable s ∧ ∃ es t,
      Run (sixteenth 0 (by decide)) firstTimer (OnTime (sixteenth 0 (by decide))) s es t ∧
      (s.timer firstTimer).comprate = 0 ∧ interruptsFrom (2 ^ 32) 16 es = 2 ∧
      ¬ OneEventPerMatch firstTimer s es t := by
  obtain ⟨s, hs⟩ : ∃ s,
      System.exec (next (sixteenth 0 (by decide))) (vhpetInit 24) messageAt16 = some s := ⟨_, rfl⟩
  have hr : (system (sixteenth 0 (by decide)) 24).Reachable s := System.exec_reachable (.init rfl) hs
  refine ⟨s, hr, ?_⟩
  obtain rfl := Option.some.inj hs
  refine ⟨_, _, .step (o := .dispatch firstTimer) trivial rfl (.step (o := .expire firstTimer) ?_ rfl
    (.step (o := .dispatch firstTimer) trivial rfl (.step (o := .expire firstTimer) ?_ rfl
      (.refl _)))), rfl, ?_, ?_⟩
  · intro _
    decide +kernel
  · intro _
    decide +kernel
  · decide +kernel
  · intro h
    have hsingle := h.single 16 (by decide +kernel)
    revert hsingle
    decide +kernel

end Xhyve.Vmm.Hpet
