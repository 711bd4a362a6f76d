import Xhyve.Vmm.CalloutQueue

/-!
# When callouts fire

A timed wait is armed for the timeout its callout had when the wait began. While the
wait lasts the mutex is free and a client may program the same callout for later; the
thread is told only when that callout is again the head of the queue, and a wait that
has already run out is not looked at again. Such a wait ends early and dispatches the
callout before its time. In every run without one, dispatches are never early.
-/

namespace Xhyve.Vmm.Callouts

open Lib

set_option linter.unusedSectionVars false

variable {ι : Type} [DecidableEq ι]

/-- The callout the thread has picked. -/
def Thread.current : Thread ι → Option ι
  | timed c | armed c _ _ | waited c _ | handler c => some c
  | _ => none

/-- A timed wait does not run out while its callout is queued for a time later than the
one the wait was armed for. -/
def NoStaleTimeout (s : State ι) (e : Event ι) : Prop :=
  ∀ c since delta, e = .timedOut → s.thread = .armed c since delta →
    (s.queue.node c).queued = true → s.queue.timeouts c ≤ since + delta

structure Timely (s : State ι) : Prop where
  current : ∀ c, s.thread.current = some c → c ∈ s.callouts
  bounded : ∀ c ∈ s.callouts, s.queue.timeouts c < 2 ^ 64
  programmed : ∀ c, (s.queue.node c).queued = true → s.programmed c = some (s.queue.timeouts c)
  armed : ∀ c since delta, s.thread = .armed c since delta → since ≤ s.now ∧ delta < 2 ^ 64
  due : ∀ c, s.thread = .waited c true → (s.queue.node c).queued = true →
    s.queue.timeouts c ≤ s.now

/-- Steps that program no callout: a callout still queued is as it was. -/
structure Quiet (s t : State ι) : Prop where
  callouts : t.callouts = s.callouts
  timeouts : t.queue.timeouts = s.queue.timeouts
  queued : ∀ c, (t.queue.node c).queued = true → (s.queue.node c).queued = true
  programmed : ∀ c, (t.queue.node c).queued = true → t.programmed c = s.programmed c
  now : s.now ≤ t.now

section

variable {s t : State ι} {xs : List ι} {c : ι}

theorem Quiet.trans {u : State ι} (h : Quiet s t) (h' : Quiet t u) : Quiet s u where
  callouts := h'.callouts.trans h.callouts
  timeouts := h'.timeouts.trans h.timeouts
  queued c hc := h.queued c (h'.queued c hc)
  programmed c hc := (h'.programmed c hc).trans (h.programmed c (h'.queued c hc))
  now := h.now.trans h'.now

/-- A write to the flags of one callout. -/
theorem Quiet.setFlags (s : State ι) (c : ι) (f : Flags → Flags) :
    Quiet s { s with queue := s.queue.modify c fun n => { n with flags := f n.flags } } where
  callouts := rfl
  timeouts := by
    funext x
    simp only [Queue.timeouts, Queue.node_modify]
    split <;> rfl
  queued x hx := by
    simp only [Queue.node_modify] at hx
    split at hx <;> exact hx
  programmed _ _ := rfl
  now := le_rfl

theorem Quiet.of_eq {w : Bool} {d : List ι} {th : Thread ι} :
    Quiet s { s with queue.work := w, drainers := d, thread := th } where
  callouts := rfl
  timeouts := rfl
  queued _ hx := hx
  programmed _ _ := rfl
  now := le_rfl

theorem Rep.queued_erase {q q' : Queue ι} (h : Rep q xs) (h' : Rep q' (xs.erase c)) {x : ι}
    (hx : (q'.node x).queued = true) : x ≠ c ∧ (q.node x).queued = true := by
  obtain ⟨hne, hm⟩ := h.linked.nodup.mem_erase_iff.mp ((h'.queued x).mpr hx)
  exact ⟨hne, (h.queued x).mp hm⟩

theorem Rep.timeouts_stopLocked {q : Queue ι} (h : Rep q xs) (c : ι) :
    (Callouts.stopLocked q c).timeouts = q.timeouts := by
  funext x
  have hd := congrArg Prod.fst (h.stopLocked_data c x)
  exact hd.trans (by split <;> rfl)

theorem Quiet.stopped (h : Ordered s xs) (c : ι) : Quiet s (s.stopped c) where
  callouts := rfl
  timeouts := h.rep.timeouts_stopLocked c
  queued _ hx := (h.rep.queued_erase (h.rep.stopLocked c) hx).2
  programmed _ hx :=
    Function.update_of_ne (h.rep.queued_erase (h.rep.stopLocked c) hx).1 _ _
  now := le_rfl

theorem Quiet.removed (h : Ordered s xs) (c : ι) :
    Quiet s { s with queue := calloutRemove s.queue c } where
  callouts := rfl
  timeouts := timeouts_congr (h.rep.calloutRemove_data c)
  queued _ hx := (h.rep.queued_erase (h.rep.calloutRemove c) hx).2
  programmed _ _ := rfl
  now := le_rfl

/-- A quiet step of a client, or of the clock. -/
theorem Timely.quiet (h : Timely s) (hq : Quiet s t) (hth : t.thread = s.thread) : Timely t where
  current c hc := by
    rw [hq.callouts]
    exact h.current c (hth ▸ hc)
  bounded c hc := by
    rw [hq.timeouts]
    exact h.bounded c (hq.callouts ▸ hc)
  programmed c hc := by
    rw [hq.programmed c hc, hq.timeouts]
    exact h.programmed c (hq.queued c hc)
  armed c since delta he := by
    obtain ⟨hle, hlt⟩ := h.armed c since delta (hth ▸ he)
    exact ⟨hle.trans hq.now, hlt⟩
  due c he hc := by
    rw [hq.timeouts]
    exact (h.due c (hth ▸ he) (hq.queued c hc)).trans hq.now

/-- A quiet step of the thread to a location that claims nothing about time. -/
theorem Timely.goto (h : Timely s) (hq : Quiet s t)
    (hcur : ∀ c, t.thread.current = some c → c ∈ s.callouts)
    (harmed : ∀ c since delta, t.thread = .armed c since delta → since ≤ t.now ∧ delta < 2 ^ 64)
    (hdue : ∀ c, t.thread = .waited c true → (t.queue.node c).queued = true →
      t.queue.timeouts c ≤ t.now) : Timely t where
  current c hc := by
    rw [hq.callouts]
    exact hcur c hc
  bounded c hc := by
    rw [hq.timeouts]
    exact h.bounded c (hq.callouts ▸ hc)
  programmed c hc := by
    rw [hq.programmed c hc, hq.timeouts]
    exact h.programmed c (hq.queued c hc)
  armed := harmed
  due := hdue

theorem Timely.init (h : Timely s) (ho : Ordered s xs) (hc : c ∉ s.callouts) :
    Timely { s with
      queue := s.queue.modify c fun _ => Callout.zero
      callouts := c :: s.callouts } := by
  have hnode : ∀ x ∈ s.callouts,
      (s.queue.modify c fun _ => Callout.zero).node x = s.queue.node x := by
    intro x hx
    rw [Queue.node_modify, if_neg]
    rintro rfl
    exact hc hx
  have htime : ∀ x ∈ s.callouts,
      (s.queue.modify c fun _ => Callout.zero).timeouts x = s.queue.timeouts x :=
    fun x hx => congrArg Callout.timeout (hnode x hx)
  have hqueued : ∀ x, ((s.queue.modify c fun _ => Callout.zero).node x).queued = true →
      x ∈ s.callouts ∧ (s.queue.node x).queued = true := by
    intro x hx
    rw [Queue.node_modify] at hx
    split at hx
    · simp [Callout.zero] at hx
    · exact ⟨ho.known ((ho.rep.queued x).mpr hx), hx⟩
  refine ⟨fun x hx => List.mem_cons_of_mem _ (h.current x hx), fun x hx => ?_, fun x hx => ?_,
    h.armed, fun x hth hx => ?_⟩
  · rcases List.mem_cons.mp hx with rfl | hx
    · simp [Queue.timeouts, Queue.node_modify, Callout.zero]
    · simp only [htime x hx]
      exact h.bounded x hx
  · simp only [htime x (hqueued x hx).1]
    exact h.programmed x (hqueued x hx).2
  · simp only [htime x (hqueued x hx).1]
    exact h.due x hth (hqueued x hx).2

theorem resetTimeout_lt (tb : Timebase) (now : Nat) (sbt : Int) (flags : Nat) :
    resetTimeout tb now sbt flags < 2 ^ 64 := by
  unfold resetTimeout
  split
  · exact Nat.mod_lt _ (by decide)
  · exact (Nat.div_le_self _ _).trans_lt (Nat.mod_lt _ (by decide))

/-- Programming happens while the thread does not hold the mutex, so no expired wait is
looked at. -/
theorem Timely.reset (h : Timely s) (ho : Ordered s xs) {tb : Timebase} (hc : s.mayCall c)
    {sbt : Int} {ftn arg flags : Nat} (hs : s.reset tb c sbt ftn arg flags = some t) : Timely t := by
  obtain ⟨q, hq, hr⟩ := ho.rep.calloutResetSbt tb ho.length_le s.now c sbt ftn arg flags
  rw [State.reset, hq, Option.map_some, Option.some.injEq] at hs
  subst hs
  have htime : ∀ x, x ≠ c → (s.program c q).queue.timeouts x = s.queue.timeouts x :=
    fun x hx => congrArg Prod.fst (hr.others x hx)
  have hself : (s.program c q).queue.timeouts c < 2 ^ 64 :=
    hr.timeout.trans_lt (resetTimeout_lt ..)
  refine ⟨h.current, fun x hx => ?_, fun x hx => ?_, h.armed, fun x hth _ => ?_⟩
  · by_cases he : x = c
    · exact he ▸ hself
    · rw [htime x he]
      exact h.bounded x hx
  · by_cases he : x = c
    · subst he
      exact Function.update_self ..
    · have hmem := (hr.rep.queued x).mpr hx
      rcases (List.mem_orderedInsert _).mp hmem with rfl | hm
      · exact absurd rfl he
      · rw [htime x he]
        exact (Function.update_of_ne he _ _).trans
          (h.programmed x ((ho.rep.queued x).mp (List.mem_of_mem_erase hm)))
  · have hu := hc.1
    rw [show s.thread = .waited x true from hth] at hu
    simp [Thread.unlocked] at hu

/-- The wait that ran out was not stale, so its callout is due. -/
theorem Timely.timedOut (h : Timely s) {tb : Timebase} (hn : tb.numer = 1) (hd : tb.denom = 1)
    {since delta : Nat} (hth : s.thread = .armed c since delta)
    (hel : elapsed tb since delta s.now) (hfresh : NoStaleTimeout s .timedOut) :
    Timely { s with thread := .waited c true } := by
  obtain ⟨hle, hlt⟩ := h.armed c since delta hth
  have hdead : since + delta ≤ s.now := by
    rw [elapsed, absToNanos, hn, hd, Nat.mul_one, Nat.mul_one, Nat.mul_one, Nat.div_one,
      Nat.mod_eq_of_lt hlt] at hel
    omega
  refine h.goto Quiet.of_eq (fun x hx => ?_) (fun x a b he => by simp at he) fun x he hq => ?_
  · obtain rfl := Option.some.inj hx
    exact h.current c (by rw [hth]; rfl)
  · obtain ⟨rfl, -⟩ := Thread.waited.inj he
    exact (hfresh c since delta rfl hth hq).trans hdead

theorem Timely.check (h : Timely s) (hth : s.thread = .timed c) : Timely (s.check c) := by
  have hcur : ∀ x, some c = some x → x ∈ s.callouts := by
    rintro x ⟨⟩
    exact h.current c (by rw [hth]; rfl)
  unfold State.check
  split
  · exact h.goto Quiet.of_eq hcur (fun x a b he => by simp at he) fun x he => by simp at he
  · split
    · rename_i hge
      refine h.goto Quiet.of_eq hcur (fun x a b he => by simp at he) fun x he _ => ?_
      obtain ⟨rfl, -⟩ := Thread.waited.inj he
      exact hge
    · refine h.goto Quiet.of_eq hcur (fun x a b he => ?_) fun x he => by simp at he
      obtain ⟨rfl, rfl, rfl⟩ := Thread.armed.inj he
      have hb : (s.queue.node c).timeout < 2 ^ 64 := h.bounded c (hcur c rfl)
      exact ⟨le_rfl, (Nat.sub_le _ _).trans_lt hb⟩

theorem Timely.pick (h : Timely s) (ho : Ordered s xs) : Timely s.pick := by
  unfold State.pick
  split
  · exact h.goto Quiet.of_eq (by simp [Thread.current]) (by simp) (by simp)
  · rename_i c hc
    have hmem : c ∈ xs := List.mem_of_head? (ho.rep.linked.head.symm.trans hc)
    simp only
    split
    · exact h.goto Quiet.of_eq (by simp [Thread.current]) (by simp) (by simp)
    · refine h.goto Quiet.of_eq (fun x hx => ?_) (by simp) (by simp)
      obtain rfl := Option.some.inj hx
      exact ho.known hmem

theorem Quiet.finish (s : State ι) (c : ι) (expired : Bool) : Quiet s (s.finish c expired) := by
  simp only [State.finish]
  split
  · exact Quiet.of_eq
  · exact (Quiet.setFlags s c ({ · with pending := false })).trans Quiet.of_eq

theorem Quiet.handlerReturn (ho : Ordered s xs) (c : ι) : Quiet s (s.handlerReturn c) := by
  simp only [State.handlerReturn]
  split
  · have hset := ho.setFlags c ({ · with completed := true }) fun _ => rfl
    exact ((Quiet.setFlags s c ({ · with completed := true })).trans (Quiet.removed hset c)).trans
      Quiet.of_eq
  · exact Quiet.of_eq

theorem Quiet.drain (ho : Ordered s xs) (hs : s.drain c = some t) :
    Quiet s t ∧ t.thread = s.thread := by
  simp only [State.drain] at hs
  split at hs
  · split at hs
    · simp at hs
    · split at hs
      · obtain rfl := Option.some.inj hs
        exact ⟨Quiet.of_eq.trans (Quiet.stopped (ho.work true) c), rfl⟩
      · obtain rfl := Option.some.inj hs
        exact ⟨(Quiet.setFlags s c ({ · with waiting := true })).trans Quiet.of_eq, rfl⟩
  · obtain rfl := Option.some.inj hs
    exact ⟨Quiet.stopped ho c, rfl⟩

theorem Timely.next (h : Timely s) (ho : Ordered s xs) {tb : Timebase} (hn : tb.numer = 1)
    (hd : tb.denom = 1) {e : Event ι} (hok : NoStaleTimeout s e) (hs : s.next tb e = some t) :
    Timely t := by
  cases e with
  | tick d =>
    obtain rfl := Option.some.inj hs
    exact h.quiet ⟨rfl, rfl, fun _ hx => hx, fun _ _ => rfl, Nat.le_add_right _ _⟩ rfl
  | init c =>
    obtain ⟨hc, ⟨⟩⟩ := Option.ite_none_left_eq_some.mp hs
    exact h.init ho hc
  | reset c sbt ftn arg flags =>
    obtain ⟨hc, hs⟩ := Option.ite_none_right_eq_some.mp hs
    exact h.reset ho hc hs
  | stop c =>
    obtain ⟨-, ⟨⟩⟩ := Option.ite_none_right_eq_some.mp hs
    exact h.quiet (Quiet.stopped ho c) rfl
  | drain c =>
    obtain ⟨-, hs⟩ := Option.ite_none_right_eq_some.mp hs
    obtain ⟨hq, hth⟩ := Quiet.drain ho hs
    exact h.quiet hq hth
  | drained c =>
    obtain ⟨-, ⟨⟩⟩ := Option.ite_none_right_eq_some.mp hs
    exact h.quiet ((Quiet.stopped ho c).trans Quiet.of_eq) rfl
  | deactivate c =>
    obtain rfl := Option.some.inj hs
    exact h.quiet (Quiet.setFlags s c ({ · with active := false })) rfl
  | wake =>
    obtain ⟨-, ⟨⟩⟩ := Option.ite_none_right_eq_some.mp hs
    exact h.goto Quiet.of_eq (by simp [Thread.current]) (by simp) (by simp)
  | pick =>
    obtain ⟨-, ⟨⟩⟩ := Option.ite_none_right_eq_some.mp hs
    exact h.pick ho
  | check =>
    cases hth : s.thread <;> simp only [State.next, hth, reduceCtorEq, Option.some.injEq] at hs
    subst hs
    exact h.check hth
  | signalled =>
    cases hth : s.thread <;> simp only [State.next, hth, reduceCtorEq, Option.some.injEq] at hs
    subst hs
    refine h.goto Quiet.of_eq (fun x hx => ?_) (by simp) (by simp)
    exact h.current x (by rw [hth]; exact hx)
  | timedOut =>
    cases hth : s.thread <;>
      simp only [State.next, hth, reduceCtorEq, Option.ite_none_right_eq_some,
        Option.some.injEq] at hs
    obtain ⟨hel, rfl⟩ := hs
    exact h.timedOut hn hd hth hel hok
  | finish =>
    cases hth : s.thread <;> simp only [State.next, hth, reduceCtorEq, Option.some.injEq] at hs
    subst hs
    rename_i c expired
    have hloc : (s.finish c expired).thread = .top ∨ (s.finish c expired).thread = .handler c := by
      simp only [State.finish]
      split
      · exact .inl rfl
      · exact .inr rfl
    refine h.goto (Quiet.finish s c expired) (fun x hx => ?_) (fun x a b he => ?_) fun x he => ?_
    · rcases hloc with hl | hl <;> rw [hl] at hx
      · simp [Thread.current] at hx
      · exact h.current x (by rw [hth]; exact hx)
    · rcases hloc with hl | hl <;> simp [hl] at he
    · rcases hloc with hl | hl <;> simp [hl] at he
  | handlerReturn =>
    cases hth : s.thread <;> simp only [State.next, hth, reduceCtorEq, Option.some.injEq] at hs
    subst hs
    rename_i c
    have hloc : (s.handlerReturn c).thread = .top := by
      simp only [State.handlerReturn]
      split <;> rfl
    exact h.goto (Quiet.handlerReturn ho c) (by simp [hloc, Thread.current]) (by simp [hloc])
      (by simp [hloc])

theorem Initial.timely (h : Initial s) : Timely s where
  current c hc := by simp [h.thread, Thread.current] at hc
  bounded c hc := by simp [h.empty.1] at hc
  programmed c hc := by simp [h.unqueued c] at hc
  armed c a b he := by simp [h.thread] at he
  due c he := by simp [h.thread] at he

theorem timely_inductive {tb : Timebase} (hn : tb.numer = 1) (hd : tb.denom = 1) :
    ((system tb).restrict NoStaleTimeout).Inductive
      fun s : State ι => Ordered s s.entries ∧ Timely s where
  init s hi := ⟨(ordered_inductive tb).init s hi, hi.timely⟩
  step s e t h hs :=
    ⟨(ordered_inductive tb).step s e t h.1 hs.2, h.2.next h.1 hn hd hs.1 hs.2⟩

/-- A dispatch finds the callout expired and still queued. -/
theorem finish_dispatches {tb : Timebase} (hs : s.next tb .finish = some t)
    (hd : t.thread = .handler c) :
    s.thread = .waited c true ∧ (s.queue.node c).queued = true := by
  cases hth : s.thread <;> simp only [State.next, hth, reduceCtorEq, Option.some.injEq] at hs
  subst hs
  rename_i x expired
  simp only [State.finish] at hd
  split at hd
  · simp at hd
  · rename_i hno
    obtain rfl : x = c := by simpa using hd
    simp only [Bool.not_eq_true, not_or, Bool.not_eq_false] at hno
    exact ⟨by rw [hno.1], hno.2⟩

end

/-- In a run in which no stale wait runs out, a callout is dispatched only at or after the
time it was last programmed for, and not when it was stopped since. `mach_absolute_time`
counts nanoseconds, as on every machine with VT-x. -/
theorem callout_not_early {tb : Timebase} (hn : tb.numer = 1) (hd : tb.denom = 1) {s t : State ι}
    (hr : ((system tb).restrict NoStaleTimeout).Reachable s) (hs : s.next tb .finish = some t)
    {c : ι} (hc : t.thread = .handler c) : ∃ d, s.programmed c = some d ∧ d ≤ s.now := by
  obtain ⟨-, h⟩ := (timely_inductive hn hd).reachable hr
  obtain ⟨hth, hq⟩ := finish_dispatches hs hc
  exact ⟨_, h.programmed c hq, h.due c hth hq⟩

theorem noStaleTimeout_of_ne {e : Event ι} (he : e ≠ .timedOut) (s : State ι) :
    NoStaleTimeout s e := fun _ _ _ h => absurd h he

/-- A wait for one second that runs out as armed. -/
theorem callout_not_early_one_second : ∃ s t : State Nat,
    ((system nanoseconds).restrict NoStaleTimeout).Reachable s ∧
    s.next nanoseconds .finish = some t ∧ t.thread = .handler 0 ∧
    ∃ d, s.programmed 0 = some d ∧ d ≤ s.now := by
  have hrun : (System.exec (State.next nanoseconds) (State.start Nat)
      ([.init 0, resetAt 0 1] ++ armHead ++ [.tick 1000000000])).map
      (fun s => (s.thread, s.queue.timeouts 0, s.now, (s.queue.node 0).queued)) =
      some (.armed 0 0 1000000000, 1000000000, 1000000000, true) := by decide +kernel
  obtain ⟨s, hs, he⟩ := Option.map_eq_some_iff.mp hrun
  have hth : s.thread = .armed 0 0 1000000000 := congrArg Prod.fst he
  have htime : s.queue.timeouts 0 = 1000000000 := congrArg (·.2.1) he
  have hnow : s.now = 1000000000 := congrArg (·.2.2.1) he
  have hq : (s.queue.node 0).queued = true := congrArg (·.2.2.2) he
  have hr : ((system nanoseconds).restrict NoStaleTimeout).Reachable s := by
    refine System.exec_reachable_restrict (fun a ha => noStaleTimeout_of_ne ?_)
      (.init State.start_initial) hs
    rintro rfl
    simp [armHead, resetAt] at ha
  have hok : NoStaleTimeout s .timedOut := by
    intro c since delta _ harm _
    obtain ⟨rfl, rfl, rfl⟩ := Thread.armed.inj (hth.symm.trans harm)
    exact htime.le
  have hstep : s.next nanoseconds .timedOut = some { s with thread := .waited 0 true } := by
    rw [State.next, hth]
    exact if_pos (by rw [hnow]; decide)
  have hr' := hr.step ⟨hok, hstep⟩
  have hdisp : ({ s with thread := .waited 0 true } : State Nat).next nanoseconds .finish =
      some (({ s with thread := .waited 0 true } : State Nat).finish 0 true) := rfl
  have hhandler : (({ s with thread := .waited 0 true } : State Nat).finish 0 true).thread =
      .handler 0 := by simp [State.finish, hq]
  exact ⟨_, _, hr', hdisp, hhandler, callout_not_early rfl rfl hr' hdisp hhandler⟩

/-- Callout 0 is awaited for one second and meanwhile programmed for three, behind
callout 1; the wait runs out unsignalled and dispatches it after one. -/
def staleRun : List (Event Nat) :=
  [.init 0, .init 1, resetAt 0 1, resetAt 1 2] ++ armHead ++
    [resetAt 0 3, .tick 1000000000, .timedOut]

theorem callout_early_stale_wait : ¬ ∀ (s t : State Nat) (c : Nat),
    (system nanoseconds).Reachable s → s.next nanoseconds .finish = some t →
    t.thread = .handler c → ∃ d, s.programmed c = some d ∧ d ≤ s.now := by
  intro hclaim
  have hrun : (System.exec (State.next nanoseconds) (State.start Nat) staleRun).map
      (fun s => (s.programmed 0, s.now, (s.next nanoseconds .finish).map (·.thread))) =
      some (some 3000000000, 1000000000, some (.handler 0)) := by decide +kernel
  obtain ⟨s, hs, he⟩ := Option.map_eq_some_iff.mp hrun
  obtain ⟨t, ht, hth⟩ := Option.map_eq_some_iff.mp (congrArg (·.2.2) he)
  obtain ⟨d, hd, hle⟩ := hclaim s t 0 (System.exec_reachable (.init State.start_initial) hs) ht hth
  have hprog : s.programmed 0 = some 3000000000 := congrArg Prod.fst he
  have hnow : s.now = 1000000000 := congrArg (·.2.1) he
  rw [hprog, Option.some.injEq] at hd
  omega

end Xhyve.Vmm.Callouts
