import Xhyve.Vmm.CalloutQueue

/-!
# Draining a callout

A drainer sleeps on the callout's own condition variable until the callout has completed. The thread
sets `CALLOUT_COMPLETED` and takes the callout off the queue, but signals nobody, so a drainer that
sleeps is left asleep.
-/

namespace Xhyve.Vmm.Callouts

open Lib

variable (tb : Timebase) {ι : Type} [DecidableEq ι]

/-- The condition variables that are waited on. -/
inductive Cond (ι : Type)
  | calloutCnd
  /-- `c->wait`. -/
  | wait (c : ι)
deriving DecidableEq, Repr

/-- The callout is pending, or active and not completed: a drainer waits. -/
def Flags.unfinished (f : Flags) : Bool := f.pending ∨ f.active ∧ ¬ f.completed

/-- What a step signals. `callout_stop_safe_locked` and `callout_reset_sbt` signal the thread. -/
def signals (s : State ι) : Event ι → List (Cond ι)
  | .drain c => if (s.queue.node c).flags.unfinished then [.calloutCnd] else []
  | .reset c sbt ftn arg flags =>
    match s.reset tb c sbt ftn arg flags with
    | some t => if t.queue.calloutQueue = some c then [.calloutCnd] else []
    | none => []
  | _ => []

/-- The callouts and the drainers that have been signalled since they went to sleep. -/
structure Watched (ι : Type) where
  state : State ι
  woken : List ι

def Watched.next (w : Watched ι) (e : Event ι) : Option (Watched ι) :=
  (w.state.next tb e).map fun s =>
    { state := s
      woken := s.drainers.filter fun c => c ∈ w.woken ∨ .wait c ∈ signals tb w.state e }

def watched : System (Watched ι) (Event ι) :=
  .ofFn (fun w => Initial w.state ∧ w.woken = []) (Watched.next tb)

/-- A drainer sleeps on a callout that has completed or is off the queue; it has not been signalled,
and no step that can be taken signals it. -/
def Hung (w : Watched ι) : Prop :=
  ∃ c ∈ w.state.drainers, c ∉ w.woken ∧
    ((w.state.queue.node c).flags.completed ∨ ¬ (w.state.queue.node c).queued) ∧
    ∀ e t, w.state.next tb e = some t → .wait c ∉ signals tb w.state e

/-- A callout is drained only when the drainer need not wait. -/
def DrainsFinished (w : Watched ι) : Event ι → Prop
  | .drain c => (w.state.queue.node c).flags.unfinished = false
  | _ => True

section Drain
variable {tb} {s t : State ι} {w w' : Watched ι} {e : Event ι} {c : ι}

theorem wait_not_signalled (s : State ι) (e : Event ι) (c : ι) : .wait c ∉ signals tb s e := by
  cases e with
  | drain d =>
    simp only [signals]
    split <;> simp
  | reset d sbt ftn arg flags =>
    simp only [signals]
    split
    · split <;> simp
    · exact List.not_mem_nil
  | _ => exact List.not_mem_nil

omit [DecidableEq ι] in
theorem drainers_pick (s : State ι) : s.pick.drainers = s.drainers := by
  unfold State.pick
  split
  · rfl
  · simp only
    split <;> rfl

omit [DecidableEq ι] in
theorem drainers_check (s : State ι) (c : ι) : (s.check c).drainers = s.drainers := by
  unfold State.check
  split
  · rfl
  · split <;> rfl

theorem drainers_finish (s : State ι) (c : ι) (expired : Bool) :
    (s.finish c expired).drainers = s.drainers := by
  unfold State.finish
  simp only
  split <;> rfl

theorem drainers_handlerReturn (s : State ι) (c : ι) : (s.handlerReturn c).drainers = s.drainers := by
  unfold State.handlerReturn
  simp only
  split <;> rfl

theorem drainers_drain (hfinished : (s.queue.node c).flags.unfinished = false)
    (h : s.drain c = some t) : t.drainers = s.drainers := by
  have hcond : ¬ ((s.queue.node c).flags.pending = true ∨
      (s.queue.node c).flags.active = true ∧ ¬ (s.queue.node c).flags.completed = true) := by
    simpa [Flags.unfinished] using hfinished
  rw [State.drain, if_neg hcond] at h
  cases h
  rfl

/-- Where every callout that is drained is finished, nobody goes to sleep. -/
theorem drainers_next (h : s.next tb e = some t) (hno : s.drainers = [])
    (he : ∀ c, e = .drain c → (s.queue.node c).flags.unfinished = false) : t.drainers = [] := by
  cases e with
  | tick d => cases h; exact hno
  | init c =>
    simp only [State.next] at h
    split at h
    · cases h
    · cases h; exact hno
  | reset c sbt ftn arg flags =>
    simp only [State.next] at h
    split at h
    · obtain ⟨q, -, rfl⟩ := Option.map_eq_some_iff.1 h
      exact hno
    · cases h
  | stop c =>
    simp only [State.next] at h
    split at h
    · cases h; exact hno
    · cases h
  | drain c =>
    simp only [State.next] at h
    split at h
    · rw [drainers_drain (he c rfl) h, hno]
    · cases h
  | drained c =>
    simp only [State.next, hno, List.not_mem_nil, false_and, and_false, if_false] at h
    cases h
  | deactivate c => cases h; exact hno
  | wake =>
    simp only [State.next] at h
    split at h
    · cases h; exact hno
    · cases h
  | pick =>
    simp only [State.next] at h
    split at h
    · cases h; rw [drainers_pick, hno]
    · cases h
  | check =>
    simp only [State.next] at h
    split at h
    · cases h; rw [drainers_check, hno]
    · cases h
  | signalled =>
    simp only [State.next] at h
    split at h
    · cases h; exact hno
    · cases h
  | timedOut =>
    simp only [State.next] at h
    split at h
    · split at h
      · cases h; exact hno
      · cases h
    · cases h
  | finish =>
    simp only [State.next] at h
    split at h
    · cases h; rw [drainers_finish, hno]
    · cases h
  | handlerReturn =>
    simp only [State.next] at h
    split at h
    · cases h; rw [drainers_handlerReturn, hno]
    · cases h

theorem no_drainers_inductive :
    ((watched tb).restrict (DrainsFinished (ι := ι))).Inductive fun w => w.state.drainers = [] where
  init w h := h.1.empty.2
  step w e w' hno h := by
    obtain ⟨hok, hnext⟩ := h
    obtain ⟨t, ht, rfl⟩ := Option.map_eq_some_iff.1 hnext
    refine drainers_next ht hno fun c hc => ?_
    subst hc
    exact hok

theorem calloutRemove_flags (q : Queue ι) (c x : ι) :
    ((calloutRemove q c).node x).flags = (q.node x).flags := by
  unfold calloutRemove
  split
  · rfl
  · simp only [Queue.node_modify, Queue.node_modifyAt]
    split_ifs <;> rfl

theorem not_woken_inductive : (watched tb).Inductive fun w : Watched ι => w.woken = [] where
  init w h := h.2
  step w e w' hno h := by
    obtain ⟨t, -, rfl⟩ := Option.map_eq_some_iff.1 h
    refine List.filter_eq_nil_iff.2 fun c _ hc => ?_
    rcases of_decide_eq_true hc with hc | hc
    · rw [hno] at hc
      cases hc
    · exact wait_not_signalled _ e c hc

/-- The thread completes a callout a drainer sleeps on, and the drainer stays asleep. -/
theorem hung_of_completion (hw : w.woken = []) (hthread : w.state.thread = .handler c)
    (hc : c ∈ w.state.drainers) (hqueued : (w.state.queue.node c).queued = true)
    (hwaiting : (w.state.queue.node c).flags.waiting = true) :
    ∃ w', w.next tb .handlerReturn = some w' ∧ Hung tb w' := by
  refine ⟨_, by rw [Watched.next, State.next, hthread, Option.map_some], ?_⟩
  refine ⟨c, ?_, ?_, Or.inl ?_, fun e t _ => wait_not_signalled _ e c⟩
  · rw [drainers_handlerReturn]
    exact hc
  · simp [hw, signals]
  · rw [State.handlerReturn, if_pos ⟨hqueued, Or.inr hwaiting⟩]
    simp only [calloutRemove_flags, Queue.node_modify, if_true]

end Drain

/-- If every callout is finished when it is drained, no drainer hangs; and whenever a callout completes
that a drainer sleeps on, the drainer hangs. -/
theorem drain_hangs_unless_finished :
    (∀ w : Watched ι, ((watched tb).restrict DrainsFinished).Reachable w → ¬ Hung tb w) ∧
    ∀ (w : Watched ι) (c : ι), (watched tb).Reachable w → w.state.thread = .handler c →
      c ∈ w.state.drainers → (w.state.queue.node c).queued = true →
      (w.state.queue.node c).flags.waiting = true →
      ∃ w', w.next tb .handlerReturn = some w' ∧ Hung tb w' := by
  constructor
  · rintro w hr ⟨c, hc, -⟩
    rw [no_drainers_inductive.reachable hr] at hc
    cases hc
  · intro w c hr hthread hc hqueued hwaiting
    exact hung_of_completion (not_woken_inductive.reachable hr) hthread hc hqueued hwaiting

instance (w : Watched ι) : (e : Event ι) → Decidable (DrainsFinished w e)
  | .drain c => inferInstanceAs (Decidable ((w.state.queue.node c).flags.unfinished = false))
  | .tick _ | .init _ | .reset .. | .stop _ | .drained _ | .deactivate _ | .wake | .pick | .check
  | .signalled | .timedOut | .finish | .handlerReturn => inferInstanceAs (Decidable True)

/-- The thread dispatches the callout at the head of the queue a second later. -/
def dispatchHead : List (Event Nat) := armHead ++ [.tick 1000000000, .timedOut, .finish]

/-- A callout that has completed is drained. -/
theorem drain_finished_returns : ∃ w : Watched Nat,
    System.exec (System.guarded DrainsFinished (Watched.next nanoseconds)) ⟨State.start Nat, []⟩
      ([.init 0, resetAt 0 1] ++ dispatchHead ++ [.handlerReturn, .pick, .drain 0]) = some w ∧
    ¬ Hung nanoseconds w := by
  have hrun : (System.exec (System.guarded DrainsFinished (Watched.next nanoseconds))
      ⟨State.start Nat, []⟩
      ([.init 0, resetAt 0 1] ++ dispatchHead ++ [.handlerReturn, .pick, .drain 0])).isSome := by
    decide +kernel
  obtain ⟨w, hexec⟩ := Option.isSome_iff_exists.1 hrun
  have hinit : ((watched nanoseconds).restrict DrainsFinished).Reachable ⟨State.start Nat, []⟩ :=
    .init ⟨State.start_initial, rfl⟩
  exact ⟨w, hexec, (drain_hangs_unless_finished nanoseconds).1 w
    (System.exec_reachable_guarded hinit hexec)⟩

/-- Drained while it is pending, the callout completes and the drainer sleeps on. -/
theorem drainer_hangs : ∃ w : Watched Nat,
    System.exec (Watched.next nanoseconds) ⟨State.start Nat, []⟩
      ([.init 0, resetAt 0 1, .drain 0] ++ dispatchHead ++ [.handlerReturn]) = some w ∧
    Hung nanoseconds w := by
  have hrun : (System.exec (Watched.next nanoseconds) ⟨State.start Nat, []⟩
      ([.init 0, resetAt 0 1, .drain 0] ++ dispatchHead ++ [.handlerReturn])).map
      (fun w => (w.state.drainers, w.woken, (w.state.queue.node 0).flags.completed)) =
      some ([0], [], true) := by decide +kernel
  obtain ⟨w, hexec, hw⟩ := Option.map_eq_some_iff.1 hrun
  simp only [Prod.mk.injEq] at hw
  obtain ⟨hdrainers, hwoken, hcompleted⟩ := hw
  refine ⟨w, hexec, 0, ?_, ?_, Or.inl hcompleted, fun e t _ => wait_not_signalled _ e 0⟩
  · rw [hdrainers]
    exact List.mem_singleton_self 0
  · rw [hwoken]
    exact List.not_mem_nil

end Xhyve.Vmm.Callouts
