import Xhyve.Emul.BlockIfQueues

/-!
# Requests are performed in the order they come in

Every successful submission gets the next number, which its element carries until the element is
free again. Next to the queues we keep the numbers that were cancelled, those handed to
`blockif_proc` and those whose callback has run. The one worker finds nothing busy when it looks
for work, so the element at the front of the pending queue is not held back and is the one it
takes; what was handed out, followed by what is pending, is then every submission in order,
without the cancelled ones.

As for `queued_of_untouched` the offset of a pending request has to be left alone.
-/

namespace Xhyve.Emul.BlockIf

open Xhyve.Lib

/-- The block interface with the numbers of the submissions. -/
structure Trace where
  s : State
  /-- The number of the submission an element stands for. -/
  tag : Nat → Nat
  submitted : Nat
  /-- The submissions for which `blockif_cancel` has returned 0. -/
  cancelled : List Nat
  /-- The submissions handed to `blockif_proc`. -/
  handed : List Nat
  /-- The submissions called back. -/
  called : List Nat

def Trace.start (s : State) : Trace := ⟨s, fun _ => 0, 0, [], [], []⟩

/-- What a step that returns `err` adds to the record. -/
def Trace.record (t : Trace) (op : Op) (err : Errno) (s' : State) : Trace :=
  match op with
  | .request .. =>
    match err, t.s.bc.bcFreeq with
    | .ok, be :: _ =>
      { t with s := s', tag := Function.update t.tag be t.submitted, submitted := t.submitted + 1 }
    | _, _ => { t with s := s' }
  | .cancel breq =>
    match err, t.s.bc.bcPendq.find? fun be => (t.s.bc.bcReqs be).beReq = some breq with
    | .ok, some be => { t with s := s', cancelled := t.cancelled ++ [t.tag be] }
    | _, _ => { t with s := s' }
  | .dequeue =>
    match s'.worker with
    | .proc be => { t with s := s', handed := t.handed ++ [t.tag be] }
    | _ => { t with s := s' }
  | .procDone =>
    match t.s.worker with
    | .proc be => { t with s := s', called := t.called ++ [t.tag be] }
    | _ => { t with s := s' }
  | _ => { t with s := s' }

def Trace.next (t : Trace) (op : Op) : Option Trace :=
  if admissible t.s op then (step t.s op).map fun r => t.record op r.1 r.2 else none

/-- Every interleaving of callers, worker and cancellations, recorded. -/
def traced : System Trace Op :=
  System.ofFn (fun t => ∃ btid req, t = Trace.start (blockifOpen btid req)) Trace.next

/-- The submissions up to now that were not cancelled, in order. -/
def Trace.wanted (t : Trace) : List Nat :=
  (List.range t.submitted).filter fun n => n ∉ t.cancelled

structure InOrder (t : Trace) : Prop where
  /-- What has been handed out and what is pending: every submission once and in order. -/
  order : t.handed ++ t.s.bc.bcPendq.map t.tag = t.wanted
  /-- A cancelled submission is neither performed nor called back. -/
  cancelled : ∀ n ∈ t.cancelled, n ∉ t.handed ∧ n ∉ t.called
  called : t.called <+: t.handed
  /-- The worker does not pass over an element that is held back. -/
  front : t.s.worker = .ready → ∀ be bc,
    blockifDequeue t.s.bc t.s.bc.bcBtid = some (some be, bc) → t.s.bc.bcPendq.head? = some be

/-! ## The invariant of a recorded run -/

/-- The submission the worker is at has been handed out but not called back. -/
def Trace.InHand (t : Trace) : Prop :=
  match t.s.worker with
  | .proc be => t.handed = t.called ++ [t.tag be]
  | _ => t.handed = t.called

structure TraceInv (t : Trace) : Prop where
  inv : Inv t.s
  order : t.handed ++ t.s.bc.bcPendq.map t.tag = t.wanted
  known : ∀ n ∈ t.cancelled, n < t.submitted
  inHand : t.InHand

section Order
variable {t t' : Trace} {op : Op} {s' : State}

/-- With nothing busy the search ends at the first element. -/
theorem QueueInv.firstPend_front {bc : BlockifCtxt} {req : Requests} {be : Nat} {pendq : List Nat}
    (h : QueueInv bc req) (hbusy : bc.bcBusyq = []) (hq : bc.bcPendq = be :: pendq) :
    firstPend bc.bcReqs bc.bcPendq = some (some be) := by
  have hw := h.waits
  rw [hbusy, hq] at hw
  have hpend : (bc.bcReqs be).beStatus = .pend := by
    rcases h.status.pend be (by simp [hq]) with hs | hs
    · exact hs
    · exact absurd hs hw.front
  rw [hq, firstPend, if_pos hpend]

/-- What the worker takes when nothing is busy. -/
theorem QueueInv.dequeue_front {bc : BlockifCtxt} {req : Requests} (h : QueueInv bc req)
    (hbusy : bc.bcBusyq = []) (t : Nat) :
    (bc.bcPendq = [] ∧ blockifDequeue bc t = some (none, bc)) ∨
    ∃ be pendq, bc.bcPendq = be :: pendq ∧
      blockifDequeue bc t = some (some be, takeElem bc be t) := by
  cases hq : bc.bcPendq with
  | nil => exact .inl ⟨rfl, by simp [blockifDequeue, hq, firstPend]⟩
  | cons be pendq =>
    exact .inr ⟨be, pendq, rfl, by simp [blockifDequeue, h.firstPend_front hbusy hq]⟩

theorem QueueInv.pendq_nodup {bc : BlockifCtxt} {req : Requests} (h : QueueInv bc req) :
    bc.bcPendq.Nodup := by
  have hnd := h.once.nodup_iff.mpr List.nodup_range
  exact (List.nodup_append.mp (List.nodup_append.mp hnd).1).2.1

theorem Inv.busy_of_ready {s : State} (h : Inv s) (hready : s.worker = .ready) :
    s.bc.bcBusyq = [] := by
  have hw := h.worker
  rw [hready] at hw
  exact hw

theorem TraceInv.start (btid : Nat) (req : Requests) :
    TraceInv (Trace.start (blockifOpen btid req)) where
  inv := inv_open btid req
  order := rfl
  known := by simp [Trace.start]
  inHand := rfl

/-- The invariant is about submissions, and a step that leaves them alone keeps it. -/
theorem TraceInv.quiet (h : TraceInv t) (hinv : Inv s')
    (hpend : s'.bc.bcPendq = t.s.bc.bcPendq)
    (hhand : Trace.InHand { t with s := s' }) : TraceInv { t with s := s' } where
  inv := hinv
  order := by
    show t.handed ++ s'.bc.bcPendq.map t.tag = t.wanted
    rw [hpend]
    exact h.order
  known := h.known
  inHand := hhand

theorem wanted_lt {n : Nat} (h : n ∈ t.wanted) : n < t.submitted ∧ n ∉ t.cancelled := by
  simpa [Trace.wanted] using h

theorem TraceInv.handed_wanted (h : TraceInv t) {n : Nat} (hn : n ∈ t.handed) : n ∈ t.wanted := by
  rw [← h.order]
  exact List.mem_append_left _ hn

theorem TraceInv.pend_wanted (h : TraceInv t) {be : Nat} (hbe : be ∈ t.s.bc.bcPendq) :
    t.tag be ∈ t.wanted := by
  rw [← h.order]
  exact List.mem_append_right _ (List.mem_map_of_mem hbe)

/-! ### One step -/

/-- A submission goes to the end of the pending queue, under the next number. -/
theorem TraceInv.request (h : TraceInv t) {be : Nat} {freeq : List Nat}
    (hq : t.s.bc.bcFreeq = be :: freeq) (hinv : Inv s')
    (hpend : s'.bc.bcPendq = t.s.bc.bcPendq ++ [be])
    (hworker : s'.worker = t.s.worker ∨ s'.worker = t.s.worker.signal) :
    TraceInv { t with
      s := s', tag := Function.update t.tag be t.submitted, submitted := t.submitted + 1 } := by
  have hfree : be ∈ t.s.bc.bcFreeq := by simp [hq]
  have htag : t.s.bc.bcPendq.map (Function.update t.tag be t.submitted) =
      t.s.bc.bcPendq.map t.tag := by
    refine List.map_congr_left fun i hi => Function.update_of_ne ?_ ..
    rintro rfl
    exact h.inv.queues.status.not_pend (.inl hfree) hi
  have hnew : t.submitted ∉ t.cancelled := fun hn => Nat.lt_irrefl _ (h.known _ hn)
  refine ⟨hinv, ?_, fun n hn => ?_, ?_⟩
  · have horder := h.order
    simp only [Trace.wanted] at horder ⊢
    rw [hpend, List.map_append, htag, ← List.append_assoc, horder, List.range_succ]
    simp [hnew]
  · have hlt := h.known n hn
    show n < t.submitted + 1
    omega
  · have hhand := h.inHand
    -- a signal moves only a worker that is asleep, and the element it is at is not the new one
    unfold Trace.InHand at hhand ⊢
    have hw := h.inv.worker
    cases hworker' : t.s.worker with
    | proc i =>
      rw [hworker'] at hhand hw
      have hi : i ≠ be := by
        rintro rfl
        exact h.inv.queues.status.not_free (.inr (by simp [hw.1])) hfree
      have hsame : s'.worker = .proc i := by
        rcases hworker with hs | hs <;> rw [hs, hworker'] <;> rfl
      simp only [hsame, Function.update_of_ne hi]
      exact hhand
    | ready | finish i | waiting | exited =>
      rw [hworker'] at hhand
      rcases hworker with hs | hs <;> simp only [hs, hworker', Worker.signal] <;> exact hhand

theorem filter_ne_of_nodup {before after : List Nat} {n : Nat}
    (h : (before ++ n :: after).Nodup) :
    (before ++ n :: after).filter (fun m => m ≠ n) = before ++ after := by
  have hn : n ∉ before := fun hmem => by
    have hne := (List.nodup_append.mp h).2.2 n hmem n (by simp)
    exact hne rfl
  have herase := h.erase_eq_filter n
  rw [List.erase_append_right _ hn, List.erase_cons_head] at herase
  rw [herase]
  refine List.filter_congr fun m _ => ?_
  by_cases hm : m = n <;> simp [hm]

theorem wanted_cancel (t : Trace) (s' : State) (n : Nat) :
    Trace.wanted { t with s := s', cancelled := t.cancelled ++ [n] } =
      t.wanted.filter fun m => m ≠ n := by
  unfold Trace.wanted
  rw [List.filter_filter]
  refine List.filter_congr fun m _ => ?_
  simp [and_comm]

/-- A cancellation takes one submission out of the pending ones. -/
theorem TraceInv.cancel (h : TraceInv t) {be : Nat} (hbe : be ∈ t.s.bc.bcPendq)
    (hinv : Inv s') (hpend : s'.bc.bcPendq = t.s.bc.bcPendq.erase be)
    (hworker : s'.worker = t.s.worker) :
    TraceInv { t with s := s', cancelled := t.cancelled ++ [t.tag be] } := by
  refine ⟨hinv, ?_, fun n hn => ?_, ?_⟩
  · obtain ⟨before, after, -, hsplit, herase⟩ := List.exists_erase_eq hbe
    have horder := h.order
    rw [hsplit, List.map_append, List.map_cons, ← List.append_assoc] at horder
    have hnd : (t.handed ++ before.map t.tag ++ t.tag be :: after.map t.tag).Nodup := by
      rw [horder]
      exact List.nodup_range.filter _
    show t.handed ++ s'.bc.bcPendq.map t.tag = _
    rw [wanted_cancel, ← horder, filter_ne_of_nodup hnd, hpend, herase, List.map_append,
      List.append_assoc]
  · rcases List.mem_append.mp hn with hn | hn
    · exact h.known n hn
    · obtain rfl := List.mem_singleton.mp hn
      exact (wanted_lt (h.pend_wanted hbe)).1
  · have hhand := h.inHand
    unfold Trace.InHand at hhand ⊢
    simp only [hworker]
    exact hhand

/-- The worker takes the first pending submission. -/
theorem TraceInv.take (h : TraceInv t) {be : Nat} {pendq : List Nat}
    (hready : t.s.worker = .ready) (hq : t.s.bc.bcPendq = be :: pendq) (hinv : Inv s')
    (hpend : s'.bc.bcPendq = pendq) (hworker : s'.worker = .proc be) :
    TraceInv { t with s := s', handed := t.handed ++ [t.tag be] } := by
  refine ⟨hinv, ?_, h.known, ?_⟩
  · have horder := h.order
    rw [hq, List.map_cons] at horder
    show (t.handed ++ [t.tag be]) ++ s'.bc.bcPendq.map t.tag = t.wanted
    rw [hpend, List.append_assoc]
    exact horder
  · have hhand := h.inHand
    unfold Trace.InHand at hhand ⊢
    rw [hready] at hhand
    simp only [hworker]
    rw [hhand]

theorem enqueue_pendq {bc bc' : BlockifCtxt} {req : Requests} {breq : Nat} {bop : Blockop}
    {sig : Bool} (h : blockifEnqueue bc req breq bop = some (sig, bc')) :
    ∃ be freeq, bc.bcFreeq = be :: freeq ∧ bc'.bcPendq = bc.bcPendq ++ [be] := by
  unfold blockifEnqueue at h
  split at h
  · cases h
  · rename_i be freeq hq
    split at h
    · cases h
      exact ⟨be, freeq, hq, rfl⟩
    · cases h

theorem TraceInv.next_request (h : TraceInv t) {bop : Blockop} {breq : Nat} {err : Errno}
    (hinv : Inv s') (hs : step t.s (.request bop breq) = some (err, s')) :
    TraceInv (t.record (.request bop breq) err s') := by
  obtain ⟨⟨err', sig, bc'⟩, hreq, hs'⟩ := Option.map_eq_some_iff.mp hs
  obtain ⟨rfl, rfl⟩ := Prod.mk.inj hs'
  unfold blockifRequest at hreq
  by_cases hfree : t.s.bc.bcFreeq = []
  · -- refused: no submission
    simp only [hfree, ne_eq, not_true_eq_false, if_false, Option.some.injEq, Prod.mk.injEq] at hreq
    obtain ⟨rfl, rfl, rfl⟩ := hreq
    exact h.quiet hinv rfl h.inHand
  · rw [if_pos hfree] at hreq
    obtain ⟨⟨sig', bc''⟩, henq, hr⟩ := Option.map_eq_some_iff.mp hreq
    simp only [Prod.mk.injEq] at hr
    obtain ⟨rfl, rfl, rfl⟩ := hr
    obtain ⟨be, freeq, hq, hpend⟩ := enqueue_pendq henq
    have hrec := h.request hq hinv hpend (by
      show (if sig' then _ else _) = _ ∨ (if sig' then _ else _) = _
      cases sig'
      · exact .inl rfl
      · exact .inr rfl)
    simpa only [Trace.record, hq] using hrec

theorem TraceInv.next_cancel (h : TraceInv t) {breq : Nat}
    (hinv : Inv (blockifCancel t.s breq).2) :
    TraceInv (t.record (.cancel breq) (blockifCancel t.s breq).1 (blockifCancel t.s breq).2) := by
  cases hfind : t.s.bc.bcPendq.find? fun be => (t.s.bc.bcReqs be).beReq = some breq with
  | some be =>
    have hbe : be ∈ t.s.bc.bcPendq := List.mem_of_find?_eq_some hfind
    have hcancel : blockifCancel t.s breq =
        (.ok, { t.s with bc := blockifComplete t.s.bc t.s.req be }) := by
      simp only [blockifCancel, hfind]
    have hrem : (blockifComplete t.s.bc t.s.req be).bcPendq = t.s.bc.bcPendq.erase be := by
      have hst := h.inv.queues.status.pend be hbe
      have hnot : ¬ ((t.s.bc.bcReqs be).beStatus = .done ∨ (t.s.bc.bcReqs be).beStatus = .busy) := by
        rcases hst with hs | hs <;> simp [hs]
      simp only [blockifComplete, releaseElem, removeElem, if_neg hnot]
    rw [hcancel] at hinv ⊢
    simp only [Trace.record, hfind]
    exact h.cancel hbe hinv hrem rfl
  | none =>
    -- what is busy or unknown stays where it is
    have hrec : t.record (.cancel breq) (blockifCancel t.s breq).1 (blockifCancel t.s breq).2 =
        { t with s := (blockifCancel t.s breq).2 } := by
      simp only [Trace.record, hfind]
      split <;> simp_all
    have hsame : (blockifCancel t.s breq).2.bc = t.s.bc ∧
        (blockifCancel t.s breq).2.worker = t.s.worker := by
      simp only [blockifCancel, hfind]
      split
      · exact ⟨rfl, rfl⟩
      · split <;> exact ⟨rfl, rfl⟩
    rw [hrec]
    refine h.quiet hinv (by rw [hsame.1]) ?_
    have hhand := h.inHand
    unfold Trace.InHand at hhand ⊢
    simp only [hsame.2]
    exact hhand

theorem TraceInv.next_dequeue (h : TraceInv t) (hready : t.s.worker = .ready) (hinv : Inv s')
    (hs : workerDequeue t.s = some s') : TraceInv (t.record .dequeue .ok s') := by
  unfold workerDequeue at hs
  rcases h.inv.queues.dequeue_front (h.inv.busy_of_ready hready) t.s.bc.bcBtid with
    ⟨hq, hdeq⟩ | ⟨be, pendq, hq, hdeq⟩
  · rw [hdeq] at hs
    obtain rfl := Option.some.inj hs
    have hhand := h.inHand
    unfold Trace.InHand at hhand
    rw [hready] at hhand
    cases hclosing : t.s.bc.bcClosing
    · simp only [Trace.record, hclosing] at hinv ⊢
      exact h.quiet hinv rfl hhand
    · simp only [Trace.record, hclosing] at hinv ⊢
      exact h.quiet hinv rfl hhand
  · rw [hdeq] at hs
    obtain rfl := Option.some.inj hs
    refine h.take hready hq hinv ?_ rfl
    show t.s.bc.bcPendq.erase be = pendq
    rw [hq, List.erase_cons_head]

theorem TraceInv.next_procDone (h : TraceInv t) {be : Nat} (hproc : t.s.worker = .proc be)
    (hinv : Inv s') (hpend : s'.bc.bcPendq = t.s.bc.bcPendq) (hworker : s'.worker = .finish be) :
    TraceInv { t with s := s', called := t.called ++ [t.tag be] } := by
  have hhand := h.inHand
  unfold Trace.InHand at hhand
  rw [hproc] at hhand
  refine ⟨hinv, ?_, h.known, ?_⟩
  · show t.handed ++ s'.bc.bcPendq.map t.tag = t.wanted
    rw [hpend]
    exact h.order
  · unfold Trace.InHand
    simp only [hworker]
    exact hhand

/-- A worker that is not in `blockif_proc` before or after the step has nothing in hand. -/
theorem TraceInv.idle (h : TraceInv t) (hbefore : ∀ be, t.s.worker ≠ .proc be)
    (hafter : ∀ be, s'.worker ≠ .proc be) : Trace.InHand { t with s := s' } := by
  have hhand := h.inHand
  unfold Trace.InHand at hhand ⊢
  split
  · rename_i be hproc
    exact absurd hproc (hafter be)
  · split at hhand
    · rename_i be hproc
      exact absurd hproc (hbefore be)
    · exact hhand

theorem TraceInv.preserved (h : TraceInv t) (hun : Untouched t.s op) (hs : t.next op = some t') :
    TraceInv t' := by
  unfold Trace.next at hs
  split at hs
  case isFalse => cases hs
  rename_i hadm
  obtain ⟨⟨err, s'⟩, hstep, rfl⟩ := Option.map_eq_some_iff.mp hs
  obtain ⟨err', s'', hstep', hinv⟩ := h.inv.step_ok hadm hun
  rw [hstep] at hstep'
  obtain ⟨rfl, rfl⟩ := Prod.mk.inj (Option.some.inj hstep')
  cases op with
  | fill breq br =>
    obtain ⟨rfl, rfl⟩ := Prod.mk.inj (Option.some.inj hstep)
    exact h.quiet hinv rfl h.inHand
  | request bop breq => exact h.next_request hinv hstep
  | cancel breq =>
    have hcancel : blockifCancel t.s breq = (err, s') := Option.some.inj hstep
    have hrec : TraceInv (t.record (.cancel breq) (blockifCancel t.s breq).1 (blockifCancel t.s breq).2) :=
      h.next_cancel (by rw [hcancel]; exact hinv)
    rwa [hcancel] at hrec
  | cancelReturn =>
    obtain ⟨rfl, rfl⟩ := Prod.mk.inj (Option.some.inj hstep)
    exact h.quiet hinv rfl h.inHand
  | dequeue =>
    simp only [admissible, decide_eq_true_eq] at hadm
    obtain ⟨u, hdeq, hu⟩ := Option.map_eq_some_iff.mp hstep
    obtain ⟨rfl, rfl⟩ := Prod.mk.inj hu
    exact h.next_dequeue hadm.1 hinv hdeq
  | procDone =>
    simp only [admissible] at hadm
    split at hadm
    · rename_i be hproc
      simp only [step, hproc, Option.some.injEq, Prod.mk.injEq] at hstep
      obtain ⟨rfl, rfl⟩ := hstep
      simp only [Trace.record, hproc]
      exact h.next_procDone hproc hinv rfl rfl
    · cases hadm
  | complete =>
    simp only [admissible] at hadm
    split at hadm
    · rename_i be hfinish
      have hcancel : t.s.cancelling = none := by simpa using hadm
      simp only [step, hfinish, Option.some.injEq, Prod.mk.injEq] at hstep
      obtain ⟨rfl, rfl⟩ := hstep
      exact h.quiet hinv (h.inv.complete hfinish hcancel).2
        (h.idle (by simp [hfinish]) (by simp))
    · cases hadm
  | wakeup =>
    simp only [admissible, decide_eq_true_eq] at hadm
    obtain ⟨rfl, rfl⟩ := Prod.mk.inj (Option.some.inj hstep)
    exact h.quiet hinv rfl (h.idle (by simp [hadm]) (by simp))
  | close =>
    obtain ⟨rfl, rfl⟩ := Prod.mk.inj (Option.some.inj hstep)
    refine h.quiet hinv rfl ?_
    have hhand := h.inHand
    unfold Trace.InHand at hhand ⊢
    cases hworker : t.s.worker <;> rw [hworker] at hhand <;> exact hhand

theorem TraceInv.inOrder (h : TraceInv t) : InOrder t := by
  have hcalled : t.called <+: t.handed := by
    have hhand := h.inHand
    unfold Trace.InHand at hhand
    split at hhand
    · exact ⟨_, hhand.symm⟩
    · exact hhand ▸ List.prefix_rfl
  have hnot : ∀ n ∈ t.cancelled, n ∉ t.handed :=
    fun n hn hmem => (wanted_lt (h.handed_wanted hmem)).2 hn
  refine ⟨h.order, fun n hn => ⟨hnot n hn, fun hmem => hnot n hn (hcalled.subset hmem)⟩, hcalled,
    fun hready be bc hdeq => ?_⟩
  rcases h.inv.queues.dequeue_front (h.inv.busy_of_ready hready) t.s.bc.bcBtid with
    ⟨-, hdeq'⟩ | ⟨be', pendq, hq, hdeq'⟩
  · rw [hdeq'] at hdeq
    cases hdeq
  · rw [hdeq'] at hdeq
    obtain ⟨hbe, -⟩ := Prod.mk.inj (Option.some.inj hdeq)
    rw [hq, List.head?_cons, hbe]

end Order

/-- A caller leaves the offset of a pending request alone. -/
def Trace.Untouched (t : Trace) (op : Op) : Prop := BlockIf.Untouched t.s op

instance (t : Trace) (op : Op) : Decidable (t.Untouched op) :=
  inferInstanceAs (Decidable (BlockIf.Untouched t.s op))

/-- In every run that leaves the offsets of pending requests alone. -/
theorem performed_in_order (t : Trace) (hr : (traced.restrict Trace.Untouched).Reachable t) :
    InOrder t := by
  have hind : (traced.restrict Trace.Untouched).Inductive TraceInv := by
    constructor
    · rintro t ⟨btid, req, rfl⟩
      exact TraceInv.start btid req
    · rintro t op t' h ⟨hun, hs⟩
      exact h.preserved hun hs
  exact (hind.reachable hr).inOrder

/-- Three writes, each beginning where the one before ends. The second is cancelled while the
worker is at the first. -/
theorem performed_sequential_writes :
    ∃ t, System.exec (System.guarded Trace.Untouched Trace.next)
        (Trace.start (blockifOpen 1 fun _ => ⟨[], 0⟩))
        [.fill 1 ⟨[512], 0⟩, .request .write 1, .fill 2 ⟨[512], 512⟩, .request .write 2,
          .fill 3 ⟨[512], 1024⟩, .request .write 3, .dequeue, .cancel 2, .procDone, .complete,
          .dequeue, .procDone] = some t ∧
      t.handed = [0, 2] ∧ t.called = [0, 2] ∧ t.cancelled = [1] ∧ InOrder t := by
  have hrun : ((System.exec (System.guarded Trace.Untouched Trace.next)
      (Trace.start (blockifOpen 1 fun _ => ⟨[], 0⟩))
      [.fill 1 ⟨[512], 0⟩, .request .write 1, .fill 2 ⟨[512], 512⟩, .request .write 2,
        .fill 3 ⟨[512], 1024⟩, .request .write 3, .dequeue, .cancel 2, .procDone, .complete,
        .dequeue, .procDone]).map fun t => (t.handed, t.called, t.cancelled)) =
      some ([0, 2], [0, 2], [1]) := by decide +kernel
  obtain ⟨t, hexec, ht⟩ := Option.map_eq_some_iff.mp hrun
  simp only [Prod.mk.injEq] at ht
  obtain ⟨hhanded, hcalled, hcancelled⟩ := ht
  have hr : (traced.restrict Trace.Untouched).Reachable t :=
    System.exec_reachable_guarded (.init ⟨1, _, rfl⟩) hexec
  exact ⟨t, hexec, hhanded, hcalled, hcancelled, performed_in_order t hr⟩

/-- The request of the second write is filled in again, at another place, while it waits for the
first. Nobody lets go of it then, and the worker passes over it to the third. -/
theorem passed_over_by_reuse :
    ∃ t, System.exec Trace.next (Trace.start (blockifOpen 1 fun _ => ⟨[], 0⟩))
        [.fill 1 ⟨[512], 0⟩, .request .write 1, .fill 2 ⟨[512], 512⟩, .request .write 2,
          .fill 2 ⟨[512], 4096⟩, .request .write 2,
          .dequeue, .procDone, .complete, .dequeue, .procDone, .complete] = some t ∧
      t.handed = [0, 2] ∧ t.cancelled = [] ∧ ¬ InOrder t := by
  have hrun : ((System.exec Trace.next (Trace.start (blockifOpen 1 fun _ => ⟨[], 0⟩))
      [.fill 1 ⟨[512], 0⟩, .request .write 1, .fill 2 ⟨[512], 512⟩, .request .write 2,
        .fill 2 ⟨[512], 4096⟩, .request .write 2,
        .dequeue, .procDone, .complete, .dequeue, .procDone, .complete]).map fun t =>
          (t.handed, t.cancelled, t.handed ++ t.s.bc.bcPendq.map t.tag, t.wanted)) =
      some ([0, 2], [], [0, 2, 1], [0, 1, 2]) := by decide +kernel
  obtain ⟨t, hexec, ht⟩ := Option.map_eq_some_iff.mp hrun
  simp only [Prod.mk.injEq] at ht
  obtain ⟨hhanded, hcancelled, hall, hwanted⟩ := ht
  refine ⟨t, hexec, hhanded, hcancelled, fun h => ?_⟩
  have horder := h.order
  rw [hall, hwanted] at horder
  cases horder

end Xhyve.Emul.BlockIf
