import Xhyve.Vmm.Callouts

/-!
# The callout queue as a sorted list

`callout_insert` and `callout_remove` keep the queue a doubly linked list of exactly
the queued callouts. Insertion is ordered insertion by timeout, after callouts of the
same timeout, so together with the programming order the queue is strictly sorted in
every state the clients and the thread reach.
-/

namespace Xhyve.Vmm.Callouts

open Lib

set_option linter.unusedSectionVars false

variable {ι : Type} [DecidableEq ι]

/-- The queue's pointers represent `xs`, and exactly those callouts are marked queued. -/
structure Rep (q : Queue ι) (xs : List ι) : Prop where
  linked : Linked (fun x => (q.node x).next) (fun x => (q.node x).prev) q.calloutQueue xs
  queued : ∀ x, x ∈ xs ↔ (q.node x).queued = true

section Rep

variable {q : Queue ι} {xs : List ι} {c : ι}

/-- A write that leaves the links of a queued callout alone. -/
theorem Rep.modify (h : Rep q xs) {f : Callout ι → Callout ι}
    (hq : (f (q.node c)).queued = (q.node c).queued)
    (hn : c ∈ xs → (f (q.node c)).next = (q.node c).next)
    (hp : c ∈ xs → (f (q.node c)).prev = (q.node c).prev) : Rep (q.modify c f) xs where
  linked := by
    refine h.linked.congr (fun x hx => ?_) (fun x hx => ?_)
    · rw [Queue.node_modify]
      split
      · rename_i he
        subst he
        exact hn hx
      · rfl
    · rw [Queue.node_modify]
      split
      · rename_i he
        subst he
        exact hp hx
      · rfl
  queued x := by
    rw [h.queued, Queue.node_modify]
    split
    · rename_i he
      rw [he, hq]
    · rfl

/-- What the writes of an insertion leave in each callout. -/
theorem linkBetween_node {prev next : Option ι} (hp : prev ≠ some c) (hn : next ≠ some c) (x : ι) :
    (linkBetween q c prev next).node x =
      if x = c then { q.node c with prev := prev, next := next, queued := true }
      else
        { q.node x with
          next := if prev = some x then some c else (q.node x).next
          prev := if next = some x then some c else (q.node x).prev } := by
  have hhead : ∀ q' : Queue ι,
      (if prev = none then { q' with calloutQueue := some c } else q').node = q'.node :=
    fun q' => by split <;> rfl
  simp only [linkBetween, Queue.node_modify, hhead, Queue.node_modifyAt]
  by_cases hx : x = c
  · subst hx
    simp only [if_true, if_neg hp, if_neg hn]
  · simp only [if_neg hx]
    split <;> split <;> rfl

theorem linkBetween_calloutQueue {prev next : Option ι} :
    (linkBetween q c prev next).calloutQueue = if prev = none then some c else q.calloutQueue := by
  simp only [linkBetween, Queue.calloutQueue_modify]
  split
  · rfl
  · simp only [Queue.calloutQueue_modifyAt, Queue.calloutQueue_modify]

/-- Linking an unqueued callout in between two parts of the queue. -/
theorem Rep.linkBetween {l r : List ι} (h : Rep q (l ++ r)) (hc : c ∉ l ++ r) :
    Rep (linkBetween q c l.getLast? r.head?) (l ++ c :: r) := by
  have hp : l.getLast? ≠ some c := fun he => hc (by simp [List.mem_of_getLast? he])
  have hn : r.head? ≠ some c := fun he => hc (by simp [List.mem_of_head? he])
  have hne : ∀ x ∈ l ++ r, x ≠ c := fun x hx he => hc (he ▸ hx)
  have hnode := linkBetween_node (q := q) hp hn
  refine ⟨h.linked.insert hc ?_ ?_ ?_ ?_ ?_ ?_ ?_, fun x => ?_⟩
  · rw [linkBetween_calloutQueue, h.linked.head]
    cases l <;> simp
  · simp only [hnode, if_true]
  · simp only [hnode, if_true]
  · intro x hx
    simp only [hnode, if_neg (hne x (by simp [List.mem_of_getLast? hx])), if_pos hx]
  · intro x hx hl
    simp only [hnode, if_neg (hne x hx), if_neg hl]
  · intro x hx
    simp only [hnode, if_neg (hne x (by simp [List.mem_of_head? hx])), if_pos hx]
  · intro x hx hr
    simp only [hnode, if_neg (hne x hx), if_neg hr]
  · have hm := h.queued x
    rw [hnode]
    by_cases hx : x = c
    · simp [hx]
    · rw [if_neg hx]
      simpa [hx] using hm

theorem calloutRemove_node (hq : (q.node c).queued = true) (hp : (q.node c).prev ≠ some c)
    (hn : (q.node c).next ≠ some c) (x : ι) :
    (calloutRemove q c).node x =
      if x = c then { q.node c with prev := none, next := none, queued := false }
      else
        { q.node x with
          next := if (q.node c).prev = some x then (q.node c).next else (q.node x).next
          prev := if (q.node c).next = some x then (q.node c).prev else (q.node x).prev } := by
  have hhead : ∀ (p v : Option ι) (q' : Queue ι),
      (if p = none then { q' with calloutQueue := v } else q').node = q'.node :=
    fun p v q' => by split <;> rfl
  rw [calloutRemove, if_neg (by simp [hq])]
  simp only [Queue.node_modify, hhead, Queue.node_modifyAt]
  by_cases hx : x = c
  · subst hx
    simp only [if_true, if_neg hp, if_neg hn]
  · simp only [if_neg hx]
    split <;> split <;> rfl

theorem calloutRemove_calloutQueue (hq : (q.node c).queued = true) :
    (calloutRemove q c).calloutQueue =
      if (q.node c).prev = none then (q.node c).next else q.calloutQueue := by
  rw [calloutRemove, if_neg (by simp [hq])]
  simp only [Queue.calloutQueue_modify, Queue.calloutQueue_modifyAt]
  split <;> rfl

theorem Rep.unlink {l r : List ι} (h : Rep q (l ++ c :: r)) : Rep (calloutRemove q c) (l ++ r) := by
  have hq : (q.node c).queued = true := (h.queued c).mp (by simp)
  have hprev : (q.node c).prev = l.getLast? := h.linked.prev l c r rfl
  have hnext : (q.node c).next = r.head? := h.linked.next l c r rfl
  have hc : c ∉ l ++ r := (List.nodup_cons.mp (List.nodup_middle.mp h.linked.nodup)).1
  have hne : ∀ x ∈ l ++ r, x ≠ c := fun x hx he => hc (he ▸ hx)
  have hp : (q.node c).prev ≠ some c := by
    rw [hprev]
    exact fun he => hc (by simp [List.mem_of_getLast? he])
  have hn : (q.node c).next ≠ some c := by
    rw [hnext]
    exact fun he => hc (by simp [List.mem_of_head? he])
  have hnode := calloutRemove_node hq hp hn
  rw [hprev, hnext] at hnode
  refine ⟨h.linked.remove ?_ ?_ ?_ ?_ ?_, fun x => ?_⟩
  · rw [calloutRemove_calloutQueue hq, hprev, hnext, h.linked.head]
    cases l <;> simp
  · intro x hx
    simp only [hnode, if_neg (hne x (by simp [List.mem_of_getLast? hx])), if_pos hx]
  · intro x hx hl
    simp only [hnode, if_neg (hne x hx), if_neg hl]
  · intro x hx
    simp only [hnode, if_neg (hne x (by simp [List.mem_of_head? hx])), if_pos hx]
  · intro x hx hr
    simp only [hnode, if_neg (hne x hx), if_neg hr]
  · have hm := h.queued x
    rw [hnode]
    by_cases hx : x = c
    · subst hx
      simpa using hc
    · rw [if_neg hx]
      simpa [hx] using hm

theorem calloutRemove_of_unqueued (hq : (q.node c).queued = false) : calloutRemove q c = q := by
  rw [calloutRemove, if_pos hq]

theorem Rep.calloutRemove (h : Rep q xs) (c : ι) : Rep (calloutRemove q c) (xs.erase c) := by
  by_cases hm : c ∈ xs
  · obtain ⟨l, r, rfl⟩ := List.append_of_mem hm
    have hl : c ∉ l := fun hl =>
      (List.nodup_append.mp h.linked.nodup).2.2 c hl c (by simp) rfl
    rw [List.erase_append_right _ hl, List.erase_cons_head]
    exact h.unlink
  · have hq : (q.node c).queued = false := by
      rw [← Bool.not_eq_true, ← h.queued c]
      exact hm
    rw [calloutRemove_of_unqueued hq, List.erase_of_not_mem hm]
    exact h

theorem Rep.calloutRemove_data (h : Rep q xs) (c x : ι) :
    ((Callouts.calloutRemove q c).node x).data = (q.node x).data := by
  by_cases hq : (q.node c).queued = true
  · obtain ⟨l, r, rfl⟩ := List.append_of_mem ((h.queued c).mpr hq)
    have hc : c ∉ l ++ r := (List.nodup_cons.mp (List.nodup_middle.mp h.linked.nodup)).1
    have hp : (q.node c).prev ≠ some c := by
      rw [show (q.node c).prev = l.getLast? from h.linked.prev l c r rfl]
      exact fun he => hc (by simp [List.mem_of_getLast? he])
    have hn : (q.node c).next ≠ some c := by
      rw [show (q.node c).next = r.head? from h.linked.next l c r rfl]
      exact fun he => hc (by simp [List.mem_of_head? he])
    rw [calloutRemove_node hq hp hn]
    split
    · rename_i hx
      rw [hx]
      rfl
    · rfl
  · rw [calloutRemove_of_unqueued (by simpa using hq)]

theorem linkBetween_data {prev next : Option ι} (hp : prev ≠ some c) (hn : next ≠ some c) (x : ι) :
    ((linkBetween q c prev next).node x).data = (q.node x).data := by
  rw [linkBetween_node hp hn]
  split
  · rename_i hx
    rw [hx]
    rfl
  · rfl

def Queue.timeouts (q : Queue ι) (c : ι) : Nat := (q.node c).timeout

/-- The order `callout_insert` searches by. -/
def earlier (t : ι → Nat) (a b : ι) : Prop := t a < t b

instance (t : ι → Nat) : DecidableRel (earlier t) := fun _ _ => Nat.decLt _ _

theorem calloutCmp_iff {a b : ι} :
    calloutCmp (q.node a) (q.node b) = true ↔ earlier q.timeouts a b :=
  decide_eq_true_iff

theorem timeouts_congr {q' : Queue ι} (h : ∀ x, (q'.node x).data = (q.node x).data) :
    q'.timeouts = q.timeouts :=
  funext fun x => congrArg Prod.fst (h x)

theorem orderedInsert_append {R : ι → ι → Prop} [DecidableRel R] {l r : List ι} {c : ι}
    (hl : ∀ x ∈ l, ¬ R c x) : (l ++ r).orderedInsert R c = l ++ r.orderedInsert R c := by
  induction l with
  | nil => rfl
  | cons y l ih =>
    rw [List.cons_append, List.orderedInsert_of_not_le _ _ (hl y (by simp)),
      ih fun x hx => hl x (by simp [hx]), List.cons_append]

/-- What an insertion returns: the queue with `c` in its place, and nothing but links
changed. -/
structure Inserted (q : Queue ι) (xs : List ι) (c : ι) (q' : Queue ι) : Prop where
  rep : Rep q' (xs.orderedInsert (earlier q.timeouts) c)
  data : ∀ x, (q'.node x).data = (q.node x).data

theorem Rep.inserted {l r : List ι} (h : Rep q (l ++ r)) (hc : c ∉ l ++ r)
    (hl : ∀ x ∈ l, ¬ earlier q.timeouts c x) (hr : ∀ x ∈ r.head?, earlier q.timeouts c x) :
    Inserted q (l ++ r) c (Callouts.linkBetween q c l.getLast? r.head?) := by
  have hp : l.getLast? ≠ some c := fun he => hc (by simp [List.mem_of_getLast? he])
  have hn : r.head? ≠ some c := fun he => hc (by simp [List.mem_of_head? he])
  have hins : r.orderedInsert (earlier q.timeouts) c = c :: r := by
    cases r with
    | nil => rfl
    | cons y r => exact List.orderedInsert_cons_of_le _ _ (hr y rfl)
  refine ⟨?_, linkBetween_data hp hn⟩
  rw [orderedInsert_append hl, hins]
  exact h.linkBetween hc

/-- The search from `node` puts `c` among the callouts after it. -/
theorem Rep.insertAfter {l r : List ι} {node : ι} {fuel : Nat} (h : Rep q (l ++ node :: r))
    (hc : c ∉ l ++ node :: r) (hl : ∀ x ∈ l ++ [node], ¬ earlier q.timeouts c x) (hf : r.length < fuel) :
    ∃ q', Callouts.insertAfter q c fuel node = some q' ∧ Inserted q (l ++ node :: r) c q' := by
  induction r generalizing l node fuel with
  | nil =>
    obtain ⟨fuel, rfl⟩ : ∃ f, fuel = f + 1 := ⟨fuel - 1, by simp at hf; omega⟩
    have hins := Rep.inserted (l := l ++ [node]) (r := []) (by simpa using h)
      (by simpa using hc) hl (by simp)
    rw [List.append_nil] at hins
    refine ⟨_, ?_, hins⟩
    simp [Callouts.insertAfter, h.linked.next l node [] rfl]
  | cons y r ih =>
    obtain ⟨fuel, rfl⟩ : ∃ f, fuel = f + 1 := ⟨fuel - 1, by simp at hf; omega⟩
    have hnext : (q.node node).next = some y := h.linked.next l node (y :: r) rfl
    rw [show l ++ node :: y :: r = (l ++ [node]) ++ y :: r by simp] at h hc ⊢
    by_cases hy : earlier q.timeouts c y
    · refine ⟨_, ?_, h.inserted hc hl (by simpa using hy)⟩
      simp [Callouts.insertAfter, hnext, calloutCmp_iff, hy]
    · obtain ⟨q', hq', hins⟩ := ih (l := l ++ [node]) h hc
        (by
          intro x hx
          rcases List.mem_append.mp hx with hx | hx
          · exact hl x hx
          · rwa [List.mem_singleton.mp hx])
        (by simpa using hf)
      refine ⟨q', ?_, hins⟩
      simp [Callouts.insertAfter, hnext, calloutCmp_iff, hy, hq']

/-- An insertion returns, and refines ordered insertion. -/
theorem Rep.calloutInsert {fuel : Nat} (h : Rep q xs) (hc : c ∉ xs) (hf : xs.length ≤ fuel) :
    ∃ q', Callouts.calloutInsert fuel q c = some q' ∧ Inserted q xs c q' := by
  have hhead := h.linked.head
  cases xs with
  | nil =>
    refine ⟨_, ?_, Rep.inserted (l := []) (r := []) h hc (by simp) (by simp)⟩
    simp [Callouts.calloutInsert, hhead]
  | cons y r =>
    by_cases hy : earlier q.timeouts c y
    · refine ⟨_, ?_, Rep.inserted (l := []) (r := y :: r) h hc (by simp) (by simpa using hy)⟩
      simp [Callouts.calloutInsert, hhead, calloutCmp_iff, hy]
    · obtain ⟨q', hq', hins⟩ := Rep.insertAfter (l := []) h hc (by simpa using hy) hf
      refine ⟨q', ?_, hins⟩
      simp [Callouts.calloutInsert, hhead, calloutCmp_iff, hy, hq']

theorem Rep.stopLocked (h : Rep q xs) (c : ι) : Rep (stopLocked q c) (xs.erase c) :=
  (h.calloutRemove c).modify rfl (fun _ => rfl) fun _ => rfl

theorem Rep.stopLocked_data (h : Rep q xs) (c x : ι) :
    ((Callouts.stopLocked q c).node x).data =
      if x = c then ((q.node x).timeout, (q.node x).argument, (q.node x).callout, Flags.none)
      else (q.node x).data := by
  have hd := h.calloutRemove_data c x
  simp only [Callout.data, Prod.mk.injEq] at hd
  rw [Callouts.stopLocked, Queue.node_modify]
  split
  · simp [Callout.data, hd]
  · simp [Callout.data, hd]

/-- What programming `c` for `timeout` does to the queue. -/
structure Reprogrammed (q : Queue ι) (xs : List ι) (c : ι) (timeout : Nat) (q' : Queue ι) :
    Prop where
  rep : Rep q' ((xs.erase c).orderedInsert (earlier q'.timeouts) c)
  others : ∀ x, x ≠ c → (q'.node x).data = (q.node x).data
  timeout : (q'.node c).timeout = timeout
  pending : (q'.node c).flags.pending = true

/-- The timeout `callout_reset_sbt` programs. -/
def resetTimeout (tb : Timebase) (now : Nat) (sbt : Int) (flags : Nat) : Nat :=
  if flags ≠ cAbsolute then (sbt2mat tb sbt + now) % 2 ^ 64 else sbt2mat tb sbt

theorem Rep.calloutResetSbt (h : Rep q xs) (tb : Timebase) {fuel : Nat} (hf : xs.length ≤ fuel)
    (now : Nat) (c : ι) (sbt : Int) (ftn arg flags : Nat) :
    ∃ q', Callouts.calloutResetSbt tb fuel now q c sbt ftn arg flags = some q' ∧
      Reprogrammed q xs c (resetTimeout tb now sbt flags) q' := by
  have h1 : Rep (q.modify c ({ · with timeout := resetTimeout tb now sbt flags })) xs :=
    h.modify rfl (fun _ => rfl) fun _ => rfl
  have hd2 := h1.stopLocked_data c
  have h2 := h1.stopLocked c
  set q2 := Callouts.stopLocked (q.modify c ({ · with timeout := resetTimeout tb now sbt flags })) c
  have h3 : Rep (q2.modify c fun n =>
      { n with
        callout := ftn
        argument := arg
        flags := { n.flags with pending := true, active := true } }) (xs.erase c) :=
    h2.modify rfl (fun _ => rfl) fun _ => rfl
  set q3 := q2.modify c fun n =>
    { n with
      callout := ftn
      argument := arg
      flags := { n.flags with pending := true, active := true } } with hq3
  have hlen : (xs.erase c).length ≤ fuel := List.erase_sublist.length_le.trans hf
  obtain ⟨q4, hq4, hins⟩ := h3.calloutInsert h.linked.nodup.not_mem_erase hlen
  have hdata : ∀ x, (q4.node x).data = (q3.node x).data := hins.data
  refine ⟨if q4.calloutQueue = some c then { q4 with work := true } else q4, ?_, ?_⟩
  · exact congrArg (Option.map _) hq4
  have hq4 : Reprogrammed q xs c (resetTimeout tb now sbt flags) q4 := by
    refine ⟨timeouts_congr hdata ▸ hins.rep, fun x hx => ?_, ?_, ?_⟩
    · rw [hdata, hq3, Queue.node_modify, if_neg hx, hd2, if_neg hx, Queue.node_modify, if_neg hx]
    · have ht : (q4.node c).timeout = (q3.node c).timeout := congrArg Prod.fst (hdata c)
      have ht2 := congrArg Prod.fst (hd2 c)
      rw [if_pos rfl] at ht2
      rw [ht, hq3, Queue.node_modify, if_pos rfl]
      refine ht2.trans ?_
      rw [Queue.node_modify, if_pos rfl]
    · have hfl : (q4.node c).flags = (q3.node c).flags := congrArg (·.2.2.2) (hdata c)
      rw [hfl, hq3, Queue.node_modify, if_pos rfl]
  split
  · exact { hq4 with rep := ⟨hq4.rep.linked, hq4.rep.queued⟩ }
  · exact hq4

end Rep

/-! ## Every reachable state -/

/-- Earlier timeout first, and of equal timeouts the one programmed first. -/
def Before (t n : ι → Nat) (a b : ι) : Prop := t a < t b ∨ t a = t b ∧ n a < n b

theorem pairwise_orderedInsert {t n : ι → Nat} {xs : List ι} {c : ι}
    (h : xs.Pairwise (Before t n)) (hc : ∀ x ∈ xs, n x < n c) :
    (xs.orderedInsert (earlier t) c).Pairwise (Before t n) := by
  induction xs with
  | nil => simp
  | cons y xs ih =>
    obtain ⟨hy, hxs⟩ := List.pairwise_cons.mp h
    rw [List.orderedInsert_cons]
    split
    · rename_i hlt
      refine List.pairwise_cons.mpr ⟨fun x hx => ?_, h⟩
      rcases List.mem_cons.mp hx with rfl | hx
      · exact .inl hlt
      · rcases hy x hx with hyx | ⟨hyx, -⟩
        · exact .inl (hlt.trans hyx)
        · exact .inl (hyx ▸ hlt)
    · rename_i hge
      refine List.pairwise_cons.mpr ⟨fun x hx => ?_, ih hxs fun x hx => hc x (by simp [hx])⟩
      rcases (List.mem_orderedInsert _).mp hx with rfl | hx
      · have hn := hc y (by simp)
        rcases (Nat.le_of_not_lt hge).lt_or_eq with hlt | heq
        · exact .inl hlt
        · exact .inr ⟨heq, hn⟩
      · exact hy x hx

/-- The queue of `s` is `xs`: linked, in order, and made of callouts still pending but
for the one whose handler is running. -/
structure Ordered (s : State ι) (xs : List ι) : Prop where
  rep : Rep s.queue xs
  known : xs ⊆ s.callouts
  sorted : xs.Pairwise (Before s.queue.timeouts s.stamp)
  stamps : ∀ x ∈ xs, s.stamp x < s.resets
  pending : ∀ x ∈ xs, (s.queue.node x).flags.pending = true ∨ s.thread = .handler x
  running : s.thread ≠ .aborted

section Steps

variable {s t : State ι} {xs ys : List ι} {c : ι}

/-- Steps that program nothing: callouts may leave the queue, and the rest keep their
timeouts. -/
theorem Ordered.shrink (h : Ordered s xs) (hsub : ys.Sublist xs) (hrep : Rep t.queue ys)
    (hknown : s.callouts ⊆ t.callouts) (htime : ∀ x ∈ ys, t.queue.timeouts x = s.queue.timeouts x)
    (hstamp : t.stamp = s.stamp) (hresets : t.resets = s.resets)
    (hpend : ∀ x ∈ ys, (t.queue.node x).flags.pending = true ∨ t.thread = .handler x)
    (hrun : t.thread ≠ .aborted) : Ordered t ys where
  rep := hrep
  known := fun x hx => hknown (h.known (hsub.subset hx))
  sorted := (h.sorted.sublist hsub).imp_of_mem fun ha hb hab => by
    rw [Before, htime _ ha, htime _ hb, hstamp]
    exact hab
  stamps x hx := by
    rw [hstamp, hresets]
    exact h.stamps x (hsub.subset hx)
  pending := hpend
  running := hrun

/-- Steps of the thread that leave the queue alone. -/
theorem Ordered.move (h : Ordered s xs) {th : Thread ι}
    (hpend : ∀ x ∈ xs, (s.queue.node x).flags.pending = true ∨ th = .handler x)
    (hrun : th ≠ .aborted) : Ordered { s with thread := th } xs :=
  h.shrink (List.Sublist.refl _) h.rep (fun _ hx => hx) (fun _ _ => rfl) rfl rfl hpend hrun

theorem Ordered.pendingOf (h : Ordered s xs) (hth : ∀ x, s.thread ≠ .handler x) :
    ∀ x ∈ xs, (s.queue.node x).flags.pending = true :=
  fun x hx => (h.pending x hx).resolve_right (hth x)

theorem Ordered.stopped (h : Ordered s xs) (c : ι) : Ordered (s.stopped c) (xs.erase c) := by
  have hdata : ∀ x ∈ xs.erase c, ((s.stopped c).queue.node x).data = (s.queue.node x).data := by
    intro x hx
    have hne : x ≠ c := (h.rep.linked.nodup.mem_erase_iff.mp hx).1
    exact (h.rep.stopLocked_data c x).trans (if_neg hne)
  refine h.shrink List.erase_sublist (h.rep.stopLocked c) (fun _ hx => hx) (fun x hx => ?_)
    rfl rfl (fun x hx => ?_) h.running
  · exact congrArg Prod.fst (hdata x hx)
  · have hfl : ((s.stopped c).queue.node x).flags = (s.queue.node x).flags :=
      congrArg (·.2.2.2) (hdata x hx)
    rw [hfl]
    exact h.pending x (List.mem_of_mem_erase hx)

theorem Ordered.work (h : Ordered s xs) (b : Bool) : Ordered { s with queue.work := b } xs :=
  h.shrink (List.Sublist.refl _) ⟨h.rep.linked, h.rep.queued⟩ (fun _ hx => hx) (fun _ _ => rfl)
    rfl rfl h.pending h.running

/-- A write to the flags of one callout that keeps it pending. -/
theorem Ordered.setFlags (h : Ordered s xs) (c : ι) (f : Flags → Flags)
    (hf : ∀ fl, (f fl).pending = fl.pending) :
    Ordered { s with queue := s.queue.modify c fun n => { n with flags := f n.flags } } xs := by
  have hrep : Rep (s.queue.modify c fun n => { n with flags := f n.flags }) xs :=
    h.rep.modify rfl (fun _ => rfl) fun _ => rfl
  refine h.shrink (List.Sublist.refl _) hrep (fun _ hx => hx) (fun x _ => ?_) rfl rfl
    (fun x hx => ?_) h.running
  · simp only [Queue.timeouts, Queue.node_modify]
    split <;> rfl
  · simp only [Queue.node_modify]
    split
    · simp only [hf]
      exact h.pending x hx
    · exact h.pending x hx

theorem Ordered.length_le (h : Ordered s xs) : xs.length ≤ s.callouts.length :=
  (List.subperm_of_subset h.rep.linked.nodup h.known).length_le

theorem Ordered.reset (h : Ordered s xs) (tb : Timebase) (hc : c ∈ s.callouts) (sbt : Int)
    (ftn arg flags : Nat) :
    ∃ t, s.reset tb c sbt ftn arg flags = some t ∧
      Ordered t ((xs.erase c).orderedInsert (earlier t.queue.timeouts) c) := by
  obtain ⟨q, hq, hr⟩ := h.rep.calloutResetSbt tb h.length_le s.now c sbt ftn arg flags
  refine ⟨s.program c q, by rw [State.reset, hq, Option.map_some], ?_⟩
  have hne : ∀ x ∈ xs.erase c, x ≠ c := fun x hx => (h.rep.linked.nodup.mem_erase_iff.mp hx).1
  have hstamp : ∀ x ∈ xs.erase c, (s.program c q).stamp x = s.stamp x :=
    fun x hx => Function.update_of_ne (hne x hx) _ _
  have hself : (s.program c q).stamp c = s.resets := Function.update_self ..
  have htime : ∀ x ∈ xs.erase c, (s.program c q).queue.timeouts x = s.queue.timeouts x :=
    fun x hx => congrArg Prod.fst (hr.others x (hne x hx))
  refine ⟨hr.rep, fun x hx => ?_, pairwise_orderedInsert ?_ fun x hx => ?_, fun x hx => ?_,
    fun x hx => ?_, h.running⟩
  · rcases (List.mem_orderedInsert _).mp hx with rfl | hx
    · exact hc
    · exact h.known (List.mem_of_mem_erase hx)
  · refine (h.sorted.sublist List.erase_sublist).imp_of_mem fun ha hb hab => ?_
    rw [Before, htime _ ha, htime _ hb, hstamp _ ha, hstamp _ hb]
    exact hab
  · rw [hstamp x hx, hself]
    exact h.stamps x (List.mem_of_mem_erase hx)
  · rcases (List.mem_orderedInsert _).mp hx with rfl | hx
    · rw [hself]
      exact Nat.lt_succ_self _
    · rw [hstamp x hx]
      exact (h.stamps x (List.mem_of_mem_erase hx)).trans (Nat.lt_succ_self _)
  · rcases (List.mem_orderedInsert _).mp hx with rfl | hx
    · exact .inl hr.pending
    · have hfl : ((s.program c q).queue.node x).flags = (s.queue.node x).flags :=
        congrArg (·.2.2.2) (hr.others x (hne x hx))
      rw [hfl]
      exact h.pending x (List.mem_of_mem_erase hx)

theorem Ordered.init (h : Ordered s xs) (hc : c ∉ s.callouts) :
    Ordered { s with
      queue := s.queue.modify c fun _ => Callout.zero
      callouts := c :: s.callouts } xs := by
  have hx : c ∉ xs := fun hx => hc (h.known hx)
  have hne : ∀ x ∈ xs, x ≠ c := fun x hm he => hx (he ▸ hm)
  have hq : (s.queue.node c).queued = false := by
    rw [← Bool.not_eq_true, ← h.rep.queued]
    exact hx
  have hrep : Rep (s.queue.modify c fun _ => Callout.zero) xs :=
    h.rep.modify hq.symm (fun hm => absurd hm hx) fun hm => absurd hm hx
  refine h.shrink (List.Sublist.refl _) hrep (fun _ hm => List.mem_cons_of_mem _ hm)
    (fun x hm => ?_) rfl rfl (fun x hm => ?_) h.running
  · simp only [Queue.timeouts, Queue.node_modify, if_neg (hne x hm)]
  · simp only [Queue.node_modify, if_neg (hne x hm)]
    exact h.pending x hm

theorem Ordered.drain (h : Ordered s xs) (hs : s.drain c = some t) : ∃ ys, Ordered t ys := by
  simp only [State.drain] at hs
  split at hs
  · split at hs
    · simp at hs
    · split at hs
      · obtain rfl := Option.some.inj hs
        exact ⟨_, (h.work true).stopped c⟩
      · obtain rfl := Option.some.inj hs
        exact ⟨xs, { (h.setFlags c ({ · with waiting := true }) fun _ => rfl).work true with }⟩
  · obtain rfl := Option.some.inj hs
    exact ⟨_, h.stopped c⟩

theorem Ordered.pick (h : Ordered s xs) (hth : s.thread = .top) : Ordered s.pick xs := by
  have hpend : ∀ x ∈ xs, (s.queue.node x).flags.pending = true := h.pendingOf (by simp [hth])
  unfold State.pick
  split
  · exact h.move (fun x hx => .inl (hpend x hx)) (by simp)
  · rename_i c hc
    have hmem : c ∈ xs := List.mem_of_head? (h.rep.linked.head.symm.trans hc)
    rw [if_neg (by simp [hpend c hmem])]
    exact h.move (fun x hx => .inl (hpend x hx)) (by simp)

theorem Ordered.check (h : Ordered s xs) (hth : s.thread = .timed c) : Ordered (s.check c) xs := by
  have hpend : ∀ x ∈ xs, (s.queue.node x).flags.pending = true := h.pendingOf (by simp [hth])
  unfold State.check
  split
  · exact h.move (fun x hx => .inl (hpend x hx)) (by simp)
  · split
    · exact h.move (fun x hx => .inl (hpend x hx)) (by simp)
    · exact h.move (fun x hx => .inl (hpend x hx)) (by simp)

theorem Ordered.finish (h : Ordered s xs) {expired : Bool} (hth : s.thread = .waited c expired) :
    Ordered (s.finish c expired) xs := by
  have hpend : ∀ x ∈ xs, (s.queue.node x).flags.pending = true := h.pendingOf (by simp [hth])
  simp only [State.finish]
  split
  · exact (h.work false).move (fun x hx => .inl (hpend x hx)) (by simp)
  · have hrep : Rep (Queue.modify { s.queue with work := false } c fun n =>
        { n with flags := { n.flags with pending := false } }) xs :=
      (h.work false).rep.modify rfl (fun _ => rfl) fun _ => rfl
    refine h.shrink (List.Sublist.refl _) hrep (fun _ hx => hx) (fun x _ => ?_) rfl rfl
      (fun x hx => ?_) (by simp)
    · simp only [Queue.timeouts, Queue.node_modify]
      split <;> rfl
    · by_cases he : x = c
      · exact .inr (by rw [he])
      · simp only [Queue.node_modify, if_neg he]
        exact .inl (hpend x hx)

/-- The handler's own callout leaves the queue unless it was programmed again. -/
theorem Ordered.handlerReturn (h : Ordered s xs) (hth : s.thread = .handler c) :
    ∃ ys, Ordered (s.handlerReturn c) ys := by
  have hpend : ∀ x ∈ xs, x ≠ c → (s.queue.node x).flags.pending = true := fun x hx hne =>
    (h.pending x hx).resolve_right (by simp [hth, Ne.symm hne])
  simp only [State.handlerReturn]
  split
  · have hset := h.setFlags c ({ · with completed := true }) fun _ => rfl
    have hdata := hset.rep.calloutRemove_data c
    have hne : ∀ x ∈ xs.erase c, x ≠ c := fun x hx =>
      (h.rep.linked.nodup.mem_erase_iff.mp hx).1
    refine ⟨xs.erase c, hset.shrink List.erase_sublist (hset.rep.calloutRemove c) (fun _ hx => hx)
      (fun x _ => congrArg Prod.fst (hdata x)) rfl rfl (fun x hx => ?_) (by simp)⟩
    have hfl := congrArg (·.2.2.2) (hdata x)
    simp only [Callout.data, Queue.node_modify, if_neg (hne x hx)] at hfl
    exact .inl (by rw [hfl]; exact hpend x (List.mem_of_mem_erase hx) (hne x hx))
  · rename_i hstay
    refine ⟨xs, h.move (fun x hx => .inl ?_) (by simp)⟩
    by_cases he : x = c
    · subst he
      by_contra hp
      exact hstay ⟨(h.rep.queued x).mp hx, .inl hp⟩
    · exact hpend x hx he

theorem Ordered.next (h : Ordered s xs) (tb : Timebase) {e : Event ι}
    (hs : s.next tb e = some t) : ∃ ys, Ordered t ys := by
  cases e with
  | tick d =>
    obtain rfl := Option.some.inj hs
    exact ⟨xs, { h with }⟩
  | init c =>
    obtain ⟨hc, ⟨⟩⟩ := Option.ite_none_left_eq_some.mp hs
    exact ⟨xs, h.init hc⟩
  | reset c sbt ftn arg flags =>
    obtain ⟨hc, hs⟩ := Option.ite_none_right_eq_some.mp hs
    obtain ⟨u, hu, ho⟩ := h.reset tb hc.2 sbt ftn arg flags
    obtain rfl := Option.some.inj (hu.symm.trans hs)
    exact ⟨_, ho⟩
  | stop c =>
    obtain ⟨-, ⟨⟩⟩ := Option.ite_none_right_eq_some.mp hs
    exact ⟨_, h.stopped c⟩
  | drain c =>
    obtain ⟨-, hs⟩ := Option.ite_none_right_eq_some.mp hs
    exact h.drain hs
  | drained c =>
    obtain ⟨-, ⟨⟩⟩ := Option.ite_none_right_eq_some.mp hs
    exact ⟨_, { h.stopped c with }⟩
  | deactivate c =>
    obtain rfl := Option.some.inj hs
    exact ⟨xs, h.setFlags c ({ · with active := false }) fun _ => rfl⟩
  | wake =>
    obtain ⟨hth, ⟨⟩⟩ := Option.ite_none_right_eq_some.mp hs
    exact ⟨xs, h.move (fun x hx => .inl (h.pendingOf (by simp [hth]) x hx)) (by simp)⟩
  | pick =>
    obtain ⟨hth, ⟨⟩⟩ := Option.ite_none_right_eq_some.mp hs
    exact ⟨xs, h.pick hth⟩
  | check =>
    cases hth : s.thread <;> simp only [State.next, hth, reduceCtorEq, Option.some.injEq] at hs
    subst hs
    exact ⟨xs, h.check hth⟩
  | signalled =>
    cases hth : s.thread <;> simp only [State.next, hth, reduceCtorEq, Option.some.injEq] at hs
    subst hs
    exact ⟨xs, h.move (fun x hx => .inl (h.pendingOf (by simp [hth]) x hx)) (by simp)⟩
  | timedOut =>
    cases hth : s.thread <;>
      simp only [State.next, hth, reduceCtorEq, Option.ite_none_right_eq_some,
        Option.some.injEq] at hs
    obtain ⟨-, rfl⟩ := hs
    exact ⟨xs, h.move (fun x hx => .inl (h.pendingOf (by simp [hth]) x hx)) (by simp)⟩
  | finish =>
    cases hth : s.thread <;> simp only [State.next, hth, reduceCtorEq, Option.some.injEq] at hs
    subst hs
    exact ⟨xs, h.finish hth⟩
  | handlerReturn =>
    cases hth : s.thread <;> simp only [State.next, hth, reduceCtorEq, Option.some.injEq] at hs
    subst hs
    exact h.handlerReturn hth

end Steps

/-- The callouts met from `callout_queue` along `next`. -/
def State.entries (s : State ι) : List ι :=
  Linked.follow (fun x => (s.queue.node x).next) s.callouts.length s.queue.calloutQueue

theorem Ordered.entries_eq {s : State ι} {xs : List ι} (h : Ordered s xs) : s.entries = xs :=
  h.rep.linked.follow_eq h.length_le

theorem Initial.ordered {s : State ι} (h : Initial s) : Ordered s [] where
  rep := by
    refine ⟨?_, fun x => by simp [h.unqueued x]⟩
    rw [h.queue.1]
    exact Linked.empty _ _
  known := by simp
  sorted := List.Pairwise.nil
  stamps := by simp
  pending := by simp
  running := by simp [h.thread]

theorem ordered_inductive (tb : Timebase) :
    (system tb).Inductive fun s : State ι => Ordered s s.entries where
  init s hi := by
    rw [hi.ordered.entries_eq]
    exact hi.ordered
  step s e t h hs := by
    obtain ⟨ys, ho⟩ := h.next tb hs
    rw [ho.entries_eq]
    exact ho

theorem erase_orderedInsert {R : ι → ι → Prop} [DecidableRel R] {xs : List ι} {c : ι}
    (hc : c ∉ xs) : (xs.orderedInsert R c).erase c = xs := by
  have hout : c ∉ xs.takeWhile fun b => ¬ R c b :=
    fun hm => hc ((List.takeWhile_sublist _).subset hm)
  rw [List.orderedInsert_eq_take_drop, List.erase_append_right _ hout, List.erase_cons_head,
    List.takeWhile_append_dropWhile]

/-- In every reachable state the queue is a finite doubly linked list without repetition of
exactly the queued callouts, sorted by timeout and then by programming order; the thread
never aborts on a head it picks; and programming or stopping a callout returns and leaves
the others in their order. -/
theorem callout_queue_sorted_list (tb : Timebase) {s : State ι}
    (hr : (system tb).Reachable s) :
    Linked (fun x => (s.queue.node x).next) (fun x => (s.queue.node x).prev)
      s.queue.calloutQueue s.entries ∧
    (∀ c, c ∈ s.entries ↔ (s.queue.node c).queued = true) ∧
    s.entries.Pairwise (Before s.queue.timeouts s.stamp) ∧
    (s.thread = .top → ∀ c, s.queue.calloutQueue = some c →
      (s.queue.node c).flags.active = true ∨ (s.queue.node c).flags.pending = true) ∧
    s.thread ≠ .aborted ∧
    (∀ c sbt ftn arg flags, s.mayCall c →
      ∃ t, s.next tb (.reset c sbt ftn arg flags) = some t ∧ t.entries.erase c = s.entries.erase c) ∧
    ∀ c, s.mayCall c → ∃ t, s.next tb (.stop c) = some t ∧ t.entries = s.entries.erase c := by
  have h := (ordered_inductive tb).reachable hr
  refine ⟨h.rep.linked, h.rep.queued, h.sorted, ?_, h.running, ?_, ?_⟩
  · intro hth c hc
    have hmem : c ∈ s.entries := List.mem_of_head? (h.rep.linked.head.symm.trans hc)
    exact .inr (h.pendingOf (by simp [hth]) c hmem)
  · intro c sbt ftn arg flags hc
    obtain ⟨t, ht, ho⟩ := h.reset tb hc.2 sbt ftn arg flags
    refine ⟨t, (if_pos hc).trans ht, ?_⟩
    rw [ho.entries_eq]
    exact erase_orderedInsert h.rep.linked.nodup.not_mem_erase
  · intro c hc
    exact ⟨_, if_pos hc, (h.stopped c).entries_eq⟩

/-- After `callout_system_init`, with no callout initialised. -/
def State.start (ι : Type) : State ι where
  queue := ⟨fun _ => Callout.zero, none, false⟩
  now := 0
  thread := .idle
  callouts := []
  drainers := []
  programmed := fun _ => none
  stamp := fun _ => 0
  resets := 0

theorem State.start_initial : Initial (State.start ι) :=
  ⟨⟨rfl, rfl⟩, fun _ => rfl, rfl, ⟨rfl, rfl⟩, fun _ => rfl, fun _ => rfl⟩

/-- A timebase that counts nanoseconds. -/
def nanoseconds : Timebase := ⟨1, 1⟩

/-- The absolute time of a number of seconds, as callers pass it. -/
def resetAt (c seconds : Nat) : Event Nat := .reset c (seconds * 2 ^ 32) 0 0 cAbsolute

/-- The thread takes the head and arms its wait; the first round only clears `work`. -/
def armHead : List (Event Nat) := [.wake, .pick, .check, .finish, .pick, .check]

theorem callout_queue_sorted_list_ties : ∃ s : State Nat, (system nanoseconds).Reachable s ∧
    s.entries = [0, 2, 1] ∧ s.thread ≠ .aborted ∧
    s.entries.Pairwise (Before s.queue.timeouts s.stamp) := by
  have hrun : (System.exec (State.next nanoseconds) (State.start Nat)
      ([.init 0, .init 1, .init 2, resetAt 0 3, resetAt 1 1, resetAt 2 3] ++ armHead ++
        [resetAt 1 3])).map State.entries = some [0, 2, 1] := by decide +kernel
  obtain ⟨s, hs, he⟩ := Option.map_eq_some_iff.mp hrun
  have hr : (system nanoseconds).Reachable s :=
    System.exec_reachable (.init State.start_initial) hs
  have h := callout_queue_sorted_list nanoseconds hr
  exact ⟨s, hr, he, h.2.2.2.2.1, h.2.2.1⟩

end Xhyve.Vmm.Callouts
