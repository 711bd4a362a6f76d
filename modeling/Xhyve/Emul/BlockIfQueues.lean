import Xhyve.Emul.BlockIf
import Xhyve.Lib.WaitQueue

/-!
# No request is stranded

Every element is on one queue, with the status of that queue, and an element that is held back
waits for one that is outstanding. So whenever the worker finds nothing to take and nothing is
being processed, nothing is pending, and a worker asleep has nothing to wake up for.

The wake-up in `blockif_complete` reads the offset of a held-back request from the caller's
memory again. The result therefore needs that the offset of a pending request is left alone;
`pci_ahci.c` takes its requests from a free list, while `pci_virtio_block.c` fills in the one
the guest's descriptor index selects.
-/

namespace Xhyve.Emul.BlockIf

open Xhyve.Lib

/-- The end an element has, in the terms of `elemOffset`. -/
def elemEnd (reqs : Nat → BlockifElem) (be : Nat) : Option (BitVec 64) := some (reqs be).beBlock

def Blocked (reqs : Nat → BlockifElem) (be : Nat) : Prop := (reqs be).beStatus = .block

/-- The statuses of the elements on the three queues. -/
structure Statuses (bc : BlockifCtxt) : Prop where
  free : ∀ be ∈ bc.bcFreeq, (bc.bcReqs be).beStatus = .free
  pend : ∀ be ∈ bc.bcPendq, (bc.bcReqs be).beStatus = .pend ∨ (bc.bcReqs be).beStatus = .block
  busy : ∀ be ∈ bc.bcBusyq, (bc.bcReqs be).beStatus = .busy ∨ (bc.bcReqs be).beStatus = .done

/-- What holds whenever `bc_mtx` is free. -/
structure QueueInv (bc : BlockifCtxt) (req : Requests) : Prop where
  once : (bc.bcFreeq ++ bc.bcPendq ++ bc.bcBusyq).Perm (List.range blockifMaxreq)
  status : Statuses bc
  hasReq : ∀ be ∈ bc.bcPendq, (bc.bcReqs be).beReq ≠ none
  waits : Waits (elemEnd bc.bcReqs) (elemOffset bc.bcReqs req) (Blocked bc.bcReqs)
    bc.bcBusyq bc.bcPendq

/-- The same inside `blockif_complete`, where one element is on no queue. -/
structure Detached (bc : BlockifCtxt) (req : Requests) (be : Nat) : Prop where
  once : (be :: (bc.bcFreeq ++ bc.bcPendq ++ bc.bcBusyq)).Perm (List.range blockifMaxreq)
  status : Statuses bc
  hasReq : ∀ i ∈ bc.bcPendq, (bc.bcReqs i).beReq ≠ none
  waits : Waits (elemEnd bc.bcReqs) (elemOffset bc.bcReqs req) (Blocked bc.bcReqs)
    (be :: bc.bcBusyq) bc.bcPendq

/-! ## One operation on the queues -/

section Operations
variable {bc bc' : BlockifCtxt} {req : Requests} {be breq : Nat}

/-- The status of a queue keeps the elements of the others out. -/
theorem Statuses.not_pend (h : Statuses bc) (hbe : be ∈ bc.bcFreeq ∨ be ∈ bc.bcBusyq) :
    be ∉ bc.bcPendq := by
  intro hp
  have hpend := h.pend be hp
  rcases hbe with hf | hb
  · simp [h.free be hf] at hpend
  · rcases h.busy be hb with hs | hs <;> simp [hs] at hpend

theorem Statuses.not_free (h : Statuses bc) (hbe : be ∈ bc.bcPendq ∨ be ∈ bc.bcBusyq) :
    be ∉ bc.bcFreeq := by
  intro hf
  rcases hbe with hp | hb
  · exact h.not_pend (.inl hf) hp
  · have hbusy := h.busy be hb
    simp [h.free be hf] at hbusy

theorem findBlocker_none_iff {off : BitVec 64} :
    findBlocker bc off = none ↔
      ∀ i, i ∈ bc.bcBusyq ∨ i ∈ bc.bcPendq → (bc.bcReqs i).beBlock ≠ off := by
  simp only [findBlocker, Option.or_eq_none_iff, List.find?_eq_none, decide_eq_true_eq]
  constructor
  · rintro ⟨hp, hb⟩ i (hi | hi)
    · exact hb i hi
    · exact hp i hi
  · intro h
    exact ⟨fun i hi => h i (.inr hi), fun i hi => h i (.inl hi)⟩

/-- The caller fills in a request that no pending element points to, or leaves its offset. -/
theorem QueueInv.refill (h : QueueInv bc req) {br : BlockifReq}
    (hbr : ∀ i ∈ bc.bcPendq, (bc.bcReqs i).beReq = some breq → br.brOffset = (req breq).brOffset) :
    QueueInv bc (Function.update req breq br) where
  once := h.once
  status := h.status
  hasReq := h.hasReq
  waits := by
    refine h.waits.congr (fun _ _ => rfl) fun i hi => ⟨rfl, ?_, id⟩
    unfold elemOffset
    cases hreq : (bc.bcReqs i).beReq with
    | none => rfl
    | some b =>
      by_cases hb : b = breq
      · subst hb
        simp [hbr i hi hreq]
      · simp [Function.update_of_ne hb]

section Enqueue
variable {freeq : List Nat} {elem : BlockifElem}

theorem insertElem_ne {i : Nat} (hi : i ≠ be) :
    (insertElem bc be freeq elem).bcReqs i = bc.bcReqs i := Function.update_of_ne hi ..

theorem insertElem_same : (insertElem bc be freeq elem).bcReqs be = elem :=
  Function.update_self ..

/-- A new element is pending, and held back only for one that is outstanding. -/
theorem QueueInv.insert (h : QueueInv bc req) (elem : BlockifElem)
    (hq : bc.bcFreeq = be :: freeq) (hreq : elem.beReq = some breq)
    (hst : elem.beStatus = .pend ∨ elem.beStatus = .block)
    (hblock : elem.beStatus = .block →
      ∃ i, (i ∈ bc.bcBusyq ∨ i ∈ bc.bcPendq) ∧ (bc.bcReqs i).beBlock = (req breq).brOffset) :
    QueueInv (insertElem bc be freeq elem) req ∧
      ∀ i ∈ bc.bcBusyq, (insertElem bc be freeq elem).bcReqs i = bc.bcReqs i := by
  have hmem : be ∈ bc.bcFreeq := by simp [hq]
  have hne : ∀ i, i ∈ bc.bcBusyq ∨ i ∈ bc.bcPendq → i ≠ be := by
    rintro i hi rfl
    exact h.status.not_free hi.symm hmem
  have hfreeq : ∀ i ∈ freeq, i ≠ be := by
    rintro i hi rfl
    have hnd := h.once.nodup_iff.mpr List.nodup_range
    simp [hq, hi] at hnd
  refine ⟨⟨?_, ⟨fun i hi => ?_, fun i hi => ?_, fun i hi => ?_⟩, fun i hi => ?_, ?_⟩,
    fun i hi => insertElem_ne (hne i (.inl hi))⟩
  · refine List.Perm.trans (List.perm_iff_count.mpr fun a => ?_) h.once
    simp only [insertElem, hq, List.count_append, List.count_cons, List.count_nil]
    omega
  · rw [insertElem_ne (hfreeq i hi)]
    exact h.status.free i (hq ▸ List.mem_cons_of_mem _ hi)
  · rcases List.mem_append.mp hi with hi | hi
    · rw [insertElem_ne (hne i (.inr hi))]
      exact h.status.pend i hi
    · obtain rfl := List.mem_singleton.mp hi
      rw [insertElem_same]
      exact hst
  · rw [insertElem_ne (hne i (.inl hi))]
    exact h.status.busy i hi
  · rcases List.mem_append.mp hi with hi | hi
    · rw [insertElem_ne (hne i (.inr hi))]
      exact h.hasReq i hi
    · obtain rfl := List.mem_singleton.mp hi
      rw [insertElem_same, hreq]
      simp
  · refine Waits.append (h.waits.congr (fun i hi => ?_) fun i hi => ?_) fun hb => ?_
    · rw [elemEnd, elemEnd, insertElem_ne (hne i (.inl hi))]
    · simp [elemEnd, elemOffset, Blocked, insertElem_ne (hne i (.inr hi))]
    · rw [Blocked, insertElem_same] at hb
      obtain ⟨i, hi, hend⟩ := hblock hb
      refine ⟨i, hi, ?_⟩
      simp [elemEnd, elemOffset, insertElem_ne (hne i hi), insertElem_same, hreq, hend]

/-- With nothing outstanding a request is not held back, and the worker is signalled. -/
theorem QueueInv.enqueue (h : QueueInv bc req) (breq : Nat) (op : Blockop)
    (hfree : bc.bcFreeq ≠ []) :
    ∃ sig bc', blockifEnqueue bc req breq op = some (sig, bc') ∧ QueueInv bc' req ∧
      bc'.bcBusyq = bc.bcBusyq ∧ (∀ i ∈ bc.bcBusyq, bc'.bcReqs i = bc.bcReqs i) ∧
      (bc.bcBusyq = [] → bc.bcPendq = [] → sig = true) := by
  obtain ⟨be, freeq, hq⟩ := List.exists_cons_of_ne_nil hfree
  have hbe : (bc.bcReqs be).beStatus = .free := h.status.free be (by simp [hq])
  let elem (status : Blockstat) : BlockifElem :=
    { bc.bcReqs be with
      beReq := some breq, beOp := op, beStatus := status, beBlock := blockEnd (req breq) op }
  by_cases hnone : findBlocker bc (req breq).brOffset = none
  · obtain ⟨hinv, hbusy⟩ := h.insert (elem .pend) hq rfl (.inl rfl) fun hb => by cases hb
    refine ⟨true, _, ?_, hinv, rfl, hbusy, fun _ _ => rfl⟩
    simp [blockifEnqueue, hq, hbe, hnone, elem]
  · have hsome := hnone
    rw [findBlocker_none_iff] at hsome
    push Not at hsome
    obtain ⟨hinv, hbusy⟩ := h.insert (elem .block) hq rfl (.inr rfl) fun _ => hsome
    refine ⟨false, _, ?_, hinv, rfl, hbusy, fun hb hp => ?_⟩
    · simp [blockifEnqueue, hq, hbe, hnone, elem]
    · exact absurd (by simp [findBlocker, hb, hp]) hnone

end Enqueue

/-- The search passes over elements that are held back, and ends at one that is not. -/
theorem firstPend_cases {reqs : Nat → BlockifElem} {pendq : List Nat}
    (h : ∀ i ∈ pendq, (reqs i).beStatus = .pend ∨ (reqs i).beStatus = .block) :
    (firstPend reqs pendq = some none ∧ ∀ i ∈ pendq, Blocked reqs i) ∨
    ∃ be ∈ pendq, firstPend reqs pendq = some (some be) ∧ (reqs be).beStatus = .pend := by
  induction pendq with
  | nil => exact .inl ⟨rfl, by simp⟩
  | cons i pendq ih =>
    rcases h i (List.mem_cons_self ..) with hi | hi
    · exact .inr ⟨i, List.mem_cons_self .., by simp [firstPend, hi], hi⟩
    · have hskip : firstPend reqs (i :: pendq) = firstPend reqs pendq := by
        simp [firstPend, hi]
      rw [hskip]
      rcases ih fun j hj => h j (List.mem_cons_of_mem _ hj) with ⟨hnone, hall⟩ | ⟨be, hbe, hrest⟩
      · refine .inl ⟨hnone, fun j hj => ?_⟩
        rcases List.mem_cons.mp hj with rfl | hj
        · exact hi
        · exact hall j hj
      · exact .inr ⟨be, List.mem_cons_of_mem _ hbe, hrest⟩

/-- With nothing busy, the element at the front can be taken. -/
theorem QueueInv.front (h : QueueInv bc req) (hbusy : bc.bcBusyq = []) (hpend : bc.bcPendq ≠ []) :
    ∃ be ∈ bc.bcPendq, ¬ Blocked bc.bcReqs be := by
  obtain ⟨be, pendq, hq⟩ := List.exists_cons_of_ne_nil hpend
  have hw := h.waits
  rw [hbusy, hq] at hw
  exact ⟨be, by simp [hq], hw.front⟩

/-! ### An element on its way from one queue to another -/

section Detached

theorem QueueInv.detach_pend (h : QueueInv bc req) (hbe : be ∈ bc.bcPendq) :
    Detached { bc with bcPendq := bc.bcPendq.erase be } req be := by
  refine ⟨?_, ⟨h.status.free, fun i hi => h.status.pend i (List.mem_of_mem_erase hi),
    h.status.busy⟩, fun i hi => h.hasReq i (List.mem_of_mem_erase hi), ?_⟩
  · have hcount := List.perm_iff_count.mp (List.perm_cons_erase hbe)
    refine List.Perm.trans (List.perm_iff_count.mpr fun a => ?_) h.once
    have hca := hcount a
    simp only [List.count_append, List.count_cons] at hca ⊢
    omega
  · obtain ⟨before, after, -, hsplit, herase⟩ := List.exists_erase_eq hbe
    have hw := h.waits
    rw [hsplit] at hw
    show Waits _ _ _ (be :: bc.bcBusyq) (bc.bcPendq.erase be)
    rw [herase]
    exact hw.start

theorem QueueInv.detach_busy (h : QueueInv bc req) (hbe : be ∈ bc.bcBusyq) :
    Detached { bc with bcBusyq := bc.bcBusyq.erase be } req be := by
  refine ⟨?_, ⟨h.status.free, h.status.pend, fun i hi =>
    h.status.busy i (List.mem_of_mem_erase hi)⟩, h.hasReq, h.waits.mono fun y hy => ?_⟩
  · have hcount := List.perm_iff_count.mp (List.perm_cons_erase hbe)
    refine List.Perm.trans (List.perm_iff_count.mpr fun a => ?_) h.once
    have hca := hcount a
    simp only [List.count_append, List.count_cons] at hca ⊢
    omega
  · by_cases hy' : y = be
    · exact hy' ▸ List.mem_cons_self ..
    · exact List.mem_cons_of_mem _ ((List.mem_erase_of_ne hy').mpr hy)

theorem Detached.ne (h : Detached bc req be) {i : Nat}
    (hi : i ∈ bc.bcFreeq ∨ i ∈ bc.bcPendq ∨ i ∈ bc.bcBusyq) : i ≠ be := by
  rintro rfl
  have hnd := h.once.nodup_iff.mpr List.nodup_range
  refine (List.nodup_cons.mp hnd).1 ?_
  simpa [or_assoc] using hi

end Detached

section Take
variable {t : Nat}

theorem takeElem_ne {i : Nat} (hi : i ≠ be) : (takeElem bc be t).bcReqs i = bc.bcReqs i :=
  Function.update_of_ne hi ..

theorem takeElem_same :
    (takeElem bc be t).bcReqs be = { bc.bcReqs be with beStatus := .busy, beTid := t } :=
  Function.update_self ..

/-- A started element stays outstanding for those that wait for it. -/
theorem QueueInv.take (h : QueueInv bc req) (hbe : be ∈ bc.bcPendq) :
    QueueInv (takeElem bc be t) req := by
  have hd := h.detach_pend hbe
  refine ⟨?_, ⟨fun i hi => ?_, fun i hi => ?_, fun i hi => ?_⟩, fun i hi => ?_, ?_⟩
  · refine List.Perm.trans (List.perm_iff_count.mpr fun a => ?_) hd.once
    simp only [takeElem, List.count_append, List.count_cons, List.count_nil]
    omega
  · rw [takeElem_ne (hd.ne (.inl hi))]
    exact hd.status.free i hi
  · rw [takeElem_ne (hd.ne (.inr (.inl hi)))]
    exact hd.status.pend i hi
  · rcases List.mem_append.mp hi with hi | hi
    · rw [takeElem_ne (hd.ne (.inr (.inr hi)))]
      exact hd.status.busy i hi
    · obtain rfl := List.mem_singleton.mp hi
      rw [takeElem_same]
      exact .inl rfl
  · rw [takeElem_ne (hd.ne (.inr (.inl hi)))]
    exact hd.hasReq i hi
  · have hend : ∀ i, elemEnd (takeElem bc be t).bcReqs i = elemEnd bc.bcReqs i := by
      intro i
      by_cases hi : i = be
      · rw [hi, elemEnd, elemEnd, takeElem_same]
      · rw [elemEnd, elemEnd, takeElem_ne hi]
    have hw : Waits (elemEnd bc.bcReqs) (elemOffset bc.bcReqs req) (Blocked bc.bcReqs)
        (bc.bcBusyq ++ [be]) (bc.bcPendq.erase be) :=
      hd.waits.mono fun y hy => by simpa [or_comm] using hy
    refine hw.congr (fun i _ => hend i) fun i hi => ⟨hend i, ?_⟩
    simp [elemOffset, Blocked, takeElem_ne (hd.ne (.inr (.inl hi)))]

/-- The worker takes an element that is not held back, or every pending element is. -/
theorem QueueInv.dequeue (h : QueueInv bc req) (t : Nat) :
    (blockifDequeue bc t = some (none, bc) ∧ (bc.bcBusyq = [] → bc.bcPendq = [])) ∨
    ∃ be ∈ bc.bcPendq, blockifDequeue bc t = some (some be, takeElem bc be t) := by
  rcases firstPend_cases h.status.pend with ⟨hnone, hall⟩ | ⟨be, hbe, hfirst, -⟩
  · refine .inl ⟨by simp [blockifDequeue, hnone], fun hbusy => ?_⟩
    by_contra hpend
    obtain ⟨be, hbe, hfront⟩ := h.front hbusy hpend
    exact hfront (hall be hbe)
  · exact .inr ⟨be, hbe, by simp [blockifDequeue, hfirst]⟩

end Take

section Complete

@[simp] theorem wake_beBlock (off : BitVec 64) (i : Nat) :
    (wake bc req off i).beBlock = (bc.bcReqs i).beBlock := by
  unfold wake
  split <;> rfl

@[simp] theorem wake_beReq (off : BitVec 64) (i : Nat) :
    (wake bc req off i).beReq = (bc.bcReqs i).beReq := by
  unfold wake
  split <;> rfl

/-- Only pending elements are let go. -/
theorem wake_of_not_pend {off : BitVec 64} {i : Nat} (hi : i ∉ bc.bcPendq) :
    wake bc req off i = bc.bcReqs i := if_neg fun hc => hi hc.1

theorem wake_status (req : Requests) (off : BitVec 64) {i : Nat} (hi : i ∈ bc.bcPendq) :
    (wake bc req off i).beStatus = .pend ∨
      (wake bc req off i).beStatus = (bc.bcReqs i).beStatus ∧
        elemOffset bc.bcReqs req i ≠ some off := by
  unfold wake
  by_cases hoff : elemOffset bc.bcReqs req i = some off
  · exact .inl (by rw [if_pos ⟨hi, hoff⟩])
  · exact .inr ⟨by rw [if_neg fun hc => hoff hc.2], hoff⟩

/-- Completion lets go of everything that waited for the element, so it can leave. -/
theorem Detached.release (h : Detached bc req be) : QueueInv (releaseElem bc req be) req := by
  have hreqs : ∀ i, i ≠ be →
      (releaseElem bc req be).bcReqs i = wake bc req (bc.bcReqs be).beBlock i :=
    fun i hi => Function.update_of_ne hi ..
  have hend : ∀ i, elemEnd (releaseElem bc req be).bcReqs i = elemEnd bc.bcReqs i := by
    intro i
    by_cases hi : i = be
    · subst hi
      simp [elemEnd, releaseElem]
    · simp [elemEnd, hreqs i hi]
  refine ⟨?_, ⟨fun i hi => ?_, fun i hi => ?_, fun i hi => ?_⟩, fun i hi => ?_, ?_⟩
  · show (bc.bcFreeq ++ [be] ++ bc.bcPendq ++ bc.bcBusyq).Perm _
    refine List.Perm.trans (List.perm_iff_count.mpr fun a => ?_) h.once
    simp only [List.count_append, List.count_cons, List.count_nil]
    omega
  · rcases List.mem_append.mp hi with hi | hi
    · rw [hreqs i (h.ne (.inl hi)), wake_of_not_pend (h.status.not_pend (.inl hi))]
      exact h.status.free i hi
    · obtain rfl := List.mem_singleton.mp hi
      simp [releaseElem]
  · have hi' : i ∈ bc.bcPendq := hi
    rw [hreqs i (h.ne (.inr (.inl hi)))]
    rcases wake_status req (bc.bcReqs be).beBlock hi' with hs | ⟨hs, -⟩
    · exact .inl hs
    · rw [hs]
      exact h.status.pend i hi
  · rw [hreqs i (h.ne (.inr (.inr hi))), wake_of_not_pend (h.status.not_pend (.inr hi))]
    exact h.status.busy i hi
  · rw [hreqs i (h.ne (.inr (.inl hi))), wake_beReq]
    exact h.hasReq i hi
  · -- whatever is still held back does not wait for the element that leaves
    have hw : Waits (elemEnd bc.bcReqs) (elemOffset bc.bcReqs req)
        (Blocked (releaseElem bc req be).bcReqs) bc.bcBusyq bc.bcPendq := by
      refine h.waits.finish (fun y hy => (List.mem_cons.mp hy).symm) fun i hi hb => ?_
      have hb' : (wake bc req (bc.bcReqs be).beBlock i).beStatus = .block := by
        rw [← hreqs i (h.ne (.inr (.inl hi)))]
        exact hb
      rcases wake_status req (bc.bcReqs be).beBlock hi with hs | ⟨hs, hoff⟩
      · rw [hs] at hb'
        cases hb'
      · rw [hs] at hb'
        exact ⟨hb', hoff⟩
    refine hw.congr (fun i _ => hend i) fun i hi => ⟨hend i, ?_, id⟩
    simp [elemOffset, hreqs i (h.ne (.inr (.inl hi)))]

/-- The worker completes the element it has been busy with. -/
theorem QueueInv.complete_busy (h : QueueInv bc req) (hbe : be ∈ bc.bcBusyq) :
    QueueInv (blockifComplete bc req be) req ∧
      (blockifComplete bc req be).bcBusyq = bc.bcBusyq.erase be ∧
      (blockifComplete bc req be).bcPendq = bc.bcPendq := by
  have hrem : removeElem bc be = { bc with bcBusyq := bc.bcBusyq.erase be } :=
    if_pos (h.status.busy be hbe).symm
  rw [blockifComplete, hrem]
  exact ⟨(h.detach_busy hbe).release, rfl, rfl⟩

/-- A cancellation completes an element that has not been started. -/
theorem QueueInv.complete_pend (h : QueueInv bc req) (hbe : be ∈ bc.bcPendq) :
    QueueInv (blockifComplete bc req be) req ∧
      (blockifComplete bc req be).bcBusyq = bc.bcBusyq ∧
      ∀ i ∈ bc.bcBusyq, (blockifComplete bc req be).bcReqs i = bc.bcReqs i := by
  have hrem : removeElem bc be = { bc with bcPendq := bc.bcPendq.erase be } := by
    refine if_neg ?_
    rcases h.status.pend be hbe with hs | hs <;> simp [hs]
  rw [blockifComplete, hrem]
  refine ⟨(h.detach_pend hbe).release, rfl, fun i hi => ?_⟩
  have hpend : i ∉ bc.bcPendq := h.status.not_pend (.inr hi)
  have hne : i ≠ be := fun heq => hpend (heq ▸ hbe)
  rw [releaseElem]
  simp only [Function.update_of_ne hne]
  exact wake_of_not_pend fun hp => hpend (List.mem_of_mem_erase hp)

end Complete

/-- `blockif_proc` marks the element it has been given. -/
theorem QueueInv.markDone (h : QueueInv bc req) (hbe : be ∈ bc.bcBusyq) :
    QueueInv { bc with
      bcReqs := Function.update bc.bcReqs be { bc.bcReqs be with beStatus := .done } } req := by
  have hne : ∀ i, i ∈ bc.bcFreeq ∨ i ∈ bc.bcPendq → i ≠ be := by
    rintro i (hi | hi) rfl
    · exact h.status.not_free (.inr hbe) hi
    · exact h.status.not_pend (.inr hbe) hi
  refine ⟨h.once, ⟨fun i hi => ?_, fun i hi => ?_, fun i hi => ?_⟩, fun i hi => ?_, ?_⟩
  · simp only [Function.update_of_ne (hne i (.inl hi))]
    exact h.status.free i hi
  · simp only [Function.update_of_ne (hne i (.inr hi))]
    exact h.status.pend i hi
  · by_cases hi' : i = be
    · simp [hi']
    · simp only [Function.update_of_ne hi']
      exact h.status.busy i hi
  · simp only [Function.update_of_ne (hne i (.inr hi))]
    exact h.hasReq i hi
  · refine h.waits.congr (fun i _ => ?_) fun i hi => ?_
    · by_cases hi' : i = be
      · simp [elemEnd, hi']
      · simp [elemEnd, Function.update_of_ne hi']
    · simp [elemEnd, elemOffset, Blocked, Function.update_of_ne (hne i (.inr hi))]

end Operations

/-! ## Callers, worker and cancellations -/

/-- The queues as the place of the worker in its loop has them. -/
def WorkerInv (bc : BlockifCtxt) : Worker → Prop
  | .ready => bc.bcBusyq = []
  | .proc be => bc.bcBusyq = [be] ∧ (bc.bcReqs be).beStatus = .busy
  | .finish be => bc.bcBusyq = [be] ∧ (bc.bcReqs be).beStatus = .done
  | .waiting => bc.bcBusyq = [] ∧ bc.bcPendq = []
  | .exited => bc.bcBusyq = [] ∧ bc.bcPendq = [] ∧ bc.bcClosing = true

structure Inv (s : State) : Prop where
  queues : QueueInv s.bc s.req
  worker : WorkerInv s.bc s.worker
  cancelling : ∀ be ∈ s.cancelling, be ∈ s.bc.bcBusyq

/-- A request that a pending element points to keeps its offset. -/
def Untouched (s : State) : Op → Prop
  | .fill breq br => ∀ be ∈ s.bc.bcPendq, (s.bc.bcReqs be).beReq = some breq →
      br.brOffset = (s.req breq).brOffset
  | _ => True

instance (s : State) : (op : Op) → Decidable (Untouched s op)
  | .fill .. => inferInstanceAs (Decidable (∀ be ∈ _, _ → _))
  | .request .. | .cancel _ | .cancelReturn | .dequeue | .procDone | .complete | .wakeup | .close =>
    inferInstanceAs (Decidable True)

section Steps
variable {s s' : State} {op : Op} {err : Errno}

theorem inv_open (btid : Nat) (req : Requests) : Inv (blockifOpen btid req) where
  queues := by
    refine ⟨?_, ⟨fun _ _ => rfl, by simp [blockifOpen], by simp [blockifOpen]⟩,
      by simp [blockifOpen], trivial⟩
    simp [blockifOpen]
  worker := rfl
  cancelling := by simp [blockifOpen]

/-- What the worker is at depends on the busy queue, and asleep also on the pending one. -/
theorem WorkerInv.congr {bc bc' : BlockifCtxt} {w : Worker} (h : WorkerInv bc w)
    (hbusy : bc'.bcBusyq = bc.bcBusyq) (hreqs : ∀ i ∈ bc.bcBusyq, bc'.bcReqs i = bc.bcReqs i)
    (hawake : w ≠ .waiting ∧ w ≠ .exited) : WorkerInv bc' w := by
  cases w with
  | ready => exact hbusy.trans h
  | proc be =>
    have hbe : bc'.bcReqs be = bc.bcReqs be := hreqs be (by simp [h.1])
    exact ⟨hbusy.trans h.1, hbe ▸ h.2⟩
  | finish be =>
    have hbe : bc'.bcReqs be = bc.bcReqs be := hreqs be (by simp [h.1])
    exact ⟨hbusy.trans h.1, hbe ▸ h.2⟩
  | waiting => exact absurd rfl hawake.1
  | exited => exact absurd rfl hawake.2

theorem Inv.request (h : Inv s) (hopen : s.bc.bcClosing = false) (bop : Blockop) (breq : Nat) :
    ∃ err s', step s (.request bop breq) = some (err, s') ∧ Inv s' := by
  have hlive : s.worker ≠ .exited := by
    intro hw
    have hinv := h.worker
    rw [hw] at hinv
    rw [hinv.2.2] at hopen
    cases hopen
  unfold step blockifRequest
  by_cases hfree : s.bc.bcFreeq = []
  · simp only [hfree, ne_eq, not_true_eq_false, if_false, Option.map_some]
    exact ⟨_, _, rfl, h⟩
  · obtain ⟨sig, bc', henq, hq', hbusy, hreqs, hsig⟩ :=
      h.queues.enqueue breq bop hfree
    simp only [ne_eq, hfree, not_false_eq_true, if_true, henq, Option.map_some]
    refine ⟨_, _, rfl, hq', ?_, fun be hbe => hbusy ▸ h.cancelling be hbe⟩
    have hw := h.worker
    by_cases hwait : s.worker = .waiting
    · -- asleep there is nothing outstanding, so the request is not held back
      rw [hwait] at hw
      rw [hsig hw.1 hw.2, hwait]
      exact hbusy.trans hw.1
    · have hsame : s.worker.signal = s.worker := by
        cases hws : s.worker <;> simp_all [Worker.signal]
      simp only [hsame, ite_self]
      exact hw.congr hbusy hreqs ⟨hwait, hlive⟩

theorem Inv.cancel (h : Inv s) (breq : Nat) : Inv (blockifCancel s breq).2 := by
  unfold blockifCancel
  split
  · rename_i be hfind
    have hbe : be ∈ s.bc.bcPendq := List.mem_of_find?_eq_some hfind
    obtain ⟨hq, hbusy, hreqs⟩ := h.queues.complete_pend hbe
    refine ⟨hq, h.worker.congr hbusy hreqs ?_, fun i hi => hbusy ▸ h.cancelling i hi⟩
    have hw := h.worker
    constructor <;> intro heq <;> rw [heq] at hw
    · simp [hw.2] at hbe
    · simp [hw.2.1] at hbe
  · split
    · exact h
    · rename_i be hfind
      have hbe : be ∈ s.bc.bcBusyq := List.mem_of_find?_eq_some hfind
      split
      · refine ⟨h.queues, h.worker, fun i hi => ?_⟩
        obtain rfl := Option.some.inj hi
        exact hbe
      · exact h

theorem Inv.dequeue (h : Inv s) (hready : s.worker = .ready) (hnone : s.cancelling = none) :
    ∃ s', workerDequeue s = some s' ∧ Inv s' ∧
      (s.bc.bcPendq ≠ [] → ∃ be, s'.worker = .proc be ∧ s'.cancelling = none ∧
        s'.bc.bcPendq.length < s.bc.bcPendq.length) := by
  have hbusy : s.bc.bcBusyq = [] := by
    have hw := h.worker
    rw [hready] at hw
    exact hw
  have hcancel : ∀ i ∈ s.cancelling, i ∈ s.bc.bcBusyq := h.cancelling
  unfold workerDequeue
  rcases h.queues.dequeue s.bc.bcBtid with ⟨hdeq, hempty⟩ | ⟨be, hbe, hdeq⟩
  · have hpend := hempty hbusy
    rw [hdeq]
    refine ⟨_, rfl, ⟨h.queues, ?_, hcancel⟩, fun hne => absurd hpend hne⟩
    simp only
    split
    · rename_i hclosing
      exact ⟨hbusy, hpend, hclosing⟩
    · exact ⟨hbusy, hpend⟩
  · rw [hdeq]
    refine ⟨_, rfl, ⟨h.queues.take hbe, ⟨?_, ?_⟩, ?_⟩, fun _ => ⟨be, rfl, hnone, ?_⟩⟩
    · show s.bc.bcBusyq ++ [be] = [be]
      rw [hbusy, List.nil_append]
    · simp only [takeElem_same]
    · intro i hi
      simp only [hnone] at hi
      cases hi
    · show (s.bc.bcPendq.erase be).length < _
      rw [List.length_erase_of_mem hbe]
      have := List.length_pos_of_mem hbe
      omega

theorem Inv.procDone (h : Inv s) {be : Nat} (hproc : s.worker = .proc be) :
    Inv { s with
      bc := { s.bc with
        bcReqs := Function.update s.bc.bcReqs be { s.bc.bcReqs be with beStatus := .done } }
      worker := .finish be } := by
  have hw := h.worker
  rw [hproc] at hw
  exact ⟨h.queues.markDone (by simp [hw.1]), ⟨hw.1, by simp⟩, h.cancelling⟩

theorem Inv.complete (h : Inv s) {be : Nat} (hfinish : s.worker = .finish be)
    (hnone : s.cancelling = none) :
    Inv { s with bc := blockifComplete s.bc s.req be, worker := .ready } ∧
      (blockifComplete s.bc s.req be).bcPendq = s.bc.bcPendq := by
  have hw := h.worker
  rw [hfinish] at hw
  have hbe : be ∈ s.bc.bcBusyq := by simp [hw.1]
  obtain ⟨hq, hbusy, hpend⟩ := h.queues.complete_busy hbe
  refine ⟨⟨hq, ?_, fun i hi => ?_⟩, hpend⟩
  · show (blockifComplete s.bc s.req be).bcBusyq = []
    rw [hbusy, hw.1, List.erase_cons_head]
  · simp only [hnone] at hi
    cases hi

theorem Inv.signal {closing : Bool} (h : Inv s) (hopen : s.bc.bcClosing = false) :
    Inv { s with bc := { s.bc with bcClosing := closing }, worker := s.worker.signal } := by
  refine ⟨⟨h.queues.once, ⟨h.queues.status.free, h.queues.status.pend, h.queues.status.busy⟩,
    h.queues.hasReq, h.queues.waits⟩, ?_, h.cancelling⟩
  have hw := h.worker
  cases hworker : s.worker with
  | ready => rw [hworker] at hw; exact hw
  | proc be => rw [hworker] at hw; exact hw
  | finish be => rw [hworker] at hw; exact hw
  | waiting => rw [hworker] at hw; exact hw.1
  | exited =>
    rw [hworker] at hw
    rw [hw.2.2] at hopen
    cases hopen

/-- Every step that can be taken succeeds and keeps the invariant. -/
theorem Inv.step_ok (h : Inv s) (hadm : admissible s op = true) (hun : Untouched s op) :
    ∃ err s', step s op = some (err, s') ∧ Inv s' := by
  cases op with
  | fill breq br => exact ⟨_, _, rfl, h.queues.refill hun, h.worker, h.cancelling⟩
  | request bop breq =>
    simp only [admissible, decide_eq_true_eq] at hadm
    exact h.request hadm.2 bop breq
  | cancel breq => exact ⟨_, _, rfl, h.cancel breq⟩
  | cancelReturn => exact ⟨_, _, rfl, h.queues, h.worker, by simp⟩
  | dequeue =>
    simp only [admissible, decide_eq_true_eq] at hadm
    obtain ⟨s', hdeq, hinv, -⟩ := h.dequeue hadm.1 hadm.2
    exact ⟨.ok, s', by simp [step, hdeq], hinv⟩
  | procDone =>
    simp only [admissible] at hadm
    split at hadm
    · rename_i be hproc
      exact ⟨.ok, _, by simp only [step, hproc], h.procDone hproc⟩
    · cases hadm
  | complete =>
    simp only [admissible] at hadm
    split at hadm
    · rename_i be hfinish
      refine ⟨.ok, _, by simp only [step, hfinish], (h.complete hfinish ?_).1⟩
      simpa using hadm
    · cases hadm
  | wakeup =>
    simp only [admissible, decide_eq_true_eq] at hadm
    have hw := h.worker
    rw [hadm] at hw
    exact ⟨_, _, rfl, h.queues, hw.1, h.cancelling⟩
  | close =>
    simp only [admissible, decide_eq_true_eq] at hadm
    exact ⟨_, _, rfl, h.signal hadm.2⟩

theorem next_eq_some (h : next s op = some s') :
    admissible s op = true ∧ ∃ err, step s op = some (err, s') := by
  unfold next at h
  split at h
  · rename_i hadm
    obtain ⟨⟨err, t⟩, hstep, rfl⟩ := Option.map_eq_some_iff.mp h
    exact ⟨hadm, err, hstep⟩
  · cases h

theorem Inv.preserved (h : Inv s) (hun : Untouched s op) (hs : next s op = some s') : Inv s' := by
  obtain ⟨hadm, err, hstep⟩ := next_eq_some hs
  obtain ⟨err', t, hstep', hinv⟩ := h.step_ok hadm hun
  rw [hstep] at hstep'
  cases hstep'
  exact hinv

theorem inv_reachable (hr : (system.restrict Untouched).Reachable s) : Inv s := by
  have hind : (system.restrict Untouched).Inductive Inv := by
    constructor
    · rintro s ⟨btid, req, rfl⟩
      exact inv_open btid req
    · rintro s op s' h ⟨hun, hs⟩
      exact h.preserved hun hs
  exact hind.reachable hr

end Steps

/-! ## The worker gets everything done -/

/-- Steps the worker has before it. -/
def work (s : State) : Nat :=
  4 * s.bc.bcPendq.length +
    (match s.worker with
      | .proc _ => 3
      | .finish _ => 2
      | _ => 0) +
    if s.cancelling = none then 0 else 1

section Drain
variable {s : State}

theorem next_of_step {op : Op} {err : Errno} {s' : State} (hadm : admissible s op = true)
    (hs : step s op = some (err, s')) : next s op = some s' := by
  simp [next, hadm, hs]

/-- As long as anything is outstanding the worker, or the cancellation it holds up, can go on. -/
theorem Inv.progress (h : Inv s) (hout : ¬ (s.bc.bcPendq = [] ∧ s.bc.bcBusyq = [])) :
    ∃ op, op.isWorker = true ∧ ∃ t, next s op = some t ∧ Inv t ∧ work t < work s := by
  have hw := h.worker
  cases hworker : s.worker with
  | ready =>
    rw [hworker] at hw
    have hbusy : s.bc.bcBusyq = [] := hw
    have hnone : s.cancelling = none := by
      rw [Option.eq_none_iff_forall_not_mem]
      intro be hbe
      have hmem := h.cancelling be hbe
      simp [hbusy] at hmem
    obtain ⟨t, hdeq, hinv, htake⟩ := h.dequeue hworker hnone
    obtain ⟨be, hproc, hnone', hlen⟩ := htake fun hp => hout ⟨hp, hbusy⟩
    refine ⟨.dequeue, rfl, t, next_of_step (by simp [admissible, hworker, hnone])
      (by simp only [step, hdeq, Option.map_some]; rfl), hinv, ?_⟩
    simp only [work, hworker, hproc, hnone, hnone', if_true]
    omega
  | proc be =>
    refine ⟨.procDone, rfl, _, next_of_step (by simp [admissible, hworker])
      (by simp only [step, hworker]; rfl), h.procDone hworker, ?_⟩
    simp only [work, hworker]
    omega
  | finish be =>
    rw [hworker] at hw
    cases hcancel : s.cancelling with
    | none =>
      obtain ⟨hinv, hpend⟩ := h.complete hworker hcancel
      refine ⟨.complete, rfl, _, next_of_step (by simp [admissible, hworker, hcancel])
        (by simp only [step, hworker]; rfl), hinv, ?_⟩
      simp only [work, hworker, hpend]
      omega
    | some i =>
      -- the element it waits for is the one that is done
      have hi : i = be := by
        have hmem := h.cancelling i (by simp [hcancel])
        simpa [hw.1] using hmem
      subst hi
      refine ⟨.cancelReturn, rfl, _, next_of_step (by simp [admissible, hcancel, hw.2]) rfl,
        ⟨h.queues, h.worker, by simp⟩, ?_⟩
      simp [work, hcancel]
  | waiting =>
    rw [hworker] at hw
    exact absurd ⟨hw.2, hw.1⟩ hout
  | exited =>
    rw [hworker] at hw
    exact absurd ⟨hw.2.1, hw.1⟩ hout

theorem Inv.drain (h : Inv s) :
    ∃ ops, (∀ op ∈ ops, op.isWorker = true) ∧ ∃ t, System.exec next s ops = some t ∧
      t.bc.bcPendq = [] ∧ t.bc.bcBusyq = [] := by
  obtain ⟨ops, hops, t, hexec, -, hdone⟩ := System.exists_exec_of_progress Inv
    (fun s => s.bc.bcPendq = [] ∧ s.bc.bcBusyq = []) (fun op : Op => op.isWorker = true) work
    (fun s hs hout => hs.progress hout) h
  exact ⟨ops, hops, t, hexec, hdone⟩

end Drain

/-- Every element on one queue with that queue's status, and everything held back waiting for
an element that is outstanding. -/
structure Queued (s : State) : Prop where
  once : (s.bc.bcFreeq ++ s.bc.bcPendq ++ s.bc.bcBusyq).Perm (List.range blockifMaxreq)
  status : Statuses s.bc
  blocked : ∀ before be after, s.bc.bcPendq = before ++ be :: after →
    (s.bc.bcReqs be).beStatus = .block →
    ∃ tbe, (tbe ∈ s.bc.bcBusyq ∨ tbe ∈ before) ∧
      elemOffset s.bc.bcReqs s.req be = some (s.bc.bcReqs tbe).beBlock

/-- With nothing busy, anything pending can be taken. -/
def Takes (s : State) : Prop :=
  s.bc.bcBusyq = [] → s.bc.bcPendq ≠ [] →
    ∃ be bc, blockifDequeue s.bc s.bc.bcBtid = some (some be, bc)

/-- In every run that leaves the offsets of pending requests alone. -/
theorem queued_of_untouched (s : State) (hr : (system.restrict Untouched).Reachable s) :
    Queued s ∧ Takes s ∧
    -- a worker asleep has nothing to do
    (s.worker = .waiting → s.bc.bcPendq = [] ∧ s.bc.bcBusyq = []) ∧
    -- the worker alone can complete all that is outstanding
    (∃ ops, (∀ op ∈ ops, op.isWorker = true) ∧ ∃ t, System.exec next s ops = some t ∧
      t.bc.bcPendq = [] ∧ t.bc.bcBusyq = []) ∧
    -- and no assertion fails
    ∀ op, admissible s op = true → Untouched s op → (step s op).isSome := by
  have h := inv_reachable hr
  refine ⟨⟨h.queues.once, h.queues.status, fun before be after hsplit hb => ?_⟩,
    fun hbusy hpend => ?_, fun hwait => ?_, h.drain, fun op hadm hun => ?_⟩
  · have hw := h.queues.waits
    rw [hsplit] at hw
    obtain ⟨tbe, hout, hend⟩ := hw.outstanding hb
    exact ⟨tbe, hout, hend.symm⟩
  · rcases h.queues.dequeue s.bc.bcBtid with ⟨-, hempty⟩ | ⟨be, -, hdeq⟩
    · exact absurd (hempty hbusy) hpend
    · exact ⟨be, _, hdeq⟩
  · have hw := h.worker
    rw [hwait] at hw
    exact ⟨hw.2, hw.1⟩
  · obtain ⟨err, t, hstep, -⟩ := h.step_ok hadm hun
    rw [hstep]
    rfl

/-- Two sequential writes: the second waits for the first, and the worker can complete both. -/
theorem queued_sequential_writes :
    ∃ s, System.exec (System.guarded Untouched next) (blockifOpen 1 fun _ => ⟨[], 0⟩)
        [.fill 1 ⟨[512], 0⟩, .request .write 1, .fill 2 ⟨[512], 512⟩, .request .write 2,
          .dequeue] = some s ∧
      (s.bc.bcReqs 63).beStatus = .block ∧ Queued s ∧
      ∃ ops, (∀ op ∈ ops, op.isWorker = true) ∧ ∃ t, System.exec next s ops = some t ∧
        t.bc.bcPendq = [] ∧ t.bc.bcBusyq = [] := by
  have hrun : ((System.exec (System.guarded Untouched next) (blockifOpen 1 fun _ => ⟨[], 0⟩)
      [.fill 1 ⟨[512], 0⟩, .request .write 1, .fill 2 ⟨[512], 512⟩, .request .write 2,
        .dequeue]).map fun s => (s.bc.bcReqs 63).beStatus) = some .block := by decide +kernel
  obtain ⟨s, hexec, hst⟩ := Option.map_eq_some_iff.mp hrun
  have hr : (system.restrict Untouched).Reachable s :=
    System.exec_reachable_guarded (.init ⟨1, _, rfl⟩) hexec
  obtain ⟨hq, -, -, hdrain, -⟩ := queued_of_untouched s hr
  exact ⟨s, hexec, hst, hq, hdrain⟩

/-- The second of two sequential writes is handed in again, at another place, while it waits
for the first. The first completes and finds nobody waiting: the element stays held back. -/
theorem stranded_by_reuse :
    ∃ s, System.exec next (blockifOpen 1 fun _ => ⟨[], 0⟩)
        [.fill 1 ⟨[512], 0⟩, .request .write 1, .fill 2 ⟨[512], 512⟩, .request .write 2,
          .fill 2 ⟨[512], 4096⟩, .request .write 2,
          .dequeue, .procDone, .complete, .dequeue, .procDone, .complete] = some s ∧
      s.bc.bcBusyq = [] ∧ s.bc.bcPendq = [63] ∧ ¬ Takes s ∧ ¬ Queued s := by
  have hrun : ((System.exec next (blockifOpen 1 fun _ => ⟨[], 0⟩)
      [.fill 1 ⟨[512], 0⟩, .request .write 1, .fill 2 ⟨[512], 512⟩, .request .write 2,
        .fill 2 ⟨[512], 4096⟩, .request .write 2,
        .dequeue, .procDone, .complete, .dequeue, .procDone, .complete]).map fun s =>
          (s.bc.bcBusyq, s.bc.bcPendq, (s.bc.bcReqs 63).beStatus)) =
      some ([], [63], .block) := by decide +kernel
  obtain ⟨s, hexec, hs⟩ := Option.map_eq_some_iff.mp hrun
  simp only [Prod.mk.injEq] at hs
  obtain ⟨hbusy, hpend, hst⟩ := hs
  refine ⟨s, hexec, hbusy, hpend, fun htakes => ?_, fun hq => ?_⟩
  · obtain ⟨be, bc, hdeq⟩ := htakes hbusy (by simp [hpend])
    simp [blockifDequeue, hpend, firstPend, hst] at hdeq
  · obtain ⟨tbe, hout, -⟩ := hq.blocked [] 63 [] hpend hst
    simp [hbusy] at hout

end Xhyve.Emul.BlockIf
