import Xhyve.Emul.VirtioBlockQueues

/-!
# Resetting the virtio block device

`pci_vtblk_reset` clears the queue and cancels nothing: a request that was handed to the block
interface before the reset is completed after it, through the ring pointers the queue has then.
Here the guest is free to write anything to its rings, to reset the device and to set the queue up
again, also without a reset. Resets are counted; an element remembers the count at which it was
handed in, and every completion is recorded with that count and the one it happened at.
-/

namespace Xhyve.Emul.VirtioBlock

open Xhyve.Lib
open Xhyve.Virtio (Proto VqueueInfo VringAvail VringUsed)
open Xhyve.Emul.BlockIf (BlockifCtxt Worker)

/-! ## The device with resets -/

/-- The queue behind `vi_reset_dev`; the pointers to the rings stay. -/
def resetVq (vq : VqueueInfo) : VqueueInfo := { vq with vqFlags := 0, vqLastAvail := 0 }

/-- The queue behind `vi_vq_init`, over rings that hold what the guest has put there. -/
def vqInit (vq : VqueueInfo) (desc : Nat) (avail : VringAvail) (used : VringUsed) : VqueueInfo :=
  { vq with
    vqFlags := Virtio.vqAlloc
    vqLastAvail := 0
    vqDesc := desc
    vqAvail := avail
    vqUsed := used }

/-- A status byte written, with a used entry and the used index. -/
structure Report where
  /-- The resets before the request was handed in, and before it was completed. -/
  submitted : Nat
  completed : Nat
  completion : Completion
deriving DecidableEq, Repr

structure Device where
  s : State
  resets : Nat
  /-- The resets before the element was handed in. -/
  born : Nat → Nat
  reports : List Report

inductive Event
  /-- The guest writes to the rings. -/
  | guest (avail : VringAvail) (used : VringUsed)
  /-- It writes 0 to the status register. -/
  | reset
  /-- It writes the page frame number of the queue. -/
  | vqInit (desc : Nat) (avail : VringAvail) (used : VringUsed)
  /-- A notification, or a step of its handler or of the block interface's worker. -/
  | device (op : Op)

/-- The driver's steps of `next`, in whose place `Event.guest` stands. -/
def Op.isDriver : Op → Bool
  | .fill _ | .advance _ | .reap => true
  | _ => false

/-- `pci_vtblk_reset`; the histories of the ring begin anew. -/
def pciVtblkReset (s : State) : State :=
  { s with
    ring := { s.ring with
      vq := resetVq s.ring.vq, published := [], filled := [], taken := [], held := [],
      released := [], reaped := [] }
    saveUsed := 0
    outstanding := [] }

/-- The element a request that is handed in now gets. -/
def submitElem (s : State) : Option Nat :=
  match s.handler with
  | .proc _ type => (opOf type).bind fun _ => s.blk.bc.bcFreeq.head?
  | _ => none

/-- The resets before the request was handed in that this step completes. -/
def Device.source (d : Device) : Op → Nat
  | .callback _ =>
    match d.s.blk.worker with
    | .finish be => d.born be
    | _ => d.resets
  | _ => d.resets

/-- The element handed in now, if one is. -/
def Device.bear (d : Device) : Option Nat → Nat → Nat
  | some be => Function.update d.born be d.resets
  | none => d.born

def Device.record (d : Device) (op : Op) (s' : State) : Device where
  s := s'
  resets := d.resets
  born := match op with
    | .submit => d.bear (submitElem d.s)
    | _ => d.born
  reports := d.reports ++
    (s'.completions.drop d.s.completions.length).map fun c => ⟨d.source op, d.resets, c⟩

/-- The registers are written under `vsc_mtx`, so the handler is not at work then. -/
def Device.next (d : Device) : Event → Option Device
  | .guest avail used =>
    some { d with s := { d.s with ring := { d.s.ring with
      vq := { d.s.ring.vq with vqAvail := avail, vqUsed := used } } } }
  | .reset =>
    if d.s.handler = .idle ∧ d.s.failed = none then
      some { d with s := pciVtblkReset d.s, resets := d.resets + 1 }
    else none
  | .vqInit desc avail used =>
    if d.s.handler = .idle ∧ d.s.failed = none then
      some { d with s := { d.s with
        ring := { d.s.ring with vq := vqInit d.s.ring.vq desc avail used }
        saveUsed := 0 } }
    else none
  | .device op =>
    if op.isDriver then none else (VirtioBlock.next d.s op).map fun s' => d.record op s'

def Device.start (s : State) : Device := ⟨s, 0, fun _ => 0, []⟩

/-- Every order of the guest's, the handler's and the worker's steps, with resets. -/
def resettable : System Device Event :=
  System.ofFn (fun d => ∃ s, Initial s ∧ d = Device.start s) Device.next

/-- The elements whose callback has yet to run: pending, or with the worker. -/
def uncalled (s : State) : List Nat :=
  s.blk.bc.bcPendq ++
    match s.blk.worker with
    | .proc be => [be]
    | .finish be => if s.called then [] else [be]
    | _ => []

/-- The device is reset with every request called back. -/
def ResetsIdle (d : Device) : Event → Prop
  | .reset => uncalled d.s = []
  | _ => True

instance (d : Device) : (e : Event) → Decidable (ResetsIdle d e)
  | .reset => inferInstanceAs (Decidable (_ = _))
  | .guest .. | .vqInit .. | .device _ => inferInstanceAs (Decidable True)

structure Isolated (d : Device) : Prop where
  /-- Every status byte, used entry and move of the used index belongs to a request handed in
  since the last reset before it. -/
  own : ∀ r ∈ d.reports, r.submitted = r.completed
  /-- The heads on the used ring since the last reset have been taken from the ring since then. -/
  heads : ∀ e ∈ d.s.ring.released, e.1 ∈ d.s.ring.taken

/-! ## What the worker holds -/

/-- The element the worker is at. -/
def inHand : Worker → List Nat
  | .proc be | .finish be => [be]
  | _ => []

/-- No element is in two places at once. -/
def Apart (b : BlockIf.State) : Prop := (inHand b.worker ++ b.bc.bcFreeq ++ b.bc.bcPendq).Nodup

section Worker
variable {b b' : BlockIf.State} {be : Nat}

theorem firstPend_mem {reqs : Nat → BlockIf.BlockifElem} {pendq : List Nat}
    (h : BlockIf.firstPend reqs pendq = some (some be)) : be ∈ pendq := by
  induction pendq with
  | nil => cases h
  | cons i pendq ih =>
    unfold BlockIf.firstPend at h
    split at h
    · obtain rfl := Option.some.inj (Option.some.inj h)
      exact List.mem_cons_self
    · split at h
      · exact List.mem_cons_of_mem _ (ih h)
      · cases h

/-- The worker takes a pending element, or none. -/
theorem next_dequeue (hs : BlockIf.next b .dequeue = some b') :
    b.worker = .ready ∧
      ((b'.bc = b.bc ∧ inHand b'.worker = []) ∨
        ∃ be ∈ b.bc.bcPendq, b'.bc = BlockIf.takeElem b.bc be b.bc.bcBtid ∧
          b'.worker = .proc be) := by
  obtain ⟨hadm, err, hstep⟩ := BlockIf.next_eq_some hs
  simp only [BlockIf.admissible, decide_eq_true_eq] at hadm
  refine ⟨hadm.1, ?_⟩
  unfold BlockIf.step BlockIf.workerDequeue BlockIf.blockifDequeue at hstep
  cases hfirst : BlockIf.firstPend b.bc.bcReqs b.bc.bcPendq with
  | none =>
    simp only [hfirst] at hstep
    cases hstep
  | some found =>
    cases found with
    | none =>
      simp only [hfirst, Option.map_some] at hstep
      obtain ⟨-, rfl⟩ := Prod.mk.inj (Option.some.inj hstep)
      refine .inl ⟨rfl, ?_⟩
      dsimp only
      split <;> rfl
    | some be =>
      simp only [hfirst, Option.map_some] at hstep
      obtain ⟨-, rfl⟩ := Prod.mk.inj (Option.some.inj hstep)
      exact .inr ⟨be, firstPend_mem hfirst, rfl, rfl⟩

theorem next_procDone (hs : BlockIf.next b .procDone = some b') :
    ∃ be, b.worker = .proc be ∧ b'.worker = .finish be ∧ b'.bc.bcFreeq = b.bc.bcFreeq ∧
      b'.bc.bcPendq = b.bc.bcPendq ∧
      ∀ i, (b'.bc.bcReqs i).beReq = (b.bc.bcReqs i).beReq := by
  obtain ⟨hadm, err, hstep⟩ := BlockIf.next_eq_some hs
  cases hw : b.worker with
  | proc be =>
    simp only [BlockIf.step, hw] at hstep
    obtain ⟨-, rfl⟩ := Prod.mk.inj (Option.some.inj hstep)
    refine ⟨be, rfl, rfl, rfl, rfl, fun i => ?_⟩
    by_cases hi : i = be
    · simp [hi]
    · simp [Function.update_of_ne hi]
  | ready | finish _ | waiting | exited =>
    simp only [BlockIf.step, hw] at hstep
    cases hstep

/-- The element completed becomes free; the pending ones keep their requests. -/
theorem next_complete (h : Apart b) (hs : BlockIf.next b .complete = some b') :
    ∃ be, b.worker = .finish be ∧ b'.worker = .ready ∧ b'.bc.bcFreeq = b.bc.bcFreeq ++ [be] ∧
      b'.bc.bcPendq = b.bc.bcPendq ∧
      ∀ i ∈ b.bc.bcPendq, (b'.bc.bcReqs i).beReq = (b.bc.bcReqs i).beReq := by
  obtain ⟨hadm, err, hstep⟩ := BlockIf.next_eq_some hs
  cases hw : b.worker with
  | finish be =>
    simp only [BlockIf.step, hw] at hstep
    obtain ⟨-, rfl⟩ := Prod.mk.inj (Option.some.inj hstep)
    have hnot : be ∉ b.bc.bcPendq := by
      intro hbe
      unfold Apart at h
      rw [hw, inHand, List.append_assoc] at h
      exact (List.nodup_cons.mp h).1 (by simp [hbe])
    have hpend : (BlockIf.removeElem b.bc be).bcPendq = b.bc.bcPendq := by
      unfold BlockIf.removeElem
      split
      · rfl
      · exact List.erase_of_not_mem hnot
    have hreqs : (BlockIf.removeElem b.bc be).bcReqs = b.bc.bcReqs := by
      unfold BlockIf.removeElem
      split <;> rfl
    have hfree : (BlockIf.removeElem b.bc be).bcFreeq = b.bc.bcFreeq := by
      unfold BlockIf.removeElem
      split <;> rfl
    refine ⟨be, rfl, rfl, ?_, hpend, fun i hi => ?_⟩
    · show (BlockIf.removeElem b.bc be).bcFreeq ++ [be] = _
      rw [hfree]
    · have hne : i ≠ be := fun he => hnot (he ▸ hi)
      simp only [BlockIf.blockifComplete, BlockIf.releaseElem, Function.update_of_ne hne,
        BlockIf.wake_beReq, hreqs]
  | ready | proc _ | waiting | exited =>
    simp only [BlockIf.step, hw] at hstep
    cases hstep

/-- A request accepted is the last pending element, which was the first free one. -/
theorem step_request {op : BlockIf.Blockop} {breq : Nat}
    (hs : BlockIf.step b (.request op breq) = some (.ok, b')) :
    ∃ be freeq, b.bc.bcFreeq = be :: freeq ∧ b'.bc.bcFreeq = freeq ∧
      b'.bc.bcPendq = b.bc.bcPendq ++ [be] ∧ (b'.bc.bcReqs be).beReq = some breq ∧
      (∀ i, i ≠ be → b'.bc.bcReqs i = b.bc.bcReqs i) ∧
      (b'.worker = b.worker ∨ b'.worker = b.worker.signal) := by
  unfold BlockIf.step BlockIf.blockifRequest BlockIf.blockifEnqueue at hs
  cases hq : b.bc.bcFreeq with
  | nil =>
    simp [hq] at hs
  | cons be freeq =>
    simp only [hq, ne_eq, reduceCtorEq, not_false_eq_true, if_true] at hs
    split at hs
    · simp only [Option.map_some, Option.some.injEq, Prod.mk.injEq, true_and] at hs
      obtain rfl := hs
      refine ⟨be, freeq, rfl, rfl, rfl, ?_, fun i hi => BlockIf.insertElem_ne hi, ?_⟩
      · rw [BlockIf.insertElem_same]
      · dsimp only
        split
        · exact .inr rfl
        · exact .inl rfl
    · cases hs

theorem inHand_signal (w : Worker) : inHand w.signal = inHand w := by cases w <;> rfl

end Worker

/-! ## The invariant -/

/-- The element was handed in since the last reset, for a chain taken since then. -/
def Device.Current (d : Device) (be : Nat) : Prop :=
  d.born be = d.resets ∧
    ∃ idx ∈ d.s.ring.taken, (d.s.blk.bc.bcReqs be).beReq = some idx.toNat

structure ResetInv (d : Device) : Prop where
  apart : Apart d.s.blk
  called : d.s.called = true → ∃ be, d.s.blk.worker = .finish be
  current : ∀ be ∈ uncalled d.s, d.Current be
  handler : ∀ idx type, d.s.handler = .proc idx type → idx ∈ d.s.ring.taken
  isolated : Isolated d

section Steps
variable {d d' : Device} {s' : State}

theorem mem_uncalled {s : State} {be : Nat} :
    be ∈ uncalled s ↔ be ∈ s.blk.bc.bcPendq ∨ s.blk.worker = .proc be ∨
      (s.blk.worker = .finish be ∧ s.called = false) := by
  unfold uncalled
  rw [List.mem_append]
  cases hw : s.blk.worker with
  | proc i =>
    have hcomm : be = i ↔ i = be := eq_comm
    simp [hcomm]
  | finish i =>
    have hcomm : be = i ↔ i = be := eq_comm
    cases s.called <;> simp [hcomm]
  | ready | waiting | exited => simp

theorem Device.start_inv {s : State} (h : Initial s) : ResetInv (Device.start s) := by
  obtain ⟨btid, req, hblk⟩ := h.blk
  obtain ⟨-, -, -, -, hrel, -⟩ := h.ring.histories
  refine ⟨?_, fun hc => ?_, fun be hbe => ?_, fun idx type hh => ?_, ⟨by simp [start], ?_⟩⟩
  · show Apart s.blk
    rw [hblk]
    simp [Apart, inHand, BlockIf.blockifOpen, List.nodup_range]
  · have hcalled : s.called = true := hc
    rw [h.called] at hcalled
    cases hcalled
  · have hmem : be ∈ uncalled s := hbe
    rw [uncalled, hblk] at hmem
    simp [BlockIf.blockifOpen] at hmem
  · have hproc : s.handler = .proc idx type := hh
    rw [h.handler] at hproc
    cases hproc
  · show ∀ e ∈ s.ring.released, e.1 ∈ s.ring.taken
    simp [hrel]

/-- A step that completes nothing, takes no new element to hand and keeps what has been taken. -/
theorem ResetInv.quiet (h : ResetInv d) (hapart : Apart s'.blk)
    (hcalled : s'.called = true → ∃ be, s'.blk.worker = .finish be)
    (hout : ∀ be ∈ uncalled s', be ∈ uncalled d.s ∧
      (s'.blk.bc.bcReqs be).beReq = (d.s.blk.bc.bcReqs be).beReq)
    (hhandler : ∀ idx type, s'.handler = .proc idx type → idx ∈ s'.ring.taken)
    (htaken : ∀ idx ∈ d.s.ring.taken, idx ∈ s'.ring.taken)
    (hreleased : s'.ring.released = d.s.ring.released) :
    ResetInv { d with s := s' } := by
  refine ⟨hapart, hcalled, fun be hbe => ?_, hhandler, ⟨h.isolated.own, fun e he => ?_⟩⟩
  · obtain ⟨hold, hreq⟩ := hout be hbe
    obtain ⟨hborn, idx, hidx, hold⟩ := h.current be hold
    exact ⟨hborn, idx, htaken idx hidx, hreq.trans hold⟩
  · have he' : e ∈ s'.ring.released := he
    rw [hreleased] at he'
    exact htaken e.1 (h.isolated.heads e he')

/-- A step that completes nothing adds nothing to the record. -/
theorem ResetInv.recorded {op : Op} (hop : op ≠ .submit) (hc : s'.completions = d.s.completions)
    (h : ResetInv { d with s := s' }) : ResetInv (d.record op s') := by
  have hrec : d.record op s' = { d with s := s' } := by
    unfold Device.record
    rw [hc, List.drop_length, List.map_nil, List.append_nil]
    cases op <;> first | rfl | exact absurd rfl hop
  rw [hrec]
  exact h

/-- A chain taken since the reset is released. -/
theorem Isolated.done (h : Isolated d) {idx : UInt16} (hidx : idx ∈ d.s.ring.taken)
    {reports : List Report} (hown : ∀ r ∈ reports, r.submitted = r.completed) {born : Nat → Nat}
    (hrel : s'.ring.released = d.s.ring.released ++ [(idx, 1)])
    (htaken : s'.ring.taken = d.s.ring.taken) :
    Isolated { d with s := s', born := born, reports := d.reports ++ reports } := by
  refine ⟨fun r hr => ?_, fun e he => ?_⟩
  · rcases List.mem_append.mp hr with hr | hr
    · exact h.own r hr
    · exact hown r hr
  · have he' : e ∈ s'.ring.released := he
    show e.1 ∈ s'.ring.taken
    rw [htaken]
    rw [hrel] at he'
    rcases List.mem_append.mp he' with he' | he'
    · exact h.heads e he'
    · obtain rfl := List.mem_singleton.mp he'
      exact hidx

theorem Apart.perm {b b' : BlockIf.State} (h : Apart b)
    (hp : (inHand b'.worker ++ b'.bc.bcFreeq ++ b'.bc.bcPendq).Perm
      (inHand b.worker ++ b.bc.bcFreeq ++ b.bc.bcPendq)) : Apart b' :=
  hp.nodup_iff.mpr h

theorem ResetInv.dequeue (h : ResetInv d) {b' : BlockIf.State}
    (hs : BlockIf.next d.s.blk .dequeue = some b') :
    ResetInv { d with s := { d.s with blk := b' } } := by
  obtain ⟨hready, hcases⟩ := next_dequeue hs
  have hnot : d.s.called = false := by
    by_contra hc
    obtain ⟨be, hfinish⟩ := h.called (by simpa using hc)
    rw [hready] at hfinish
    cases hfinish
  refine h.quiet ?_ (fun hc => by simp [hnot] at hc) (fun be hbe => ?_) h.handler (fun _ hidx => hidx)
    rfl
  · rcases hcases with ⟨hbc, hhand⟩ | ⟨be, hbe, hbc, hworker⟩
    · refine h.apart.perm ?_
      dsimp only
      rw [hbc, hhand, hready]
      exact List.Perm.refl _
    · refine h.apart.perm ?_
      dsimp only
      rw [hbc, hworker, hready, List.perm_iff_count]
      intro x
      have hx := List.perm_iff_count.mp (List.perm_cons_erase hbe) x
      simp only [inHand, BlockIf.takeElem, List.count_append, List.count_cons,
        List.count_nil] at hx ⊢
      omega
  · rcases hcases with ⟨hbc, hhand⟩ | ⟨i, hi, hbc, hworker⟩
    · rw [mem_uncalled] at hbe
      dsimp only at hbe
      rw [hbc] at hbe
      rcases hbe with hp | hp | hp
      · exact ⟨mem_uncalled.mpr (.inl hp), by rw [hbc]⟩
      · simp [hp, inHand] at hhand
      · simp [hp.1, inHand] at hhand
    · have hreq : (b'.bc.bcReqs be).beReq = (d.s.blk.bc.bcReqs be).beReq := by
        rw [hbc]
        by_cases hbi : be = i
        · rw [hbi, BlockIf.takeElem_same]
        · rw [BlockIf.takeElem_ne hbi]
      refine ⟨mem_uncalled.mpr (.inl ?_), hreq⟩
      rw [mem_uncalled] at hbe
      dsimp only at hbe
      rw [hbc, hworker] at hbe
      rcases hbe with hp | hp | hp
      · exact List.mem_of_mem_erase hp
      · cases hp
        exact hi
      · cases hp.1

theorem ResetInv.procDone (h : ResetInv d) {b' : BlockIf.State}
    (hs : BlockIf.next d.s.blk .procDone = some b') :
    ResetInv { d with s := { d.s with blk := b' } } := by
  obtain ⟨i, hproc, hfinish, hfree, hpend, hreq⟩ := next_procDone hs
  refine h.quiet ?_ (fun _ => ⟨i, hfinish⟩) (fun be hbe => ⟨?_, hreq be⟩) h.handler
    (fun _ hidx => hidx) rfl
  · refine h.apart.perm ?_
    dsimp only
    rw [hfinish, hfree, hpend, hproc]
    exact List.Perm.refl _
  · rw [mem_uncalled] at hbe ⊢
    dsimp only at hbe
    rw [hfinish, hpend] at hbe
    rcases hbe with hp | hp | hp
    · exact .inl hp
    · cases hp
    · cases hp.1
      exact .inr (.inl hproc)

theorem ResetInv.complete (h : ResetInv d) {b' : BlockIf.State}
    (hs : BlockIf.next d.s.blk .complete = some b') :
    ResetInv { d with s := { d.s with blk := b', called := false } } := by
  obtain ⟨i, hfinish, hready, hfree, hpend, hreq⟩ := next_complete h.apart hs
  refine h.quiet ?_ (fun hc => by cases hc) (fun be hbe => ?_) h.handler (fun _ hidx => hidx) rfl
  · refine h.apart.perm ?_
    dsimp only
    rw [hready, hfree, hpend, hfinish, List.perm_iff_count]
    intro x
    simp only [inHand, List.count_append, List.count_cons, List.count_nil]
    omega
  · rw [mem_uncalled] at hbe
    dsimp only at hbe
    rw [hready, hpend] at hbe
    rcases hbe with hp | hp | hp
    · exact ⟨mem_uncalled.mpr (.inl hp), hreq be hp⟩
    · cases hp
    · cases hp.1

theorem ResetInv.wakeup (h : ResetInv d) {b' : BlockIf.State}
    (hs : BlockIf.next d.s.blk .wakeup = some b') :
    ResetInv { d with s := { d.s with blk := b' } } := by
  obtain ⟨hadm, err, hstep⟩ := BlockIf.next_eq_some hs
  simp only [BlockIf.admissible, decide_eq_true_eq] at hadm
  obtain ⟨-, rfl⟩ := Prod.mk.inj (Option.some.inj hstep)
  refine h.quiet ?_ (fun hc => ?_) (fun be hbe => ⟨?_, rfl⟩) h.handler (fun _ hidx => hidx) rfl
  · refine h.apart.perm ?_
    dsimp only
    rw [hadm]
    exact List.Perm.refl _
  · obtain ⟨be, hfinish⟩ := h.called hc
    rw [hadm] at hfinish
    cases hfinish
  · rw [mem_uncalled] at hbe ⊢
    exact hbe.imp_right fun hp => by simp at hp

/-- The callback of the element the worker holds. -/
theorem ResetInv.callback (h : ResetInv d) {be breq : Nat} {err : Errno}
    (hfinish : d.s.blk.worker = .finish be) (hnot : d.s.called = false)
    (hreq : (d.s.blk.bc.bcReqs be).beReq = some breq) :
    ResetInv (d.record (.callback err)
      { pciVtblkDoneLocked d.s (UInt16.ofNat breq) err with called := true }) := by
  obtain ⟨hborn, idx, hidx, hold⟩ := h.current be (mem_uncalled.mpr (.inr (.inr ⟨hfinish, hnot⟩)))
  rw [hreq] at hold
  obtain rfl := Option.some.inj hold
  rw [UInt16.ofNat_toNat]
  have hsource : d.source (.callback err) = d.resets := by
    simp only [Device.source, hfinish, hborn]
  refine ⟨h.apart, fun _ => ⟨be, hfinish⟩, fun i hi => ?_, h.handler,
    h.isolated.done hidx (fun r hr => ?_) rfl rfl⟩
  · have hi' := mem_uncalled.mp hi
    refine h.current i (mem_uncalled.mpr ?_)
    rcases hi' with hp | hp | hp
    · exact .inl hp
    · exact .inr (.inl hp)
    · exact absurd hp.2 (by simp [Device.record])
  · rw [hsource] at hr
    obtain ⟨c, -, rfl⟩ := List.mem_map.mp hr
    rfl

theorem ResetInv.take (h : ResetInv d) (m : Memory) :
    ResetInv { d with s := procTake d.s m } := by
  simp only [procTake]
  split
  · rename_i idx p _ _
    refine h.quiet h.apart h.called (fun be hbe => ⟨hbe, rfl⟩) (fun i type hh => ?_)
      (fun i hi => List.mem_append_left _ hi) rfl
    -- the handler goes on with the head that was taken
    obtain ⟨rfl, -⟩ := Handler.proc.inj hh
    exact List.mem_append_right _ List.mem_cons_self
  · exact h.quiet h.apart h.called (fun be hbe => ⟨hbe, rfl⟩) h.handler (fun _ hi => hi) rfl
  · exact h.quiet h.apart h.called (fun be hbe => ⟨hbe, rfl⟩) h.handler (fun _ hi => hi) rfl

/-- A request accepted belongs to the time after the last reset. -/
theorem ResetInv.request (h : ResetInv d) {idx : UInt16} {op : BlockIf.Blockop}
    {b' : BlockIf.State} (hidx : idx ∈ d.s.ring.taken)
    (hs : BlockIf.step d.s.blk (.request op idx.toNat) = some (.ok, b')) :
    ResetInv { d with
      s := { d.s with blk := b', handler := .loop }
      born := d.bear d.s.blk.bc.bcFreeq.head? } := by
  obtain ⟨be, freeq, hq, hfree, hpend, hreq, hsame, hworker⟩ := step_request hs
  have hhand : inHand b'.worker = inHand d.s.blk.worker := by
    rcases hworker with hw | hw
    · rw [hw]
    · rw [hw, inHand_signal]
  have hfinish : ∀ i, b'.worker = .finish i ↔ d.s.blk.worker = .finish i := by
    intro i
    rcases hworker with hw | hw
    · rw [hw]
    · rw [hw]
      cases d.s.blk.worker <;> simp [Worker.signal]
  have hproc : ∀ i, b'.worker = .proc i ↔ d.s.blk.worker = .proc i := by
    intro i
    rcases hworker with hw | hw
    · rw [hw]
    · rw [hw]
      cases d.s.blk.worker <;> simp [Worker.signal]
  simp only [hq, List.head?_cons, Device.bear]
  refine ⟨h.apart.perm ?_, fun hc => ?_, fun i hi => ?_, fun i type hh => (by cases hh),
    ⟨h.isolated.own, h.isolated.heads⟩⟩
  · dsimp only
    rw [hhand, hfree, hpend, hq, List.perm_iff_count]
    intro x
    simp only [List.count_append, List.count_cons, List.count_nil]
    omega
  · obtain ⟨i, hi⟩ := h.called hc
    exact ⟨i, (hfinish i).mpr hi⟩
  · by_cases hbe : i = be
    · subst hbe
      exact ⟨Function.update_self .., idx, hidx, hreq⟩
    · have hold : i ∈ uncalled d.s := by
        rw [mem_uncalled] at hi ⊢
        dsimp only at hi
        rw [hpend, hproc, hfinish] at hi
        rcases hi with hp | hp
        · rcases List.mem_append.mp hp with hp | hp
          · exact .inl hp
          · exact absurd (List.mem_singleton.mp hp) hbe
        · exact .inr hp
      obtain ⟨hborn, j, hj, hjreq⟩ := h.current i hold
      refine ⟨?_, j, hj, ?_⟩
      · show Function.update d.born be d.resets i = d.resets
        rw [Function.update_of_ne hbe, hborn]
      · show (b'.bc.bcReqs i).beReq = _
        rw [hsame i hbe, hjreq]

theorem ResetInv.submit (h : ResetInv d) {idx : UInt16} {type : BitVec 32}
    (hproc : d.s.handler = .proc idx type) :
    ResetInv (d.record .submit (procSubmit d.s idx type)) := by
  have hidx := h.handler idx type hproc
  unfold procSubmit
  cases hop : opOf type with
  | none =>
    -- completed at once
    have hnone : submitElem d.s = none := by simp only [submitElem, hproc, hop, Option.bind_none]
    simp only [Device.record, hnone, Device.bear]
    refine ⟨h.apart, h.called, h.current, fun i t hh => (by cases hh),
      h.isolated.done hidx (fun r hr => ?_) rfl rfl⟩
    obtain ⟨c, -, rfl⟩ := List.mem_map.mp hr
    rfl
  | some op =>
    have helem : submitElem d.s = d.s.blk.bc.bcFreeq.head? := by
      simp only [submitElem, hproc, hop, Option.bind_some]
    dsimp only
    split
    · rename_i b' hs
      have hr := h.request hidx hs
      simp only [Device.record, helem, List.drop_length, List.map_nil, List.append_nil]
      exact hr
    · -- the assertion fails, and nothing was handed in
      simp only [Device.record, List.drop_length, List.map_nil, List.append_nil]
      refine ⟨h.apart, h.called, fun i hi => ?_, h.handler, ⟨h.isolated.own, h.isolated.heads⟩⟩
      obtain ⟨hborn, hreq⟩ := h.current i hi
      refine ⟨?_, hreq⟩
      show d.bear (submitElem d.s) i = d.resets
      cases submitElem d.s with
      | none => exact hborn
      | some be =>
        by_cases hbe : i = be
        · rw [hbe, Device.bear, Function.update_self]
        · rw [Device.bear, Function.update_of_ne hbe, hborn]

theorem ResetInv.device (h : ResetInv d) {op : Op} (hdrv : op.isDriver = false)
    (hs : VirtioBlock.next d.s op = some s') : ResetInv (d.record op s') := by
  unfold VirtioBlock.next at hs
  split at hs
  · cases hs
  · cases op with
    | fill _ | advance _ | reap => cases hdrv
    | notify =>
      simp only at hs
      split at hs
      · obtain rfl := Option.some.inj hs
        refine ResetInv.recorded (by simp) rfl ?_
        exact h.quiet h.apart h.called (fun be hbe => ⟨hbe, rfl⟩) (fun i t hh => by cases hh)
          (fun _ hi => hi) rfl
      · cases hs
    | take m =>
      simp only at hs
      split at hs
      · obtain rfl := Option.some.inj hs
        refine ResetInv.recorded (by simp) ?_ (h.take m)
        simp only [procTake]
        split <;> rfl
      · cases hs
    | submit =>
      simp only at hs
      split at hs
      · rename_i idx type hproc
        obtain rfl := Option.some.inj hs
        exact h.submit hproc
      · cases hs
    | leave =>
      simp only at hs
      split at hs
      · obtain rfl := Option.some.inj hs
        refine ResetInv.recorded (by simp) rfl ?_
        exact h.quiet h.apart h.called (fun be hbe => ⟨hbe, rfl⟩) (fun i t hh => by cases hh)
          (fun _ hi => hi) rfl
      · cases hs
    | dequeue =>
      obtain ⟨b', hb, rfl⟩ := Option.map_eq_some_iff.mp hs
      exact ResetInv.recorded (by simp) rfl (h.dequeue hb)
    | procDone =>
      obtain ⟨b', hb, rfl⟩ := Option.map_eq_some_iff.mp hs
      exact ResetInv.recorded (by simp) rfl (h.procDone hb)
    | callback err =>
      simp only at hs
      split at hs
      · rename_i be hfinish
        split at hs
        · rename_i hidle
          split at hs
          · rename_i breq hreq
            obtain rfl := Option.some.inj hs
            exact h.callback hfinish hidle.1 hreq
          · obtain rfl := Option.some.inj hs
            refine ResetInv.recorded (by simp) rfl ?_
            exact h.quiet h.apart h.called (fun be hbe => ⟨hbe, rfl⟩) h.handler (fun _ hi => hi) rfl
        · cases hs
      · cases hs
    | complete =>
      simp only at hs
      split at hs
      · obtain ⟨b', hb, rfl⟩ := Option.map_eq_some_iff.mp hs
        exact ResetInv.recorded (by simp) rfl (h.complete hb)
      · cases hs
    | wakeup =>
      obtain ⟨b', hb, rfl⟩ := Option.map_eq_some_iff.mp hs
      exact ResetInv.recorded (by simp) rfl (h.wakeup hb)

theorem ResetInv.preserved (h : ResetInv d) {e : Event} (hidle : ResetsIdle d e)
    (hs : d.next e = some d') : ResetInv d' := by
  cases e with
  | guest avail used =>
    obtain rfl := Option.some.inj hs
    exact h.quiet h.apart h.called (fun be hbe => ⟨hbe, rfl⟩) h.handler (fun _ hi => hi) rfl
  | vqInit desc avail used =>
    simp only [Device.next] at hs
    split at hs
    · obtain rfl := Option.some.inj hs
      exact h.quiet h.apart h.called (fun be hbe => ⟨hbe, rfl⟩) h.handler (fun _ hi => hi) rfl
    · cases hs
  | reset =>
    simp only [Device.next] at hs
    split at hs
    · rename_i hok
      obtain rfl := Option.some.inj hs
      have hnone : uncalled (pciVtblkReset d.s) = [] := hidle
      refine ⟨h.apart, h.called, fun be hbe => ?_, fun idx type hh => ?_,
        ⟨h.isolated.own, fun e he => by cases he⟩⟩
      · have hbe' : be ∈ uncalled (pciVtblkReset d.s) := hbe
        simp [hnone] at hbe'
      · have hh' : d.s.handler = .proc idx type := hh
        rw [hok.1] at hh'
        cases hh'
    · cases hs
  | device op =>
    simp only [Device.next] at hs
    split at hs
    · cases hs
    · rename_i hdrv
      obtain ⟨s', hs', rfl⟩ := Option.map_eq_some_iff.mp hs
      exact h.device (by simpa using hdrv) hs'

end Steps

/-- In every run that resets the device only with every request called back. -/
theorem reset_isolates (d : Device) (hr : (resettable.restrict ResetsIdle).Reachable d) :
    Isolated d := by
  have hind : (resettable.restrict ResetsIdle).Inductive ResetInv := by
    constructor
    · rintro d ⟨s, hs, rfl⟩
      exact Device.start_inv hs
    · rintro d e d' h ⟨hidle, hs⟩
      exact h.preserved hidle hs
  exact (hind.reachable hr).isolated

/-- A flush under the head 5 is handed in. -/
def handIn : List Event :=
  [.guest ⟨1, fun _ => 5⟩ ⟨0, fun _ => ⟨0, 0⟩⟩, .device .notify,
    .device (.take (flushMem freshRing.vq 5)), .device .submit, .device .leave]

/-- The worker takes it, and its callback runs. -/
def callBack : List Event :=
  [.device .dequeue, .device .procDone, .device (.callback .ok), .device .complete]

/-- The driver resets the device and sets the queue up over rings it has zeroed. -/
def setUp : List Event := [.reset, .vqInit 0 ⟨0, fun _ => 0⟩ ⟨0, fun _ => ⟨0, 0⟩⟩]

/-- A flush before the reset and one after it, each called back on its own side. -/
theorem reset_isolates_flushes :
    ∃ d, System.exec (System.guarded ResetsIdle Device.next) (Device.start freshDevice)
        (handIn ++ callBack ++ setUp ++ handIn ++ callBack) = some d ∧
      d.reports.map (·.submitted) = [0, 1] ∧ d.s.ring.vq.vqUsed.vuIdx = 1 ∧ Isolated d := by
  have hrun : (System.exec (System.guarded ResetsIdle Device.next) (Device.start freshDevice)
      (handIn ++ callBack ++ setUp ++ handIn ++ callBack)).map
        (fun d => (d.reports.map (·.submitted), d.s.ring.vq.vqUsed.vuIdx)) = some ([0, 1], 1) := by
    decide +kernel
  obtain ⟨d, hexec, hd⟩ := Option.map_eq_some_iff.mp hrun
  have hr : (resettable.restrict ResetsIdle).Reachable d :=
    System.exec_reachable_guarded (.init ⟨_, freshDevice_initial, rfl⟩) hexec
  exact ⟨d, hexec, congrArg Prod.fst hd, congrArg Prod.snd hd, reset_isolates d hr⟩

/-- The device is reset while the flush waits for the worker. Its callback then puts the head 5 on
the used ring of the new queue, on which the driver has put nothing. -/
theorem completed_after_reset :
    ∃ d, System.exec Device.next (Device.start freshDevice) (handIn ++ setUp ++ callBack) = some d ∧
      d.s.ring.vq.vqAvail.vaIdx = 0 ∧ d.s.ring.vq.vqUsed.vuIdx = 1 ∧
      d.s.ring.vq.vqUsed.vuRing 0 = ⟨5, 1⟩ ∧ ¬ Isolated d := by
  have hrun : (System.exec Device.next (Device.start freshDevice)
      (handIn ++ setUp ++ callBack)).map
        (fun d => ((d.s.ring.vq.vqAvail.vaIdx, d.s.ring.vq.vqUsed.vuIdx),
          d.s.ring.vq.vqUsed.vuRing 0, d.s.ring.released, d.s.ring.taken)) =
      some ((0, 1), ⟨5, 1⟩, [(5, 1)], []) := by decide +kernel
  obtain ⟨d, hexec, hd⟩ := Option.map_eq_some_iff.mp hrun
  simp only [Prod.mk.injEq] at hd
  obtain ⟨⟨havail, hidx⟩, hused, hrel, htaken⟩ := hd
  refine ⟨d, hexec, havail, hidx, hused, fun h => ?_⟩
  have hmem := h.heads (5, 1) (by simp [hrel])
  simp [htaken] at hmem

end Xhyve.Emul.VirtioBlock
