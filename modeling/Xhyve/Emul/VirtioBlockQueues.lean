import Xhyve.Emul.VirtioBlock
import Xhyve.Emul.BlockIfQueues

/-!
# Virtio-block never overruns the block interface

Every chain the device holds has one owner: an element of the block interface whose callback has
yet to run, or the handler that is about to hand it in. The heads the guest has outstanding are
distinct, so the device holds at most a ring of them, and at most one element more is in use than
there are chains held: the one whose callback has run and which the worker has not completed.
-/

namespace Xhyve.Emul.VirtioBlock

open Xhyve.Lib
open Xhyve.Virtio (Proto RingInv vqRelchain usedElem)
open Xhyve.Emul.BlockIf (BlockifCtxt BlockifElem)

/-! ## Heads on the ring -/

def heldHeads (p : Proto) : List (Option UInt16) := p.held.map (p.taken[·]?)

/-- A chain taken is held or was released, once; what the guest has outstanding are the heads it
filled in, those the device has not taken, those it holds and those the guest has not seen used. -/
structure RingHeads (p : Proto) (out : List UInt16) : Prop where
  once : (p.taken.map some).Perm (heldHeads p ++ p.released.map (some ·.1))
  covers : (out.map some).Perm
    (p.filled.map some ++ (p.published.drop p.taken.length).map some ++ heldHeads p ++
      (p.released.drop p.reaped.length).map (some ·.1))
  nodup : out.Nodup

section Heads
variable {p : Proto} {out : List UInt16} {k : Nat}

theorem RingHeads.fill (h : RingHeads p out) {head : UInt16} (hnew : head ∉ out)
    (vq : Virtio.VqueueInfo) :
    RingHeads { p with vq := vq, filled := p.filled ++ [head] } (head :: out) where
  once := h.once
  covers := by
    rw [List.perm_iff_count]
    intro x
    have hx := List.perm_iff_count.mp h.covers x
    simp only [heldHeads, List.map_append, List.map_cons, List.map_nil, List.count_append,
      List.count_cons, List.count_nil] at hx ⊢
    omega
  nodup := List.nodup_cons.mpr ⟨hnew, h.nodup⟩

theorem RingHeads.advance (h : RingHeads p out) (hr : RingInv k p) (n : Nat)
    (vq : Virtio.VqueueInfo) :
    RingHeads { p with
      vq := vq, published := p.published ++ p.filled.take n, filled := p.filled.drop n } out where
  once := h.once
  covers := by
    have hle := hr.taken.length_le
    rw [List.perm_iff_count]
    intro x
    have hx := List.perm_iff_count.mp h.covers x
    rw [← List.take_append_drop n p.filled] at hx
    simp only [heldHeads, List.drop_append_of_le_length hle, List.map_append,
      List.count_append] at hx ⊢
    omega
  nodup := h.nodup

/-- The entry the guest reads is the first release it has not seen. -/
theorem RingHeads.reap (h : RingHeads p out) (hr : RingInv k p) (hk : k ≤ 15)
    (hne : p.seen ≠ p.vq.vqUsed.vuIdx) :
    RingHeads { p with
        seen := p.seen + 1
        reaped := p.reaped ++ [p.vq.vqUsed.vuRing (p.vq.slot p.seen)] }
      (out.erase (p.vq.vqUsed.vuRing (p.vq.slot p.seen)).vuIdx.toUInt16) := by
  have hlt : p.reaped.length < p.released.length := by
    obtain ⟨hle, -, -, -⟩ := hr.lengths
    refine lt_of_le_of_ne hle fun he => hne ?_
    rw [hr.seen, hr.vuIdx, he]
  have hcell : p.vq.vqUsed.vuRing (p.vq.slot p.seen) = usedElem p.released[p.reaped.length] := by
    have hlt' : p.reaped.length < (p.released.map usedElem).length := by rwa [List.length_map]
    rw [hr.seen, Virtio.slot_ofNat hk hr.qsize, hr.used _ hlt' le_rfl, List.getElem_map]
  have hidx : (usedElem p.released[p.reaped.length]).vuIdx.toUInt16 =
      p.released[p.reaped.length].1 := by
    simp [usedElem]
  have hdrop : p.released.drop p.reaped.length =
      p.released[p.reaped.length] :: p.released.drop (p.reaped.length + 1) :=
    List.drop_eq_getElem_cons hlt
  have hmem : p.released[p.reaped.length].1 ∈ out := by
    have hin : some p.released[p.reaped.length].1 ∈ out.map some := by
      rw [h.covers.mem_iff, hdrop]
      exact List.mem_append_right _ List.mem_cons_self
    simpa using hin
  rw [hcell, hidx]
  refine ⟨h.once, ?_, h.nodup.erase _⟩
  have hperm := (List.perm_cons_erase hmem).map (f := (some : UInt16 → Option UInt16))
  rw [List.perm_iff_count]
  intro x
  have hx := List.perm_iff_count.mp h.covers x
  have hy := List.perm_iff_count.mp hperm x
  rw [hdrop] at hx
  simp only [heldHeads, List.length_append, List.length_cons, List.length_nil, Nat.zero_add,
    List.map_cons, List.count_append, List.count_cons] at hx hy ⊢
  omega

theorem heldHeads_take (hr : RingInv k p) (vq : Virtio.VqueueInfo) (idx : UInt16) :
    heldHeads (takeChain p vq idx) = some idx :: heldHeads p := by
  unfold heldHeads takeChain
  rw [List.map_cons, List.getElem?_concat_length]
  refine congrArg _ (List.map_congr_left fun pos hpos => ?_)
  exact List.getElem?_append_left (hr.heldTaken pos hpos)

/-- The head taken is one that was not held. -/
theorem RingHeads.take (h : RingHeads p out) (hr : RingInv k p) {idx : UInt16}
    (hidx : p.published[p.taken.length]? = some idx) (vq : Virtio.VqueueInfo) :
    RingHeads (takeChain p vq idx) out ∧ some idx ∉ heldHeads p := by
  obtain ⟨hlt, hget⟩ := List.getElem?_eq_some_iff.mp hidx
  have hdrop : p.published.drop p.taken.length =
      idx :: p.published.drop (p.taken.length + 1) := by
    rw [List.drop_eq_getElem_cons hlt, hget]
  have hheads := heldHeads_take hr vq idx
  refine ⟨⟨?_, ?_, h.nodup⟩, ?_⟩
  · rw [hheads, List.perm_iff_count]
    intro x
    have hx := List.perm_iff_count.mp h.once x
    simp only [takeChain, List.map_append, List.map_cons, List.map_nil, List.count_append,
      List.count_cons, List.count_nil] at hx ⊢
    omega
  · rw [hheads, List.perm_iff_count]
    intro x
    have hx := List.perm_iff_count.mp h.covers x
    rw [hdrop] at hx
    simp only [takeChain, List.map_cons, List.length_append, List.length_cons, List.length_nil,
      Nat.zero_add, List.count_append, List.count_cons] at hx ⊢
    omega
  · intro hmem
    have hone : List.count (some idx) (out.map some) ≤ 1 :=
      List.nodup_iff_count_le_one.mp (h.nodup.map (Option.some_injective _)) _
    have hx := List.perm_iff_count.mp h.covers (some idx)
    have hpos := List.count_pos_iff.mpr hmem
    rw [hdrop] at hx
    simp only [List.map_cons, List.count_append, List.count_cons, beq_self_eq_true,
      if_true] at hx
    omega

theorem heldPos_of_mem {idx : UInt16} (hmem : some idx ∈ heldHeads p) :
    ∃ pos, heldPos p idx = some pos ∧ pos ∈ p.held ∧ p.taken[pos]? = some idx := by
  obtain ⟨q, hq, htq⟩ := List.mem_map.mp hmem
  have hsome : (heldPos p idx).isSome = true := by
    rw [heldPos, List.find?_isSome]
    exact ⟨q, hq, by simpa using htq⟩
  obtain ⟨pos, hpos⟩ := Option.isSome_iff_exists.mp hsome
  refine ⟨pos, hpos, List.mem_of_find?_eq_some hpos, ?_⟩
  have hfound := List.find?_some hpos
  simpa using hfound

/-- Releasing a chain that is held is a step of the ring's protocol. -/
theorem relchain_next {idx : UInt16} (iolen : UInt32) (hmem : some idx ∈ heldHeads p) :
    ∃ pos, pos ∈ p.held ∧ p.taken[pos]? = some idx ∧
      p.next (.relchain pos iolen) = some (relchain p idx iolen) := by
  obtain ⟨pos, hfind, hheld, htaken⟩ := heldPos_of_mem hmem
  refine ⟨pos, hheld, htaken, ?_⟩
  unfold relchain
  rw [Proto.next, htaken, hfind]
  dsimp only
  rw [if_pos hheld]

theorem heldHeads_relchain {idx : UInt16} (iolen : UInt32) (hmem : some idx ∈ heldHeads p) :
    (heldHeads p).Perm (some idx :: heldHeads (relchain p idx iolen)) := by
  obtain ⟨pos, hfind, hheld, htaken⟩ := heldPos_of_mem hmem
  unfold heldHeads relchain
  rw [hfind, ← htaken]
  exact (List.perm_cons_erase hheld).map _

theorem RingHeads.relchain (h : RingHeads p out) (hr : RingInv k p) {idx : UInt16}
    {iolen : UInt32} (hmem : some idx ∈ heldHeads p) :
    RingHeads (VirtioBlock.relchain p idx iolen) out := by
  have hheads := heldHeads_relchain iolen hmem
  obtain ⟨hle, -, -, -⟩ := hr.lengths
  refine ⟨?_, ?_, h.nodup⟩
  · rw [List.perm_iff_count]
    intro x
    have hx := List.perm_iff_count.mp h.once x
    have hy := List.perm_iff_count.mp hheads x
    simp only [VirtioBlock.relchain, List.map_append, List.map_cons, List.map_nil,
      List.count_append, List.count_cons, List.count_nil] at hx hy ⊢
    omega
  · rw [List.perm_iff_count]
    intro x
    have hx := List.perm_iff_count.mp h.covers x
    have hy := List.perm_iff_count.mp hheads x
    simp only [VirtioBlock.relchain, List.drop_append_of_le_length hle, List.map_append,
      List.map_cons, List.map_nil, List.count_append, List.count_cons, List.count_nil] at hx hy ⊢
    omega

end Heads

/-! ## Elements of the block interface -/

/-- The heads a list of elements stands for. -/
def reqHeads (bc : BlockifCtxt) (l : List Nat) : List (Option UInt16) :=
  l.map fun be => (bc.bcReqs be).beReq.map UInt16.ofNat

theorem reqHeads_congr {bc bc' : BlockifCtxt} {l : List Nat}
    (h : ∀ be ∈ l, (bc'.bcReqs be).beReq = (bc.bcReqs be).beReq) :
    reqHeads bc' l = reqHeads bc l :=
  List.map_congr_left fun be hbe => by rw [h be hbe]

theorem reqHeads_perm {bc : BlockifCtxt} {l l' : List Nat} (h : l.Perm l') :
    (reqHeads bc l).Perm (reqHeads bc l') := h.map _

theorem reqHeads_append (bc : BlockifCtxt) (l l' : List Nat) :
    reqHeads bc (l ++ l') = reqHeads bc l ++ reqHeads bc l' := List.map_append

section Elements
variable {b b' : BlockIf.State}

/-- With an element free, a request is accepted and its element is the last pending one. -/
theorem request_accepted (h : BlockIf.Inv b) (hfree : b.bc.bcFreeq ≠ []) (op : BlockIf.Blockop)
    (breq : Nat) :
    ∃ b' be, BlockIf.step b (.request op breq) = some (.ok, b') ∧
      b'.bc.bcPendq = b.bc.bcPendq ++ [be] ∧ b'.bc.bcBusyq = b.bc.bcBusyq ∧
      be ∉ b.bc.bcPendq ∧ be ∉ b.bc.bcBusyq ∧ (b'.bc.bcReqs be).beReq = some breq ∧
      (∀ i, i ≠ be → b'.bc.bcReqs i = b.bc.bcReqs i) ∧ b'.cancelling = b.cancelling ∧
      b'.bc.bcClosing = b.bc.bcClosing ∧
      (b'.worker = b.worker ∨ b'.worker = b.worker.signal) := by
  cases hq : b.bc.bcFreeq with
  | nil => exact absurd hq hfree
  | cons be freeq =>
    have hin : be ∈ b.bc.bcFreeq := by
      rw [hq]
      exact List.mem_cons_self
    have hnp : be ∉ b.bc.bcPendq := h.queues.status.not_pend (.inl hin)
    have hnb : be ∉ b.bc.bcBusyq := fun hb => h.queues.status.not_free (.inr hb) hin
    have hst := h.queues.status.free be hin
    simp only [BlockIf.step, BlockIf.blockifRequest, BlockIf.blockifEnqueue, hq, hst, ne_eq,
      reduceCtorEq, not_false_eq_true, if_true, Option.map_some]
    refine ⟨_, be, rfl, rfl, rfl, hnp, hnb, ?_, fun i hi => BlockIf.insertElem_ne hi, rfl, rfl, ?_⟩
    · rw [BlockIf.insertElem_same]
    · dsimp only
      split
      · exact .inr rfl
      · exact .inl rfl

/-- The worker takes a pending element, or goes to sleep with nothing pending. -/
theorem dequeue_cases (h : BlockIf.Inv b) (hopen : b.bc.bcClosing = false)
    (hs : BlockIf.next b .dequeue = some b') :
    b.worker = .ready ∧ b.bc.bcBusyq = [] ∧ BlockIf.Inv b' ∧ b'.cancelling = b.cancelling ∧
      ((b' = { b with worker := .waiting } ∧ b.bc.bcPendq = []) ∨
        ∃ be ∈ b.bc.bcPendq,
          b' = { b with bc := BlockIf.takeElem b.bc be b.bc.bcBtid, worker := .proc be }) := by
  have hinv : BlockIf.Inv b' := h.preserved (by trivial) hs
  obtain ⟨hadm, err, hstep⟩ := BlockIf.next_eq_some hs
  simp only [BlockIf.admissible, decide_eq_true_eq] at hadm
  have hbusy : b.bc.bcBusyq = [] := by
    have hw := h.worker
    rw [hadm.1] at hw
    exact hw
  unfold BlockIf.step BlockIf.workerDequeue at hstep
  rcases h.queues.dequeue b.bc.bcBtid with ⟨hdeq, hempty⟩ | ⟨be, hbe, hdeq⟩
  · rw [hdeq] at hstep
    simp only [hopen, Option.map_some] at hstep
    cases hstep
    exact ⟨hadm.1, hbusy, hinv, rfl, .inl ⟨rfl, hempty hbusy⟩⟩
  · rw [hdeq] at hstep
    simp only [Option.map_some] at hstep
    cases hstep
    exact ⟨hadm.1, hbusy, hinv, rfl, .inr ⟨be, hbe, rfl⟩⟩

theorem procDone_cases (h : BlockIf.Inv b) (hs : BlockIf.next b .procDone = some b') :
    ∃ be, b.worker = .proc be ∧ BlockIf.Inv b' ∧
      b' = { b with
        bc := { b.bc with
          bcReqs := Function.update b.bc.bcReqs be { b.bc.bcReqs be with beStatus := .done } }
        worker := .finish be } := by
  have hinv : BlockIf.Inv b' := h.preserved (by trivial) hs
  obtain ⟨hadm, err, hstep⟩ := BlockIf.next_eq_some hs
  cases hw : b.worker with
  | proc be =>
    simp only [BlockIf.step, hw] at hstep
    cases hstep
    exact ⟨be, rfl, hinv, rfl⟩
  | ready | finish _ | waiting | exited =>
    simp only [BlockIf.step, hw] at hstep
    cases hstep

theorem complete_cases (h : BlockIf.Inv b) (hs : BlockIf.next b .complete = some b') :
    ∃ be, b.worker = .finish be ∧ BlockIf.Inv b' ∧
      b' = { b with bc := BlockIf.blockifComplete b.bc b.req be, worker := .ready } ∧
      b'.bc.bcPendq = b.bc.bcPendq ∧ b'.bc.bcBusyq = [] ∧
      ∀ i ∈ b.bc.bcPendq, (b'.bc.bcReqs i).beReq = (b.bc.bcReqs i).beReq := by
  have hinv : BlockIf.Inv b' := h.preserved (by trivial) hs
  obtain ⟨hadm, err, hstep⟩ := BlockIf.next_eq_some hs
  cases hw : b.worker with
  | finish be =>
    simp only [BlockIf.step, hw] at hstep
    cases hstep
    have hnone : b.cancelling = none := by
      simpa only [BlockIf.admissible, hw, decide_eq_true_eq] using hadm
    have hworker := h.worker
    rw [hw] at hworker
    refine ⟨be, rfl, hinv, rfl, (h.complete hw hnone).2, hinv.worker, fun i hi => ?_⟩
    have hne : i ≠ be := by
      intro he
      exact h.queues.status.not_pend (.inr (by simp [hworker.1])) (he ▸ hi)
    simp only [BlockIf.blockifComplete, BlockIf.releaseElem, Function.update_of_ne hne,
      BlockIf.wake_beReq]
    unfold BlockIf.removeElem
    split
    · rfl
    · rfl
  | ready | proc _ | waiting | exited =>
    simp only [BlockIf.step, hw] at hstep
    cases hstep

end Elements

/-! ## The invariant -/

def handlerHead : Handler → List (Option UInt16)
  | .idle | .loop => []
  | .proc idx _ => [some idx]

structure Inv (s : State) : Prop where
  ok : s.failed = none
  kept : s.refilled = false
  ring : RingInv vtblkRingszLog s.ring
  heads : RingHeads s.ring s.outstanding
  proper : ∀ head ∈ s.outstanding, head.toNat < vtblkRingsz
  blk : BlockIf.Inv s.blk
  noCancel : s.blk.cancelling = none
  notClosing : s.blk.bc.bcClosing = false
  /-- Every chain held has one owner. -/
  owners : (heldHeads s.ring).Perm (reqHeads s.blk.bc (waiting s) ++ handlerHead s.handler)
  called : s.called = true → ∃ be, s.blk.worker = .finish be
  saved : s.saveUsed = s.ring.vq.vqUsed.vuIdx
  completions : s.completions.map (·.idx) = s.ring.released.map (·.1)

theorem Initial.inv {s : State} (h : Initial s) : Inv s := by
  obtain ⟨btid, req, hblk⟩ := h.blk
  obtain ⟨hp, hf, ht, hh, hrel, hre⟩ := h.ring.histories
  have hheld : heldHeads s.ring = [] := by rw [heldHeads, hh, List.map_nil]
  have hwait : waiting s = [] := by
    rw [waiting, hblk, h.called]
    rfl
  exact {
    ok := h.failed
    kept := h.refilled
    ring := h.ring.inv
    heads := by
      refine ⟨?_, ?_, ?_⟩
      · rw [ht, hheld, hrel]
        exact List.Perm.refl _
      · rw [h.outstanding, hf, hp, hheld, hrel, List.drop_nil, List.drop_nil]
        exact List.Perm.refl _
      · rw [h.outstanding]
        exact List.nodup_nil
    proper := by
      rw [h.outstanding]
      exact fun _ hmem => absurd hmem List.not_mem_nil
    blk := by
      rw [hblk]
      exact BlockIf.inv_open btid req
    noCancel := by rw [hblk]; rfl
    notClosing := by rw [hblk]; rfl
    owners := by
      rw [hheld, hwait, h.handler]
      exact List.Perm.refl _
    called := fun hc => absurd (h.called.symm.trans hc) (by decide)
    saved := h.saveUsed.trans h.ring.vuIdx.symm
    completions := by rw [h.completions, hrel]; rfl }

def handlerWork : Handler → Nat
  | .idle => 0
  | .loop => 1
  | .proc .. => 7

def workerWork (called : Bool) : BlockIf.Worker → Nat
  | .ready => 1
  | .proc _ => 4
  | .finish _ => if called then 2 else 3
  | .waiting | .exited => 0

/-- Steps the device has before it: to take a chain, hand it in, and see it through the worker. -/
def work (s : State) : Nat :=
  7 * (s.ring.published.length - s.ring.taken.length) + 4 * s.blk.bc.bcPendq.length +
    handlerWork s.handler + workerWork s.called s.blk.worker

theorem workerWork_signal (called : Bool) (w : BlockIf.Worker) :
    workerWork called w.signal ≤ workerWork called w + 1 := by
  cases w with
  | waiting => exact le_rfl
  | ready | proc be | finish be | exited => exact Nat.le_succ _

section Steps
variable {s : State}

/-- A head that is held is a proper index. -/
theorem Inv.waiting_some (h : Inv s) {be : Nat} (hbe : be ∈ waiting s) :
    ∃ breq, (s.blk.bc.bcReqs be).beReq = some breq ∧
      some (UInt16.ofNat breq) ∈ heldHeads s.ring := by
  have hmem : (s.blk.bc.bcReqs be).beReq.map UInt16.ofNat ∈ heldHeads s.ring := by
    rw [h.owners.mem_iff]
    exact List.mem_append_left _ (List.mem_map.mpr ⟨be, hbe, rfl⟩)
  cases hreq : (s.blk.bc.bcReqs be).beReq with
  | some breq =>
    rw [hreq] at hmem
    exact ⟨breq, rfl, hmem⟩
  | none =>
    rw [hreq] at hmem
    obtain ⟨pos, hpos, hnone⟩ := List.mem_map.mp hmem
    have hlt := h.ring.heldTaken pos hpos
    rw [List.getElem?_eq_getElem hlt] at hnone
    cases hnone

/-- With a chain in the handler's hands, an element is free. -/
theorem Inv.free (h : Inv s) {idx : UInt16} {type : BitVec 32} (hh : s.handler = .proc idx type) :
    s.blk.bc.bcFreeq ≠ [] := by
  intro hempty
  have hheld : s.ring.held.length ≤ 2 ^ vtblkRingszLog := by
    obtain ⟨h1, h2, h3, h4⟩ := h.ring.lengths
    have hc := h.ring.heldCount
    omega
  have hown : s.ring.held.length = (waiting s).length + 1 := by
    have hlen := h.owners.length_eq
    rw [hh] at hlen
    simpa only [heldHeads, reqHeads, handlerHead, List.length_map, List.length_append,
      List.length_cons, List.length_nil] using hlen
  have hall := h.blk.queues.once.length_eq
  have hbusy : s.blk.bc.bcBusyq.length ≤ 1 := by
    have hw := h.blk.worker
    cases hworker : s.blk.worker with
    | ready =>
      rw [hworker] at hw
      rw [show s.blk.bc.bcBusyq = [] from hw]
      decide
    | proc be | finish be | waiting | exited =>
      rw [hworker] at hw
      rw [hw.1]
      simp
  have hpend : s.blk.bc.bcPendq.length ≤ (waiting s).length := by
    rw [waiting, List.length_append]
    omega
  simp only [hempty, List.nil_append, List.length_append, List.length_range,
    BlockIf.blockifMaxreq, BlockIf.blockifNumthr] at hall
  simp only [vtblkRingszLog] at hheld
  omega

theorem Inv.guest (h : Inv s) {e : Virtio.Event} {ring : Proto} {out : List UInt16}
    (hn : s.ring.next e = some ring) (hheads : RingHeads ring out)
    (hproper : ∀ head ∈ out, head.toNat < vtblkRingsz)
    (hheld : heldHeads ring = heldHeads s.ring) (hused : ring.vq.vqUsed = s.ring.vq.vqUsed)
    (hrel : ring.released = s.ring.released) :
    Inv { s with ring := ring, outstanding := out } :=
  { h with
    ring := h.ring.next (by decide) hn
    heads := hheads
    proper := hproper
    owners := by
      change (heldHeads ring).Perm _
      rw [hheld]
      exact h.owners
    saved := by
      change s.saveUsed = ring.vq.vqUsed.vuIdx
      rw [hused]
      exact h.saved
    completions := by
      change _ = ring.released.map (·.1)
      rw [hrel]
      exact h.completions }

/-- A chain held is returned to the guest. -/
theorem Inv.done (h : Inv s) {idx : UInt16} (hmem : some idx ∈ heldHeads s.ring) (err : Errno)
    {handler : Handler} {called : Bool}
    (hown : (some idx :: (reqHeads s.blk.bc (s.blk.bc.bcPendq ++
        if called then [] else s.blk.bc.bcBusyq) ++ handlerHead handler)).Perm
      (reqHeads s.blk.bc (waiting s) ++ handlerHead s.handler))
    (hcalled : called = true → ∃ be, s.blk.worker = .finish be) :
    Inv { pciVtblkDoneLocked s idx err with handler := handler, called := called } := by
  obtain ⟨pos, hpos, htaken, hn⟩ := relchain_next 1 hmem
  have howners : (heldHeads (relchain s.ring idx 1)).Perm (reqHeads s.blk.bc (s.blk.bc.bcPendq ++
      if called then [] else s.blk.bc.bcBusyq) ++ handlerHead handler) :=
    (((heldHeads_relchain 1 hmem).symm.trans h.owners).trans hown.symm).cons_inv
  have hcompl : (pciVtblkDoneLocked s idx err).completions.map (·.idx) =
      (relchain s.ring idx 1).released.map (·.1) := by
    simp only [pciVtblkDoneLocked, relchain, List.map_append, List.map_cons, List.map_nil,
      h.completions]
  exact { h with
    ring := h.ring.next (by decide) hn
    heads := h.heads.relchain h.ring hmem
    owners := howners
    called := hcalled
    saved := rfl
    completions := hcompl }

/-- The head taken is the next one published, and its request is filled in. -/
theorem Inv.take_eq (h : Inv s) (hhas : Virtio.vqHasDescs s.ring.vq = true) {m : Memory}
    (hwf : WellFormed s m) :
    ∃ vq idx p, s.ring.published[s.ring.taken.length]? = some idx ∧
      vq.vqUsed = s.ring.vq.vqUsed ∧
      s.ring.next (.getchain m.toGuestMem vtblkArgs) = some (takeChain s.ring vq idx) ∧
      procTake s m = fillReq { s with ring := takeChain s.ring vq idx } idx p := by
  have hlt := (h.ring.hasDescs_iff (by decide)).mp hhas
  obtain ⟨hpidx, hvq⟩ := h.ring.getchain_next (by decide) m.toGuestMem vtblkArgs hlt
  unfold WellFormed at hwf
  cases hparse : parse m (Virtio.vqGetchain m.toGuestMem vtblkArgs s.ring.vq) with
  | error a =>
    rw [hparse] at hwf
    cases hwf
  | ok p =>
    refine ⟨(Virtio.vqGetchain m.toGuestMem vtblkArgs s.ring.vq).vq,
      s.ring.published[s.ring.taken.length], p, List.getElem?_eq_getElem hlt, ?_, ?_, ?_⟩
    · rw [hvq]
    · simp only [Proto.next, hpidx]
      rfl
    · simp only [procTake, hpidx, hparse]

/-- No element that waits for its callback has the request that is filled in. -/
theorem Inv.not_waiting (h : Inv s) {idx : UInt16} (hnew : some idx ∉ heldHeads s.ring) {be : Nat}
    (hbe : be ∈ waiting s) : (s.blk.bc.bcReqs be).beReq ≠ some idx.toNat := by
  intro hreq
  obtain ⟨breq, hsome, hmem⟩ := h.waiting_some hbe
  rw [hreq] at hsome
  obtain rfl := Option.some.inj hsome
  rw [UInt16.ofNat_toNat] at hmem
  exact hnew hmem

theorem Inv.take (h : Inv s) (hloop : s.handler = .loop)
    (hhas : Virtio.vqHasDescs s.ring.vq = true) {m : Memory} (hwf : WellFormed s m) :
    Inv (procTake s m) ∧ work (procTake s m) < work s := by
  obtain ⟨vq, idx, p, hidx, hused, hnext, heq⟩ := h.take_eq hhas hwf
  obtain ⟨hheads, hnew⟩ := h.heads.take h.ring hidx vq
  have hnone : ((waiting s).any fun be =>
      (s.blk.bc.bcReqs be).beReq = some idx.toNat) = false := by
    rw [List.any_eq_false]
    intro be hbe
    simpa using h.not_waiting hnew hbe
  have hkept : (s.refilled || (waiting s).any fun be =>
      (s.blk.bc.bcReqs be).beReq = some idx.toNat) = false := by
    rw [h.kept, hnone]
    rfl
  have hown := h.owners
  rw [hloop, handlerHead, List.append_nil] at hown
  have hlt : s.ring.taken.length < s.ring.published.length :=
    (h.ring.hasDescs_iff (by decide)).mp hhas
  rw [heq]
  constructor
  · exact { h with
      kept := hkept
      ring := h.ring.next (by decide) hnext
      heads := hheads
      blk := ⟨h.blk.queues.refill fun be hbe hreq =>
        absurd hreq (h.not_waiting hnew (List.mem_append_left _ hbe)), h.blk.worker, h.blk.cancelling⟩
      owners := by
        change (heldHeads (takeChain s.ring vq idx)).Perm
          (reqHeads s.blk.bc (waiting s) ++ [some idx])
        rw [heldHeads_take h.ring]
        exact (hown.cons _).trans (List.perm_append_singleton _ _).symm
      saved := h.saved.trans (congrArg _ hused).symm
      completions := h.completions }
  · simp only [work, fillReq, takeChain, hloop, handlerWork, List.length_append, List.length_cons,
      List.length_nil]
    omega

theorem Inv.submit (h : Inv s) {idx : UInt16} {type : BitVec 32}
    (hh : s.handler = .proc idx type) :
    Inv (procSubmit s idx type) ∧ work (procSubmit s idx type) < work s := by
  have hown := h.owners
  rw [hh] at hown
  have hmem : some idx ∈ heldHeads s.ring := by
    rw [hown.mem_iff]
    exact List.mem_append_right _ List.mem_cons_self
  unfold procSubmit
  split
  · refine ⟨h.done hmem (immediateErrno type) ?_ h.called, ?_⟩
    · rw [hh]
      change (some idx :: (reqHeads s.blk.bc (waiting s) ++ [])).Perm _
      rw [List.append_nil]
      exact (List.perm_append_singleton _ _).symm
    · simp only [work, pciVtblkDoneLocked, relchain, hh, handlerWork]
      omega
  · rename_i op _
    obtain ⟨b', be, hstep, hpend, hbusy, hnp, hnb, hreq, hsame, hcancel, hclosing, hworker⟩ :=
      request_accepted h.blk (h.free hh) op idx.toNat
    have hinv : BlockIf.Inv b' := by
      obtain ⟨err, b'', hstep', hinv⟩ := h.blk.request h.notClosing op idx.toNat
      rw [hstep] at hstep'
      cases hstep'
      exact hinv
    have hold : ∀ l : List Nat, be ∉ l → reqHeads b'.bc l = reqHeads s.blk.bc l := by
      intro l hl
      refine reqHeads_congr fun i hi => ?_
      rw [hsame i fun he => hl (he ▸ hi)]
    have hnew : reqHeads b'.bc [be] = [some idx] := by
      rw [reqHeads, List.map_cons, List.map_nil, hreq, Option.map_some, UInt16.ofNat_toNat]
    rw [hstep]
    constructor
    · exact { h with
        blk := hinv
        noCancel := hcancel.trans h.noCancel
        notClosing := hclosing.trans h.notClosing
        owners := by
          change (heldHeads s.ring).Perm (reqHeads b'.bc (b'.bc.bcPendq ++
            if s.called then [] else b'.bc.bcBusyq) ++ [])
          rw [hpend, hbusy, List.append_nil, reqHeads_append, reqHeads_append, hnew, hold _ hnp,
            hold _ (by split <;> simp [hnb])]
          refine hown.trans ?_
          rw [waiting, reqHeads_append, handlerHead, List.append_assoc, List.append_assoc]
          exact List.perm_append_comm.append_left _
        called := by
          intro hc
          obtain ⟨i, hi⟩ := h.called hc
          refine ⟨i, ?_⟩
          rcases hworker with hw | hw
          · exact hw.trans hi
          · exact hw.trans (by rw [hi]; rfl) }
    · have hsig := workerWork_signal s.called s.blk.worker
      simp only [work, hh, handlerWork, hpend, List.length_append, List.length_cons,
        List.length_nil]
      rcases hworker with hw | hw
      · rw [hw]
        omega
      · rw [hw]
        omega

theorem Inv.dequeue (h : Inv s) {b' : BlockIf.State}
    (hs : BlockIf.next s.blk .dequeue = some b') :
    Inv { s with blk := b' } ∧ work { s with blk := b' } < work s := by
  obtain ⟨hready, hbusy, hinv, hcancel, hcase⟩ := dequeue_cases h.blk h.notClosing hs
  have hnot : s.called = false := by
    cases hc : s.called with
    | false => rfl
    | true =>
      obtain ⟨be, hbe⟩ := h.called hc
      rw [hready] at hbe
      cases hbe
  have hown := h.owners
  rw [waiting, hnot, if_neg (by decide), hbusy, List.append_nil] at hown
  rcases hcase with ⟨rfl, hpend⟩ | ⟨be, hbe, rfl⟩
  · constructor
    · exact { h with
        blk := hinv
        called := fun hc => absurd (hnot.symm.trans hc) (by decide) }
    · simp only [work, hready, workerWork]
      omega
  · have hreqs : ∀ l, reqHeads (BlockIf.takeElem s.blk.bc be s.blk.bc.bcBtid) l =
        reqHeads s.blk.bc l := by
      intro l
      refine reqHeads_congr fun i _ => ?_
      by_cases hi : i = be
      · rw [hi, BlockIf.takeElem_same]
      · rw [BlockIf.takeElem_ne hi]
    constructor
    · exact { h with
        blk := hinv
        owners := by
          change (heldHeads s.ring).Perm (reqHeads (BlockIf.takeElem s.blk.bc be s.blk.bc.bcBtid)
            (s.blk.bc.bcPendq.erase be ++ if s.called then [] else s.blk.bc.bcBusyq ++ [be]) ++ _)
          rw [hreqs, hnot, if_neg (by decide), hbusy, List.nil_append]
          refine hown.trans (List.Perm.append_right _ (reqHeads_perm ?_))
          exact (List.perm_cons_erase hbe).trans (List.perm_append_singleton _ _).symm
        called := fun hc => absurd (hnot.symm.trans hc) (by decide) }
    · have hpos := List.length_pos_of_mem hbe
      simp only [work, BlockIf.takeElem, hready, workerWork, List.length_erase_of_mem hbe]
      omega

theorem Inv.procDone (h : Inv s) {b' : BlockIf.State}
    (hs : BlockIf.next s.blk .procDone = some b') :
    Inv { s with blk := b' } ∧ work { s with blk := b' } < work s := by
  obtain ⟨be, hproc, hinv, rfl⟩ := procDone_cases h.blk hs
  have hnot : s.called = false := by
    cases hc : s.called with
    | false => rfl
    | true =>
      obtain ⟨i, hi⟩ := h.called hc
      rw [hproc] at hi
      cases hi
  constructor
  · exact { h with
      blk := hinv
      owners := by
        refine h.owners.trans (List.Perm.of_eq ?_)
        refine congrArg (· ++ _) (reqHeads_congr fun i _ => ?_).symm
        by_cases hi : i = be
        · subst hi
          simp only [Function.update_self]
        · simp only [Function.update_of_ne hi]
      called := fun _ => ⟨be, rfl⟩ }
  · simp only [work, hproc, workerWork, hnot, Bool.false_eq_true, if_false]
    omega

theorem Inv.complete (h : Inv s) (hc : s.called = true) {b' : BlockIf.State}
    (hs : BlockIf.next s.blk .complete = some b') :
    Inv { s with blk := b', called := false } ∧ work { s with blk := b', called := false } < work s := by
  obtain ⟨be, hfinish, hinv, heq, hpend, hbusy, hreqs⟩ := complete_cases h.blk hs
  have hown := h.owners
  rw [waiting, hc, if_pos rfl, List.append_nil] at hown
  constructor
  · exact { h with
      blk := hinv
      noCancel := by
        rw [heq]
        exact h.noCancel
      notClosing := by
        rw [heq]
        change (BlockIf.removeElem s.blk.bc be).bcClosing = false
        unfold BlockIf.removeElem
        split
        · exact h.notClosing
        · exact h.notClosing
      owners := by
        change (heldHeads s.ring).Perm (reqHeads b'.bc (b'.bc.bcPendq ++ b'.bc.bcBusyq) ++ _)
        rw [hpend, hbusy, List.append_nil, reqHeads_congr hreqs]
        exact hown
      called := nofun }
  · have hworker : b'.worker = .ready := by rw [heq]
    simp only [work, hpend, hworker, hfinish, workerWork, hc, if_true]
    omega

theorem Inv.callback (h : Inv s) {be breq : Nat} (hw : s.blk.worker = .finish be)
    (hc : s.called = false) (hreq : (s.blk.bc.bcReqs be).beReq = some breq) (err : Errno) :
    Inv { pciVtblkDoneLocked s (UInt16.ofNat breq) err with called := true } ∧
      work { pciVtblkDoneLocked s (UInt16.ofNat breq) err with called := true } < work s := by
  have hbusy : s.blk.bc.bcBusyq = [be] := by
    have hworker := h.blk.worker
    rw [hw] at hworker
    exact hworker.1
  have hone : reqHeads s.blk.bc [be] = [some (UInt16.ofNat breq)] := by
    rw [reqHeads, List.map_cons, List.map_nil, hreq, Option.map_some]
  have hwait : waiting s = s.blk.bc.bcPendq ++ [be] := by
    rw [waiting, hc, if_neg (by decide), hbusy]
  have hmem : some (UInt16.ofNat breq) ∈ heldHeads s.ring := by
    rw [h.owners.mem_iff, hwait, reqHeads_append, hone]
    simp
  refine ⟨h.done hmem err ?_ fun _ => ⟨be, hw⟩, ?_⟩
  · rw [hwait, reqHeads_append s.blk.bc _ [be], hone, if_pos rfl, List.append_nil]
    exact (List.perm_append_singleton _ _).symm.append_right _
  · simp only [work, pciVtblkDoneLocked, relchain, hw, workerWork, hc, Bool.false_eq_true, if_false,
      if_true]
    omega

theorem guestNext_eq_some {e : Virtio.Event} {out : List UInt16} {t : State}
    (hs : guestNext s e out = some t) :
    ∃ ring, s.ring.next e = some ring ∧ t = { s with ring := ring, outstanding := out } := by
  obtain ⟨ring, hring, rfl⟩ := Option.map_eq_some_iff.mp hs
  exact ⟨ring, hring, rfl⟩

/-- One step of anyone, and the device's own bring it forward. -/
theorem Inv.next (h : Inv s) {op : Op} {t : State} (hs : system.step s op t) :
    Inv t ∧ (op.isDevice = true → work t < work s) := by
  obtain ⟨hok, hs⟩ := hs
  change VirtioBlock.next s op = some t at hs
  unfold VirtioBlock.next at hs
  rw [if_neg (by rw [h.ok]; decide)] at hs
  cases op with
  | fill head =>
    dsimp only at hs
    split at hs
    · cases hs
    · rename_i hnew
      obtain ⟨ring, hn, rfl⟩ := guestNext_eq_some hs
      have hn' := hn
      obtain ⟨hroom, ⟨⟩⟩ := Option.ite_none_right_eq_some.mp hn'
      have hproper : ∀ x ∈ head :: s.outstanding, x.toNat < vtblkRingsz := by
        intro x hx
        rcases List.mem_cons.mp hx with rfl | hx
        · have hlt := UInt16.lt_iff_toNat_lt.mp hroom.1
          rwa [h.ring.qsizeNat (by decide)] at hlt
        · exact h.proper x hx
      exact ⟨h.guest hn (h.heads.fill hnew _) hproper rfl rfl rfl, fun hdev => by cases hdev⟩
  | advance n =>
    obtain ⟨ring, hn, rfl⟩ := guestNext_eq_some hs
    have hn' := hn
    obtain ⟨-, ⟨⟩⟩ := Option.ite_none_right_eq_some.mp hn'
    exact ⟨h.guest hn (h.heads.advance h.ring n _) h.proper rfl rfl rfl, fun hdev => by cases hdev⟩
  | reap =>
    obtain ⟨ring, hn, rfl⟩ := guestNext_eq_some hs
    have hn' := hn
    obtain ⟨hne, ⟨⟩⟩ := Option.ite_none_right_eq_some.mp hn'
    exact ⟨h.guest hn (h.heads.reap h.ring (by decide) hne)
      (fun head hmem => h.proper head (List.mem_of_mem_erase hmem)) rfl rfl rfl, fun hdev => by cases hdev⟩
  | notify =>
    dsimp only at hs
    split at hs
    · rename_i hidle
      cases hs
      have hown := h.owners
      rw [hidle] at hown
      exact ⟨{ h with owners := hown }, fun hdev => by cases hdev⟩
    · cases hs
  | take m =>
    dsimp only at hs
    split at hs
    · rename_i hpre
      cases hs
      obtain ⟨hinv, hlt⟩ := h.take hpre.1 hpre.2 hok
      exact ⟨hinv, fun _ => hlt⟩
    · cases hs
  | submit =>
    dsimp only at hs
    split at hs
    · rename_i idx type hh
      cases hs
      obtain ⟨hinv, hlt⟩ := h.submit hh
      exact ⟨hinv, fun _ => hlt⟩
    · cases hs
  | leave =>
    dsimp only at hs
    split at hs
    · rename_i hpre
      cases hs
      have hown := h.owners
      rw [hpre.1] at hown
      refine ⟨{ h with owners := hown }, fun _ => ?_⟩
      simp only [work, hpre.1, handlerWork]
      omega
    · cases hs
  | dequeue =>
    obtain ⟨b', hb, rfl⟩ := Option.map_eq_some_iff.mp hs
    obtain ⟨hinv, hlt⟩ := h.dequeue hb
    exact ⟨hinv, fun _ => hlt⟩
  | procDone =>
    obtain ⟨b', hb, rfl⟩ := Option.map_eq_some_iff.mp hs
    obtain ⟨hinv, hlt⟩ := h.procDone hb
    exact ⟨hinv, fun _ => hlt⟩
  | callback err =>
    dsimp only at hs
    split at hs
    · rename_i be hw
      split at hs
      · rename_i hpre
        have hmem : be ∈ waiting s := by
          have hworker := h.blk.worker
          rw [hw] at hworker
          rw [waiting, hpre.1, hworker.1]
          simp
        obtain ⟨breq, hreq, -⟩ := h.waiting_some hmem
        rw [hreq] at hs
        cases hs
        obtain ⟨hinv, hlt⟩ := h.callback hw hpre.1 hreq err
        exact ⟨hinv, fun _ => hlt⟩
      · cases hs
    · cases hs
  | complete =>
    dsimp only at hs
    split at hs
    · rename_i hc
      obtain ⟨b', hb, rfl⟩ := Option.map_eq_some_iff.mp hs
      obtain ⟨hinv, hlt⟩ := h.complete hc hb
      exact ⟨hinv, fun _ => hlt⟩
    · cases hs
  | wakeup =>
    obtain ⟨b', hb, rfl⟩ := Option.map_eq_some_iff.mp hs
    have hinv : BlockIf.Inv b' := h.blk.preserved (by trivial) hb
    obtain ⟨hadm, err, hstep⟩ := BlockIf.next_eq_some hb
    simp only [BlockIf.admissible, decide_eq_true_eq] at hadm
    cases hstep
    refine ⟨{ h with blk := hinv, called := fun hc => ?_ }, fun hdev => by cases hdev⟩
    obtain ⟨be, hbe⟩ := h.called hc
    rw [hadm] at hbe
    cases hbe

end Steps

theorem inv_inductive : system.Inductive Inv where
  init _ hs := Initial.inv hs
  step _ _ _ h hs := (h.next hs).1

/-! ## The device gets everything done -/

/-- A flush: a header and a status byte. -/
def flushMem (vq : Virtio.VqueueInfo) (head : UInt16) : Memory where
  paddrGuest2host _ _ := some 0
  descAt addr :=
    if addr = Virtio.descSlot vq.vqDesc head.toNat then
      ⟨0, 16, Virtio.vringDescFNext, if head = 0 then 1 else 0⟩
    else ⟨0, 1, vringDescFWrite, 0⟩
  hdrAt _ := ⟨vbhOpFlush, 0⟩

theorem flushMem_chain (vq : Virtio.VqueueInfo) (head : UInt16) (hq : vq.vqQsize.toNat = vtblkRingsz)
    (hh : head.toNat < vtblkRingsz) :
    Virtio.directChain (flushMem vq head).toGuestMem vtblkArgs vq Virtio.vqMaxDescriptors 0
        head.toNat ⟨[], []⟩ =
      (⟨[⟨some 0, 16⟩, ⟨some 0, 1⟩], [Virtio.vringDescFNext, vringDescFWrite]⟩, .ok 2) := by
  have hother : Virtio.descSlot vq.vqDesc (if head = 0 then 1 else 0 : UInt16).toNat ≠
      Virtio.descSlot vq.vqDesc head.toNat := by
    unfold Virtio.descSlot
    split
    · rename_i h0
      rw [h0]
      simp
    · rename_i h0
      have hne : head.toNat ≠ 0 := fun hz => h0 (UInt16.toNat_inj.mp hz)
      simp only [UInt16.toNat_zero]
      omega
  have hlt : ¬ (if head = 0 then 1 else 0 : UInt16).toNat ≥ vtblkRingsz := by
    split <;> decide
  have hfirst : (flushMem vq head).descAt (Virtio.descSlot vq.vqDesc head.toNat) =
      ⟨0, 16, Virtio.vringDescFNext, if head = 0 then 1 else 0⟩ := if_pos rfl
  have hsecond : (flushMem vq head).descAt
      (Virtio.descSlot vq.vqDesc (if head = 0 then 1 else 0 : UInt16).toNat) =
      ⟨0, 1, vringDescFWrite, 0⟩ := if_neg hother
  have hdirect : ∀ flags : UInt16, flags = Virtio.vringDescFNext ∨ flags = vringDescFWrite →
      flags &&& Virtio.vringDescFIndirect = 0 := by
    intro flags hf
    rcases hf with rfl | rfl <;> decide
  rw [show Virtio.vqMaxDescriptors = 510 + 1 + 1 from rfl, Virtio.directChain, if_pos (by decide),
    if_neg (by rw [hq]; omega)]
  simp only [hfirst, Virtio.directDesc, hdirect _ (.inl rfl), if_true]
  rw [if_neg (by decide), Virtio.directChain, if_pos (by decide), if_neg (by rw [hq]; exact hlt)]
  simp only [hsecond, Virtio.directDesc, hdirect _ (.inr rfl), if_true]
  rw [if_pos (by decide)]
  rfl

theorem getchain_walk {g : Virtio.GuestMem} {a : Virtio.ChainArgs} {vq : Virtio.VqueueInfo}
    {head : UInt16} (h : (Virtio.vqGetchain g a vq).pidx = some head) :
    (Virtio.vqGetchain g a vq).out =
        (Virtio.directChain g a vq Virtio.vqMaxDescriptors 0 head.toNat ⟨[], []⟩).1 ∧
      (Virtio.vqGetchain g a vq).ret =
        (Virtio.directChain g a vq Virtio.vqMaxDescriptors 0 head.toNat ⟨[], []⟩).2 := by
  simp only [Virtio.vqGetchain] at h ⊢
  split at h
  · cases h
  · rename_i hne
    split at h
    · cases h
    · rename_i hle
      cases h
      rw [if_neg hne, if_neg hle]
      exact ⟨rfl, rfl⟩

/-- The next head can carry a well-formed request. -/
theorem Inv.exists_wellFormed {s : State} (h : Inv s)
    (hhas : Virtio.vqHasDescs s.ring.vq = true) : ∃ m, WellFormed s m := by
  have hlt := (h.ring.hasDescs_iff (by decide)).mp hhas
  have hproper : s.ring.published[s.ring.taken.length].toNat < vtblkRingsz := by
    apply h.proper
    have hmem : some s.ring.published[s.ring.taken.length] ∈ s.outstanding.map some := by
      rw [h.heads.covers.mem_iff, List.drop_eq_getElem_cons hlt]
      exact List.mem_append_left _ (List.mem_append_left _
        (List.mem_append_right _ List.mem_cons_self))
    simpa using hmem
  refine ⟨flushMem s.ring.vq s.ring.published[s.ring.taken.length], ?_⟩
  obtain ⟨hpidx, -⟩ := h.ring.getchain_next (by decide)
    (flushMem s.ring.vq s.ring.published[s.ring.taken.length]).toGuestMem vtblkArgs hlt
  obtain ⟨hout, hret⟩ := getchain_walk hpidx
  rw [flushMem_chain _ _ (h.ring.qsizeNat (by decide)) hproper] at hout hret
  unfold WellFormed parse
  rw [hout, hret]
  rfl

/-- As long as a chain is held, the device has a step to take. -/
theorem Inv.progress {s : State} (h : Inv s) (hheld : s.ring.held ≠ []) :
    ∃ op t, op.isDevice = true ∧ system.step s op t := by
  have henabled : ∀ op t, op.isDevice = true → VirtioBlock.next s op = some t →
      (∀ m, op ≠ .take m) → ∃ op t, op.isDevice = true ∧ system.step s op t := by
    intro op t hdev hs hm
    refine ⟨op, t, hdev, ?_, hs⟩
    cases op <;> first | trivial | exact absurd rfl (hm _)
  have hrun : s.failed.isSome ≠ true := by
    rw [h.ok]
    decide
  cases hh : s.handler with
  | proc idx type =>
    refine henabled .submit (procSubmit s idx type) rfl ?_ fun _ hop => by cases hop
    simp only [VirtioBlock.next, if_neg hrun, hh]
  | loop =>
    cases hhas : Virtio.vqHasDescs s.ring.vq with
    | true =>
      obtain ⟨m, hwf⟩ := h.exists_wellFormed hhas
      refine ⟨.take m, procTake s m, rfl, hwf, ?_⟩
      change VirtioBlock.next s (.take m) = _
      simp only [VirtioBlock.next, if_neg hrun, hh, hhas, and_self, if_true]
    | false =>
      refine henabled .leave { s with handler := .idle } rfl ?_ fun _ hop => by cases hop
      simp only [VirtioBlock.next, if_neg hrun, hh, hhas, and_self, if_true]
  | idle =>
    have hwait : waiting s ≠ [] := by
      intro hnil
      have hlen := h.owners.length_eq
      rw [hnil, hh] at hlen
      exact hheld (List.length_eq_zero_iff.mp
        (by simpa [heldHeads, reqHeads, handlerHead] using hlen))
    have hw := h.blk.worker
    cases hworker : s.blk.worker with
    | ready =>
      obtain ⟨b', hb, -⟩ := h.blk.dequeue hworker h.noCancel
      have hnext : BlockIf.next s.blk .dequeue = some b' :=
        BlockIf.next_of_step (by simp [BlockIf.admissible, hworker, h.noCancel])
          (by simp only [BlockIf.step, hb, Option.map_some]; rfl)
      refine henabled .dequeue { s with blk := b' } rfl ?_ fun _ hop => by cases hop
      simp only [VirtioBlock.next, if_neg hrun, hnext, Option.map_some]
    | proc be =>
      obtain ⟨b', hnext⟩ : ∃ b', BlockIf.next s.blk .procDone = some b' :=
        ⟨_, BlockIf.next_of_step (by simp [BlockIf.admissible, hworker])
          (by simp only [BlockIf.step, hworker]; rfl)⟩
      refine henabled .procDone { s with blk := b' } rfl ?_ fun _ hop => by cases hop
      simp only [VirtioBlock.next, if_neg hrun, hnext, Option.map_some]
    | finish be =>
      cases hc : s.called with
      | false =>
        rw [hworker] at hw
        have hmem : be ∈ waiting s := by
          rw [waiting, hc, hw.1]
          simp
        obtain ⟨breq, hreq, -⟩ := h.waiting_some hmem
        refine henabled (.callback .ok)
          { pciVtblkDoneLocked s (UInt16.ofNat breq) .ok with called := true } rfl ?_ fun _ hop => by cases hop
        simp only [VirtioBlock.next, if_neg hrun, hworker, hc, hh, hreq, and_self, if_true]
      | true =>
        obtain ⟨b', hnext⟩ : ∃ b', BlockIf.next s.blk .complete = some b' :=
          ⟨_, BlockIf.next_of_step (by simp [BlockIf.admissible, hworker, h.noCancel])
            (by simp only [BlockIf.step, hworker]; rfl)⟩
        refine henabled .complete { s with blk := b', called := false } rfl ?_ fun _ hop => by cases hop
        simp only [VirtioBlock.next, if_neg hrun, hc, hnext, Option.map_some, if_true]
    | waiting =>
      rw [hworker] at hw
      refine absurd ?_ hwait
      rw [waiting, hw.1, hw.2]
      simp
    | exited =>
      rw [hworker] at hw
      refine absurd ?_ hwait
      rw [waiting, hw.1, hw.2.1]
      simp

def freshRing : Proto where
  vq := ⟨64, Virtio.vqAlloc, 0, 0, ⟨0, fun _ => 0⟩, ⟨0, fun _ => ⟨0, 0⟩⟩⟩
  published := []
  filled := []
  taken := []
  held := []
  released := []
  seen := 0
  reaped := []

def freshDevice : State where
  ring := freshRing
  saveUsed := 0
  blk := BlockIf.blockifOpen 1 fun _ => ⟨[], 0⟩
  ioStatus := fun _ => 0
  handler := .idle
  called := false
  outstanding := []
  refilled := false
  failed := none
  completions := []

theorem freshDevice_initial : Initial freshDevice where
  ring := ⟨rfl, rfl, rfl, rfl, rfl, rfl, rfl, rfl, rfl, rfl, rfl, rfl⟩
  saveUsed := rfl
  blk := ⟨1, _, rfl⟩
  handler := rfl
  called := rfl
  outstanding := rfl
  refilled := rfl
  failed := rfl
  completions := rfl

end Xhyve.Emul.VirtioBlock
