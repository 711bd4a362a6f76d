import Mathlib.Order.Interval.Finset.Nat
import Xhyve.Lib.Transition
import Xhyve.Virtio.RingProtocol

/-!
# Suppressed interrupts

When the device has released chains, it may have to tell the driver. With event indices the driver says at
which used index it wants to hear, and the device compares three wrapping counters: that index, its used
index, and the used index when it last decided.
-/

namespace Xhyve.Virtio

open Lib

def virtioFNotifyOnEmpty : UInt32 := 0x1000000
def virtioRingFEventIdx : UInt32 := 0x20000000
def vringAvailFNoInterrupt : UInt16 := 1

/-- A queue with what else decides about its interrupts. -/
structure Notifier where
  vq : VqueueInfo
  vqSaveUsed : UInt16
  vaFlags : UInt16
  vsNegotiatedCaps : UInt32

/-- `VQ_USED_EVENT_IDX`: the entry behind the avail ring. -/
def Notifier.vqUsedEventIdx (s : Notifier) : UInt16 := s.vq.vqAvail.vaRing s.vq.vqQsize.toNat

/-- The queue afterwards, and whether `vq_interrupt` is called. -/
def vqEndchains (usedAllAvail : Bool) (s : Notifier) : Notifier × Bool :=
  let oldIdx := s.vqSaveUsed
  let newIdx := s.vq.vqUsed.vuIdx
  let intr :=
    if usedAllAvail ∧ s.vsNegotiatedCaps &&& virtioFNotifyOnEmpty ≠ 0 then true
    else if s.vsNegotiatedCaps &&& virtioRingFEventIdx ≠ 0 then
      decide (newIdx - s.vqUsedEventIdx - 1 < newIdx - oldIdx)
    else decide (newIdx ≠ oldIdx ∧ s.vaFlags &&& vringAvailFNoInterrupt = 0)
  ({ s with vqSaveUsed := newIdx }, intr)

/-! ## Calls -/

inductive Call
  | relchain (idx : UInt16) (iolen : UInt32)
  | endchains (usedAllAvail : Bool)
  /- The driver writes the avail ring, the event index behind it and its flags as it likes. -/
  | publish (avail : VringAvail) (vaFlags : UInt16)

/-- The queue with how many entries were released in all, how many of them before the device last decided, and how
often it interrupted. Both counts go on from the used index the queue starts with. -/
structure Told where
  q : Notifier
  total : Nat
  base : Nat
  interrupts : Nat

/-- Fewer than `2 ^ 16` entries are released between two decisions. -/
def Told.next (s : Told) : Call → Option Told
  | .relchain idx iolen => some { s with q := { s.q with vq := vqRelchain s.q.vq idx iolen }, total := s.total + 1 }
  | .endchains usedAllAvail =>
    if s.total - s.base < 2 ^ 16 then
      some { s with
        q := (vqEndchains usedAllAvail s.q).1
        base := s.total
        interrupts := s.interrupts + if (vqEndchains usedAllAvail s.q).2 then 1 else 0 }
    else none
  | .publish avail vaFlags =>
    some { s with q := { s.q with vq := { s.q.vq with vqAvail := avail }, vaFlags := vaFlags } }

/-- A queue of a device that has negotiated event indices, and not to be told of an empty ring. -/
structure Told.Fresh (s : Told) : Prop where
  eventIdx : s.q.vsNegotiatedCaps &&& virtioRingFEventIdx ≠ 0
  notOnEmpty : s.q.vsNegotiatedCaps &&& virtioFNotifyOnEmpty = 0
  saved : s.q.vqSaveUsed = s.q.vq.vqUsed.vuIdx
  total : s.total = s.q.vq.vqUsed.vuIdx.toNat
  base : s.base = s.total

def calls : System Told Call := .ofFn Told.Fresh Told.next

/-- The indices are the counts. -/
structure CountInv (s : Told) : Prop where
  eventIdx : s.q.vsNegotiatedCaps &&& virtioRingFEventIdx ≠ 0
  notOnEmpty : s.q.vsNegotiatedCaps &&& virtioFNotifyOnEmpty = 0
  saved : s.q.vqSaveUsed = UInt16.ofNat s.base
  used : s.q.vq.vqUsed.vuIdx = UInt16.ofNat s.total
  le : s.base ≤ s.total

section Inv
variable {s t : Told}

theorem endchains_next {usedAllAvail : Bool} (hs : s.next (.endchains usedAllAvail) = some t) :
    s.total - s.base < 2 ^ 16 ∧ t = { s with
      q := (vqEndchains usedAllAvail s.q).1
      base := s.total
      interrupts := s.interrupts + if (vqEndchains usedAllAvail s.q).2 then 1 else 0 } := by
  by_cases hfew : s.total - s.base < 2 ^ 16
  · rw [Told.next, if_pos hfew] at hs
    exact ⟨hfew, (Option.some.inj hs).symm⟩
  · rw [Told.next, if_neg hfew] at hs
    cases hs

theorem CountInv.next {c : Call} (hi : CountInv s) (hs : s.next c = some t) : CountInv t := by
  cases c with
  | relchain idx iolen =>
    cases hs
    refine ⟨hi.eventIdx, hi.notOnEmpty, hi.saved, ?_, Nat.le_succ_of_le hi.le⟩
    show s.q.vq.vqUsed.vuIdx + 1 = UInt16.ofNat (s.total + 1)
    rw [hi.used, UInt16.ofNat_add]
    rfl
  | endchains usedAllAvail =>
    obtain ⟨-, rfl⟩ := endchains_next hs
    exact ⟨hi.eventIdx, hi.notOnEmpty, hi.used, hi.used, Nat.le_refl _⟩
  | publish avail vaFlags =>
    cases hs
    exact ⟨hi.eventIdx, hi.notOnEmpty, hi.saved, hi.used, hi.le⟩

theorem count_inductive : calls.Inductive CountInv where
  init s hs := by
    have hofNat : UInt16.ofNat s.total = s.q.vq.vqUsed.vuIdx := by rw [hs.total, UInt16.ofNat_toNat]
    refine ⟨hs.eventIdx, hs.notOnEmpty, ?_, hofNat.symm, hs.base.le⟩
    rw [hs.saved, hs.base, hofNat]
  step _ _ _ hi hs := hi.next hs

end Inv

/-! ## The window -/

/-- The comparison of the three counters. -/
theorem crossed_iff (new event old : UInt16) :
    new - event - 1 < new - old ↔ (event - old).toNat < (new - old).toNat := by
  have hnew := new.toNat_lt
  have hevent := event.toNat_lt
  have hold := old.toNat_lt
  rw [UInt16.lt_iff_toNat_lt]
  simp only [UInt16.toNat_sub, UInt16.toNat_one]
  omega

/-- An index lies in the half-open window of `n` indices that begins with `lo`. -/
def InWindow (lo : UInt16) (n : Nat) (e : UInt16) : Prop := ∃ j < n, e = lo + UInt16.ofNat j

theorem inWindow_iff {lo e : UInt16} {n : Nat} (hn : n < 2 ^ 16) : InWindow lo n e ↔ (e - lo).toNat < n := by
  constructor
  · rintro ⟨j, hj, rfl⟩
    have hsub : lo + UInt16.ofNat j - lo = UInt16.ofNat j := by
      rw [UInt16.add_comm, UInt16.add_sub_cancel]
    rw [hsub, UInt16.toNat_ofNat_of_lt' (Nat.lt_trans hj hn)]
    exact hj
  · intro hlt
    refine ⟨(e - lo).toNat, hlt, ?_⟩
    rw [UInt16.ofNat_toNat, UInt16.add_comm, UInt16.sub_add_cancel]

/-- The distance between two counts that are not a whole turn apart. -/
theorem ofNat_sub_toNat {lo hi : Nat} (hle : lo ≤ hi) (hlt : hi - lo < 2 ^ 16) :
    (UInt16.ofNat hi - UInt16.ofNat lo).toNat = hi - lo := by
  rw [← UInt16.ofNat_sub hle, UInt16.toNat_ofNat_of_lt' hlt]

section Window
variable {s : Told}

theorem CountInv.intr_iff (hi : CountInv s) (usedAllAvail : Bool) (hfew : s.total - s.base < 2 ^ 16) :
    (vqEndchains usedAllAvail s.q).2 = true ↔ InWindow (UInt16.ofNat s.base) (s.total - s.base) s.q.vqUsedEventIdx := by
  have hempty : ¬ (usedAllAvail ∧ s.q.vsNegotiatedCaps &&& virtioFNotifyOnEmpty ≠ 0) := fun h => h.2 hi.notOnEmpty
  unfold vqEndchains
  dsimp only
  rw [if_neg hempty, if_pos hi.eventIdx, decide_eq_true_iff, crossed_iff, hi.used, hi.saved,
    ofNat_sub_toNat hi.le hfew, inWindow_iff hfew]

/-- How many of a range of counts have an index. -/
def passes (e : UInt16) (lo hi : Nat) : Nat := ((Finset.Ico lo hi).filter fun m => UInt16.ofNat m = e).card

theorem passes_add {e : UInt16} {lo mid hi : Nat} (h₁ : lo ≤ mid) (h₂ : mid ≤ hi) :
    passes e lo hi = passes e lo mid + passes e mid hi := by
  unfold passes
  rw [← Finset.Ico_union_Ico_eq_Ico h₁ h₂, Finset.filter_union, Finset.card_union_of_disjoint]
  exact Finset.disjoint_filter_filter (Finset.Ico_disjoint_Ico_consecutive lo mid hi)

/-- An index is passed in a short range once, if at all. -/
theorem passes_le_one {e : UInt16} {lo hi : Nat} (hlt : hi - lo < 2 ^ 16) : passes e lo hi ≤ 1 := by
  refine Finset.card_le_one.mpr fun m hm n hn => ?_
  obtain ⟨hm, hme⟩ := Finset.mem_filter.mp hm
  obtain ⟨hn, hne⟩ := Finset.mem_filter.mp hn
  rw [Finset.mem_Ico] at hm hn
  have heq : UInt16.ofNat m = UInt16.ofNat n := hme.trans hne.symm
  rcases Nat.le_total m n with hle | hle
  · exact (ofNat_eq_iff hle (by omega)).mp heq
  · exact ((ofNat_eq_iff hle (by omega)).mp heq.symm).symm

theorem passes_pos_iff {e : UInt16} {lo hi : Nat} : 0 < passes e lo hi ↔ InWindow (UInt16.ofNat lo) (hi - lo) e := by
  unfold passes InWindow
  rw [Finset.card_pos, Finset.filter_nonempty_iff]
  constructor
  · rintro ⟨m, hm, rfl⟩
    rw [Finset.mem_Ico] at hm
    refine ⟨m - lo, by omega, ?_⟩
    rw [← UInt16.ofNat_add, Nat.add_sub_cancel' hm.1]
  · rintro ⟨j, hj, rfl⟩
    refine ⟨lo + j, Finset.mem_Ico.mpr ⟨by omega, by omega⟩, UInt16.ofNat_add lo j⟩

/-- A decision counts how often the event index has been passed since the last one. -/
theorem CountInv.intr_eq_passes (hi : CountInv s) (usedAllAvail : Bool) (hfew : s.total - s.base < 2 ^ 16) :
    (if (vqEndchains usedAllAvail s.q).2 then 1 else 0) = passes s.q.vqUsedEventIdx s.base s.total := by
  have hle := passes_le_one (e := s.q.vqUsedEventIdx) hfew
  have hpos : 0 < passes s.q.vqUsedEventIdx s.base s.total ↔
      InWindow (UInt16.ofNat s.base) (s.total - s.base) s.q.vqUsedEventIdx := passes_pos_iff
  rw [← hi.intr_iff usedAllAvail hfew] at hpos
  split
  · rename_i hintr
    have := hpos.mpr hintr
    omega
  · rename_i hintr
    have : ¬ 0 < passes s.q.vqUsedEventIdx s.base s.total := fun h => hintr (hpos.mp h)
    omega

end Window

/-! ## Runs -/

/-- The driver leaves the event index of a queue as it is. -/
def keepsEvent (qsize : UInt16) (e : UInt16) : Call → Prop
  | .publish avail _ => avail.vaRing qsize.toNat = e
  | _ => True

section Runs
variable {s t : Told} {c : Call}

theorem next_qsize (hs : s.next c = some t) : t.q.vq.vqQsize = s.q.vq.vqQsize := by
  cases c with
  | relchain idx iolen =>
    cases hs
    rfl
  | endchains usedAllAvail =>
    obtain ⟨-, rfl⟩ := endchains_next hs
    rfl
  | publish avail vaFlags =>
    cases hs
    rfl

theorem next_event (hkeep : keepsEvent s.q.vq.vqQsize s.q.vqUsedEventIdx c) (hs : s.next c = some t) :
    t.q.vqUsedEventIdx = s.q.vqUsedEventIdx := by
  cases c with
  | relchain idx iolen =>
    cases hs
    rfl
  | endchains usedAllAvail =>
    obtain ⟨-, rfl⟩ := endchains_next hs
    rfl
  | publish avail vaFlags =>
    cases hs
    exact hkeep

/-- One call: decisions interrupt as often as the event index has been passed. -/
theorem CountInv.interrupts_next (hi : CountInv s) (hs : s.next c = some t) :
    s.base ≤ t.base ∧ t.interrupts = s.interrupts + passes s.q.vqUsedEventIdx s.base t.base := by
  have hsame : passes s.q.vqUsedEventIdx s.base s.base = 0 := by
    unfold passes
    rw [Finset.Ico_self]
    rfl
  cases c with
  | relchain idx iolen =>
    cases hs
    exact ⟨Nat.le_refl _, by rw [hsame]; rfl⟩
  | endchains usedAllAvail =>
    obtain ⟨hfew, rfl⟩ := endchains_next hs
    refine ⟨hi.le, ?_⟩
    show s.interrupts + _ = _
    rw [hi.intr_eq_passes usedAllAvail hfew]
  | publish avail vaFlags =>
    cases hs
    exact ⟨Nat.le_refl _, by rw [hsame]; rfl⟩

theorem CountInv.interrupts_run (hi : CountInv s) {cs : List Call}
    (hkeep : ∀ c ∈ cs, keepsEvent s.q.vq.vqQsize s.q.vqUsedEventIdx c) (hrun : System.exec Told.next s cs = some t) :
    s.base ≤ t.base ∧ t.interrupts = s.interrupts + passes s.q.vqUsedEventIdx s.base t.base := by
  induction cs generalizing s with
  | nil =>
    obtain rfl := Option.some.inj hrun
    refine ⟨Nat.le_refl _, ?_⟩
    unfold passes
    rw [Finset.Ico_self]
    rfl
  | cons c cs ih =>
    obtain ⟨u, hu, hrest⟩ := Option.bind_eq_some_iff.mp hrun
    obtain ⟨hle, hone⟩ := hi.interrupts_next hu
    have hevent := next_event (hkeep c List.mem_cons_self) hu
    have hsize := next_qsize hu
    obtain ⟨hle', hmany⟩ := ih (hi.next hu) (by
      intro d hd
      rw [hevent, hsize]
      exact hkeep d (List.mem_cons_of_mem c hd)) hrest
    refine ⟨hle.trans hle', ?_⟩
    rw [hmany, hone, hevent, passes_add hle hle', Nat.add_assoc]

end Runs

/-- The device interrupts exactly if the event index lies in the window from the used index at the last decision
to the current one, and so as often as an event index is passed while it stands. -/
theorem event_index_exact {s : Told} (hr : calls.Reachable s) :
    s.q.vq.vqUsed.vuIdx = UInt16.ofNat s.total ∧
      (∀ usedAllAvail, s.total - s.base < 2 ^ 16 →
        ((vqEndchains usedAllAvail s.q).2 = true ↔
          InWindow (UInt16.ofNat s.base) (s.total - s.base) s.q.vqUsedEventIdx)) ∧
      ∀ cs t, (∀ c ∈ cs, keepsEvent s.q.vq.vqQsize s.q.vqUsedEventIdx c) → System.exec Told.next s cs = some t →
        t.interrupts = s.interrupts + passes s.q.vqUsedEventIdx s.base t.base := by
  have hi := count_inductive.reachable hr
  exact ⟨hi.used, fun usedAllAvail hfew => hi.intr_iff usedAllAvail hfew,
    fun cs t hkeep hrun => (hi.interrupts_run hkeep hrun).2⟩

/-- A queue of two whose used index is about to wrap. -/
def wrapping : Told where
  q :=
    { vq := ⟨2, vqAlloc, 0, 0x1000, ⟨0, fun _ => 0⟩, ⟨0xfffe, fun _ => ⟨0, 0⟩⟩⟩
      vqSaveUsed := 0xfffe
      vaFlags := 0
      vsNegotiatedCaps := virtioRingFEventIdx }
  total := 0xfffe
  base := 0xfffe
  interrupts := 0

/-- Three entries are released, the third of them with index 0, and then one more. -/
def wrappingRun : List Call := [.relchain 0 0, .endchains true, .relchain 1 0, .relchain 0 0, .endchains true,
  .relchain 1 0, .endchains true]

/-- The event index 0 is passed once, at the wrap. -/
theorem event_index_exact_wrapping : ∃ t, System.exec Told.next wrapping wrappingRun = some t ∧
    passes 0 wrapping.base t.base = 1 ∧ t.interrupts = 1 := by
  have hr : calls.Reachable wrapping := .init ⟨by decide, by decide, rfl, by decide +kernel, rfl⟩
  obtain ⟨-, -, hrun⟩ := event_index_exact hr
  have hend : (System.exec Told.next wrapping wrappingRun).map (·.base) = some 0x10002 := by decide +kernel
  obtain ⟨t, ht, hbase⟩ := Option.map_eq_some_iff.mp hend
  have hcount := hrun wrappingRun t (by
    intro c hc
    simp only [wrappingRun, List.mem_cons, List.not_mem_nil, or_false] at hc
    rcases hc with rfl | rfl | rfl | rfl | rfl | rfl | rfl <;> trivial) ht
  have hone : passes 0 wrapping.base t.base = 1 := by
    rw [hbase]
    decide +kernel
  have hevent : wrapping.q.vqUsedEventIdx = 0 := rfl
  refine ⟨t, ht, hone, ?_⟩
  rw [hcount, hevent, hone]
  rfl

end Xhyve.Virtio
