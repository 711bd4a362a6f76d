import Xhyve.Lib.Ring
import Xhyve.Lib.Transition
import Xhyve.Virtio.Vqueue

/-!
# The split-ring protocol

A driver and a device share one queue. The driver writes heads into free avail
slots, moves the avail index and reads the used ring; the device takes, gives back
and releases chains. Histories of both parties are kept beside the queue, and every
wrapping index is the length of one of them.
-/

namespace Xhyve.Virtio

open Lib Lib.Ring

/-- The queue with the driver's private state and the histories of both parties. -/
structure Proto where
  vq : VqueueInfo
  /- Heads made available by moving the avail index. -/
  published : List UInt16
  /- Heads already written to avail slots behind the index. -/
  filled : List UInt16
  /- Heads handed to the device, retracted ones removed. -/
  taken : List UInt16
  /- Positions in `taken` the device has neither released nor given back. -/
  held : List Nat
  released : List (UInt16 × UInt32)
  /- The driver's own used index and the entries it has read. -/
  seen : UInt16
  reaped : List VirtioUsed

inductive Event
  /- Driver. -/
  | fill (head : UInt16)
  | advance (n : Nat)
  | reap
  /- Device. -/
  | getchain (g : GuestMem) (a : ChainArgs)
  | retchain
  | relchain (pos : Nat) (iolen : UInt32)

/-- The ring cell a sixteen-bit index selects. -/
def VqueueInfo.slot (vq : VqueueInfo) (idx : UInt16) : Nat := (idx &&& (vq.vqQsize - 1)).toNat

def VqueueInfo.putAvail (vq : VqueueInfo) (idx : UInt16) (head : UInt16) : VqueueInfo :=
  { vq with vqAvail :=
    { vq.vqAvail with vaRing := Function.update vq.vqAvail.vaRing (vq.slot idx) head } }

def VqueueInfo.moveAvail (vq : VqueueInfo) (n : Nat) : VqueueInfo :=
  { vq with vqAvail := { vq.vqAvail with vaIdx := vq.vqAvail.vaIdx + UInt16.ofNat n } }

def usedElem (e : UInt16 × UInt32) : VirtioUsed := ⟨e.1.toUInt32, e.2⟩

/-- The driver keeps at most a ring's worth of heads it has not seen used; the device
releases only chains it holds and gives back only the one it took last. -/
def Proto.next (s : Proto) : Event → Option Proto
  | .fill head =>
    if head < s.vq.vqQsize ∧
        s.published.length + s.filled.length < s.reaped.length + s.vq.vqQsize.toNat then
      some { s with
        vq := s.vq.putAvail (s.vq.vqAvail.vaIdx + UInt16.ofNat s.filled.length) head
        filled := s.filled ++ [head] }
    else none
  | .advance n =>
    if n ≤ s.filled.length then
      some { s with
        vq := s.vq.moveAvail n
        published := s.published ++ s.filled.take n
        filled := s.filled.drop n }
    else none
  | .reap =>
    if s.seen ≠ s.vq.vqUsed.vuIdx then
      some { s with
        seen := s.seen + 1
        reaped := s.reaped ++ [s.vq.vqUsed.vuRing (s.vq.slot s.seen)] }
    else none
  | .getchain g a =>
    let r := vqGetchain g a s.vq
    match r.pidx with
    | none => some { s with vq := r.vq }
    | some head =>
      some { s with
        vq := r.vq
        taken := s.taken ++ [head]
        held := s.taken.length :: s.held }
  | .retchain =>
    if s.taken ≠ [] ∧ s.taken.length - 1 ∈ s.held then
      some { s with
        vq := vqRetchain s.vq
        taken := s.taken.dropLast
        held := s.held.erase (s.taken.length - 1) }
    else none
  | .relchain pos iolen =>
    match s.taken[pos]? with
    | none => none
    | some head =>
      if pos ∈ s.held then
        some { s with
          vq := vqRelchain s.vq head iolen
          held := s.held.erase pos
          released := s.released ++ [(head, iolen)] }
      else none

/-- A queue of `2 ^ k` entries just set up by `vi_vq_init` over rings the driver zeroed. -/
structure Fresh (k : Nat) (s : Proto) : Prop where
  qsize : s.vq.vqQsize = UInt16.ofNat (2 ^ k)
  flags : s.vq.vqFlags = vqAlloc
  lastAvail : s.vq.vqLastAvail = 0
  vaIdx : s.vq.vqAvail.vaIdx = 0
  vuIdx : s.vq.vqUsed.vuIdx = 0
  seen : s.seen = 0
  histories : s.published = [] ∧ s.filled = [] ∧ s.taken = [] ∧ s.held = [] ∧
    s.released = [] ∧ s.reaped = []

def protocol (k : Nat) : System Proto Event := .ofFn (Fresh k) Proto.next

/-! ## The invariant -/

structure RingInv (k : Nat) (s : Proto) : Prop where
  qsize : s.vq.vqQsize = UInt16.ofNat (2 ^ k)
  flags : s.vq.vqFlags = vqAlloc
  lastAvail : s.vq.vqLastAvail = UInt16.ofNat s.taken.length
  vaIdx : s.vq.vqAvail.vaIdx = UInt16.ofNat s.published.length
  vuIdx : s.vq.vqUsed.vuIdx = UInt16.ofNat s.released.length
  seen : s.seen = UInt16.ofNat s.reaped.length
  taken : s.taken <+: s.published
  reaped : s.reaped <+: s.released.map usedElem
  heldNodup : s.held.Nodup
  heldTaken : ∀ p ∈ s.held, p < s.taken.length
  heldCount : s.held.length + s.released.length = s.taken.length
  room : s.published.length + s.filled.length ≤ s.reaped.length + 2 ^ k
  avail : Ring.Holds k s.vq.vqAvail.vaRing (s.published ++ s.filled) s.reaped.length
  used : Ring.Holds k s.vq.vqUsed.vuRing (s.released.map usedElem) s.reaped.length

section

variable {k : Nat} {s : Proto}

theorem Fresh.inv (h : Fresh k s) : RingInv k s := by
  obtain ⟨hp, hf, ht, hh, hrel, hre⟩ := h.histories
  refine
    { qsize := h.qsize, flags := h.flags, lastAvail := by simp [h.lastAvail, ht]
      vaIdx := by simp [h.vaIdx, hp], vuIdx := by simp [h.vuIdx, hrel]
      seen := by simp [h.seen, hre], taken := by simp [ht], reaped := by simp [hre]
      heldNodup := by simp [hh], heldTaken := by simp [hh]
      heldCount := by simp [hh, hrel, ht], room := by simp [hp, hf]
      avail := ?_, used := ?_ }
  · simp [Ring.Holds, hp, hf]
  · simp [Ring.Holds, hrel]

/-- A length masked through the queue size is the ring position it stands for. -/
theorem slot_ofNat {vq : VqueueInfo} (hk : k ≤ 15) (hq : vq.vqQsize = UInt16.ofNat (2 ^ k))
    (i : Nat) : vq.slot (UInt16.ofNat i) = i % 2 ^ k := by
  have hpow : 2 ^ k ≤ 2 ^ 15 := Nat.pow_le_pow_right (by decide) hk
  have hone : 1 ≤ 2 ^ k := Nat.one_le_two_pow
  have hmask : vq.vqQsize - 1 = UInt16.ofNat (2 ^ k - 1) := by
    rw [hq, UInt16.ofNat_sub hone]
    rfl
  rw [VqueueInfo.slot, hmask, UInt16.toNat_and, UInt16.toNat_ofNat', UInt16.toNat_ofNat',
    Nat.mod_eq_of_lt (show 2 ^ k - 1 < 2 ^ 16 by omega), mask_wrapped i (by omega)]

theorem RingInv.qsizeNat (h : RingInv k s) (hk : k ≤ 15) : s.vq.vqQsize.toNat = 2 ^ k := by
  have hpow : 2 ^ k ≤ 2 ^ 15 := Nat.pow_le_pow_right (by decide) hk
  rw [h.qsize, UInt16.toNat_ofNat', Nat.mod_eq_of_lt (by omega)]

/-- Reaped, released, taken and published heads each number at most the next, and the
last runs at most a ring ahead of the first. -/
theorem RingInv.lengths (h : RingInv k s) :
    s.reaped.length ≤ s.released.length ∧ s.released.length ≤ s.taken.length ∧
    s.taken.length ≤ s.published.length ∧ s.published.length ≤ s.reaped.length + 2 ^ k := by
  have h1 := h.reaped.length_le
  have h2 := h.taken.length_le
  have h3 := h.heldCount
  have h4 := h.room
  rw [List.length_map] at h1
  omega

theorem ofNat_eq_iff {m n : Nat} (hle : m ≤ n) (hlt : n - m < 2 ^ 16) :
    UInt16.ofNat m = UInt16.ofNat n ↔ m = n := by
  rw [← UInt16.toNat_inj, UInt16.toNat_ofNat', UInt16.toNat_ofNat', wrapped_eq_iff hle hlt]

theorem RingInv.fill (h : RingInv k s) (hk : k ≤ 15) {head : UInt16}
    (hroom : s.published.length + s.filled.length < s.reaped.length + s.vq.vqQsize.toNat) :
    RingInv k { s with
      vq := s.vq.putAvail (s.vq.vqAvail.vaIdx + UInt16.ofNat s.filled.length) head
      filled := s.filled ++ [head] } := by
  rw [h.qsizeNat hk] at hroom
  refine { h with room := ?_, avail := ?_ }
  · simp only [List.length_append, List.length_singleton]
    omega
  · have hpush := h.avail.push (by rw [List.length_append]; exact hroom) head
    rw [List.length_append, List.append_assoc] at hpush
    rw [h.vaIdx, ← UInt16.ofNat_add, VqueueInfo.putAvail, slot_ofNat hk h.qsize]
    exact hpush

theorem RingInv.advance (h : RingInv k s) {n : Nat} (hn : n ≤ s.filled.length) :
    RingInv k { s with
      vq := s.vq.moveAvail n
      published := s.published ++ s.filled.take n
      filled := s.filled.drop n } := by
  refine { h with vaIdx := ?_, taken := ?_, room := ?_, avail := ?_ }
  · simp only [VqueueInfo.moveAvail, List.length_append, List.length_take, Nat.min_eq_left hn,
      h.vaIdx, UInt16.ofNat_add]
  · exact h.taken.trans (List.prefix_append _ _)
  · have hr := h.room
    simp only [List.length_append, List.length_take, List.length_drop]
    omega
  · simp only [List.append_assoc, List.take_append_drop]
    exact h.avail

theorem concat_of_prefix {α : Type} {l m : List α} (h : l <+: m) (hlt : l.length < m.length) :
    l ++ [m[l.length]] <+: m := by
  obtain ⟨t, rfl⟩ := h
  cases t with
  | nil => simp at hlt
  | cons x t => exact ⟨t, by simp⟩

theorem RingInv.reap (h : RingInv k s) (hk : k ≤ 15) (hne : s.seen ≠ s.vq.vqUsed.vuIdx) :
    RingInv k { s with
      seen := s.seen + 1
      reaped := s.reaped ++ [s.vq.vqUsed.vuRing (s.vq.slot s.seen)] } := by
  obtain ⟨hle, -, -, -⟩ := h.lengths
  have hlt : s.reaped.length < (s.released.map usedElem).length := by
    rw [List.length_map]
    refine lt_of_le_of_ne hle fun he => hne ?_
    rw [h.seen, h.vuIdx, he]
  have hcell : s.vq.vqUsed.vuRing (s.vq.slot s.seen) =
      (s.released.map usedElem)[s.reaped.length] := by
    rw [h.seen, slot_ofNat hk h.qsize]
    exact h.used _ hlt le_rfl
  have hlen : (s.reaped ++ [s.vq.vqUsed.vuRing (s.vq.slot s.seen)]).length =
      s.reaped.length + 1 := by simp
  refine { h with seen := ?_, reaped := ?_, room := ?_, avail := ?_, used := ?_ }
  · rw [hlen, UInt16.ofNat_add, ← h.seen]
    rfl
  · rw [hcell]
    exact concat_of_prefix h.reaped hlt
  · rw [hlen]
    exact h.room.trans (by omega)
  · exact h.avail.mono (by rw [hlen]; omega)
  · exact h.used.mono (by rw [hlen]; omega)

/-- With nothing untaken the call only reports an empty ring. -/
theorem RingInv.getchain_empty (h : RingInv k s) (g : GuestMem) (a : ChainArgs)
    (he : s.taken.length = s.published.length) :
    vqGetchain g a s.vq = ⟨s.vq, none, ⟨[], []⟩, .ok 0⟩ := by
  have hz : s.vq.vqAvail.vaIdx - s.vq.vqLastAvail = 0 := by
    rw [h.vaIdx, h.lastAvail, he, UInt16.sub_self]
  simp only [vqGetchain, hz, if_true]

/-- With an untaken head the range check passes, and the first one is stored through
`pidx` and counted whatever the walk of its descriptors then returns. -/
theorem RingInv.getchain_next (h : RingInv k s) (hk : k ≤ 15) (g : GuestMem) (a : ChainArgs)
    (hlt : s.taken.length < s.published.length) :
    (vqGetchain g a s.vq).pidx = some s.published[s.taken.length] ∧
    (vqGetchain g a s.vq).vq = { s.vq with vqLastAvail := UInt16.ofNat (s.taken.length + 1) } := by
  obtain ⟨h1, h2, h3, h4⟩ := h.lengths
  have hpow : 2 ^ k ≤ 2 ^ 15 := Nat.pow_le_pow_right (by decide) hk
  have hsub : s.vq.vqAvail.vaIdx - s.vq.vqLastAvail =
      UInt16.ofNat (s.published.length - s.taken.length) := by
    rw [h.vaIdx, h.lastAvail, UInt16.ofNat_sub h3]
  have hnat : (UInt16.ofNat (s.published.length - s.taken.length)).toNat =
      s.published.length - s.taken.length := by
    rw [UInt16.toNat_ofNat', Nat.mod_eq_of_lt (by omega)]
  have hnz : s.vq.vqAvail.vaIdx - s.vq.vqLastAvail ≠ 0 := by
    intro hz
    rw [← hsub, hz, UInt16.toNat_zero] at hnat
    omega
  have hrange : ¬ s.vq.vqAvail.vaIdx - s.vq.vqLastAvail > s.vq.vqQsize := by
    rw [gt_iff_lt, UInt16.lt_iff_toNat_lt, hsub, hnat, h.qsizeNat hk]
    omega
  have hcell : s.vq.vqAvail.vaRing (s.vq.slot s.vq.vqLastAvail) = s.published[s.taken.length] := by
    have hin : s.taken.length < (s.published ++ s.filled).length := by
      rw [List.length_append]
      omega
    rw [h.lastAvail, slot_ofNat hk h.qsize, h.avail _ hin (by omega),
      List.getElem_append_left hlt]
  obtain ⟨hp, hv⟩ := vqGetchain_head g a hnz hrange
  refine ⟨hp.trans (congrArg some hcell), ?_⟩
  rw [hv, h.lastAvail, UInt16.ofNat_add]
  rfl

theorem RingInv.take (h : RingInv k s) (hlt : s.taken.length < s.published.length) :
    RingInv k { s with
      vq := { s.vq with vqLastAvail := UInt16.ofNat (s.taken.length + 1) }
      taken := s.taken ++ [s.published[s.taken.length]]
      held := s.taken.length :: s.held } := by
  refine
    { h with
      lastAvail := ?_, taken := ?_, heldNodup := ?_, heldTaken := ?_, heldCount := ?_ }
  · simp only [List.length_append, List.length_singleton]
  · exact concat_of_prefix h.taken hlt
  · exact List.nodup_cons.mpr ⟨fun hm => lt_irrefl _ (h.heldTaken _ hm), h.heldNodup⟩
  · intro p hp
    simp only [List.length_append, List.length_singleton]
    rcases List.mem_cons.mp hp with rfl | hp
    · omega
    · have := h.heldTaken p hp
      omega
  · have := h.heldCount
    simp only [List.length_append, List.length_cons, List.length_nil]
    omega

theorem RingInv.retchain (h : RingInv k s) (hne : s.taken ≠ [])
    (hmem : s.taken.length - 1 ∈ s.held) :
    RingInv k { s with
      vq := vqRetchain s.vq
      taken := s.taken.dropLast
      held := s.held.erase (s.taken.length - 1) } := by
  have hpos : 0 < s.taken.length := List.length_pos_of_ne_nil hne
  refine
    { h with
      lastAvail := ?_, taken := ?_, heldNodup := ?_, heldTaken := ?_, heldCount := ?_ }
  · rw [vqRetchain, List.length_dropLast, UInt16.ofNat_sub hpos, h.lastAvail]
    rfl
  · exact (List.dropLast_prefix _).trans h.taken
  · exact h.heldNodup.erase _
  · intro p hp
    obtain ⟨hpne, hp⟩ := h.heldNodup.mem_erase_iff.mp hp
    have := h.heldTaken p hp
    simp only [List.length_dropLast]
    omega
  · have hc := h.heldCount
    have hl := List.length_pos_of_mem hmem
    simp only [List.length_dropLast, List.length_erase_of_mem hmem]
    omega

theorem RingInv.relchain (h : RingInv k s) (hk : k ≤ 15) {pos : Nat} {head : UInt16}
    (iolen : UInt32) (hmem : pos ∈ s.held) :
    RingInv k { s with
      vq := vqRelchain s.vq head iolen
      held := s.held.erase pos
      released := s.released ++ [(head, iolen)] } := by
  obtain ⟨h1, h2, h3, h4⟩ := h.lengths
  have hc := h.heldCount
  have hl := List.length_pos_of_mem hmem
  have hlen : (s.released ++ [(head, iolen)]).length = s.released.length + 1 := by simp
  refine
    { h with
      vuIdx := ?_, reaped := ?_, heldNodup := ?_, heldTaken := ?_, heldCount := ?_, used := ?_ }
  · rw [hlen, vqRelchain, UInt16.ofNat_add, h.vuIdx]
    rfl
  · rw [List.map_append]
    exact h.reaped.trans (List.prefix_append _ _)
  · exact h.heldNodup.erase _
  · intro p hp
    exact h.heldTaken p (List.mem_of_mem_erase hp)
  · rw [hlen, List.length_erase_of_mem hmem]
    change s.held.length - 1 + (s.released.length + 1) = s.taken.length
    omega
  · have hpush := h.used.push (by rw [List.length_map]; omega) (usedElem (head, iolen))
    rw [List.length_map] at hpush
    have hslot : (s.vq.vqUsed.vuIdx &&& (s.vq.vqQsize - 1)).toNat = s.released.length % 2 ^ k := by
      rw [h.vuIdx]
      exact slot_ofNat hk h.qsize _
    rw [List.map_append, vqRelchain, hslot]
    exact hpush

theorem RingInv.next (h : RingInv k s) (hk : k ≤ 15) {e : Event} {t : Proto}
    (hs : s.next e = some t) : RingInv k t := by
  cases e with
  | fill head =>
    obtain ⟨⟨-, hroom⟩, ⟨⟩⟩ := Option.ite_none_right_eq_some.mp hs
    exact h.fill hk hroom
  | advance n =>
    obtain ⟨hn, ⟨⟩⟩ := Option.ite_none_right_eq_some.mp hs
    exact h.advance hn
  | reap =>
    obtain ⟨hne, ⟨⟩⟩ := Option.ite_none_right_eq_some.mp hs
    exact h.reap hk hne
  | getchain g a =>
    rcases h.taken.length_le.eq_or_lt with he | hlt
    · rw [Proto.next, h.getchain_empty g a he] at hs
      obtain rfl := Option.some.inj hs
      exact h
    · obtain ⟨hp, hv⟩ := h.getchain_next hk g a hlt
      simp only [Proto.next, hp, hv] at hs
      obtain rfl := Option.some.inj hs
      exact h.take hlt
  | retchain =>
    obtain ⟨⟨hne, hmem⟩, ⟨⟩⟩ := Option.ite_none_right_eq_some.mp hs
    exact h.retchain hne hmem
  | relchain pos iolen =>
    rw [Proto.next] at hs
    split at hs
    · simp at hs
    · obtain ⟨hmem, ⟨⟩⟩ := Option.ite_none_right_eq_some.mp hs
      exact h.relchain hk iolen hmem

theorem ringInv_inductive (hk : k ≤ 15) : (protocol k).Inductive (RingInv k) where
  init _ hi := hi.inv
  step _ _ _ h hs := h.next hk hs

theorem RingInv.hasDescs_iff (h : RingInv k s) (hk : k ≤ 15) :
    vqHasDescs s.vq = true ↔ s.taken.length < s.published.length := by
  obtain ⟨h1, h2, h3, h4⟩ := h.lengths
  have hpow : 2 ^ k ≤ 2 ^ 15 := Nat.pow_le_pow_right (by decide) hk
  have hready : vqRingReady s.vq = true := by
    rw [vqRingReady, h.flags]
    decide
  rw [vqHasDescs, hready, Bool.true_and, bne_iff_ne, ne_eq, h.lastAvail, h.vaIdx,
    ofNat_eq_iff h3 (by omega), h3.lt_iff_ne]

theorem RingInv.getchain_pidx (h : RingInv k s) (hk : k ≤ 15) (g : GuestMem) (a : ChainArgs) :
    (vqGetchain g a s.vq).pidx = s.published[s.taken.length]? := by
  rcases h.taken.length_le.eq_or_lt with he | hlt
  · rw [h.getchain_empty g a he, List.getElem?_eq_none he.ge]
  · rw [(h.getchain_next hk g a hlt).1, List.getElem?_eq_getElem hlt]

end

/-- In every state the two parties reach, through any number of index wraps: the heads
handed out are the published ones in order; more are announced exactly while some are
untaken, and the next call hands out the first of those; what the driver has read of the
used ring are the first releases, and the releases it has yet to read stand untouched in
the cells their indices select. -/
theorem split_ring_exact {k : Nat} (hk : k ≤ 15) {s : Proto} (hr : (protocol k).Reachable s) :
    s.taken <+: s.published ∧
    (vqHasDescs s.vq = true ↔ s.taken.length < s.published.length) ∧
    (∀ g a, (vqGetchain g a s.vq).pidx = s.published[s.taken.length]?) ∧
    s.vq.vqUsed.vuIdx = UInt16.ofNat s.released.length ∧
    s.reaped <+: s.released.map usedElem ∧
    ∀ i (hi : i < s.released.length), s.reaped.length ≤ i →
      s.vq.vqUsed.vuRing (s.vq.slot (UInt16.ofNat i)) = usedElem s.released[i] := by
  have h := (ringInv_inductive hk).reachable hr
  refine ⟨h.taken, h.hasDescs_iff hk, h.getchain_pidx hk, h.vuIdx, h.reaped, ?_⟩
  intro i hi hle
  rw [slot_ofNat hk h.qsize, h.used i (by rwa [List.length_map]) hle, List.getElem_map]

/-- A two-entry queue over zeroed guest memory. -/
def freshPair : Proto where
  vq := ⟨2, vqAlloc, 0, 0, ⟨0, fun _ => 0⟩, ⟨0, fun _ => ⟨0, 0⟩⟩⟩
  published := []
  filled := []
  taken := []
  held := []
  released := []
  seen := 0
  reaped := []

def zeroMem : GuestMem := ⟨fun _ _ => none, fun _ => ⟨0, 0, 0, 0⟩⟩
def blockArgs : ChainArgs := ⟨"vtblk", false, 4, false⟩

/-- Both heads are taken, the second given back and taken again, and released first. -/
def retractRun : List Event :=
  [.fill 1, .fill 0, .advance 2, .getchain zeroMem blockArgs, .getchain zeroMem blockArgs,
    .retchain, .getchain zeroMem blockArgs, .relchain 1 512, .reap, .fill 0, .advance 1]

theorem split_ring_exact_retract : ∃ s, (protocol 1).Reachable s ∧ s.taken = [1, 0] ∧
    s.released = [(0, 512)] ∧ s.taken <+: s.published ∧
    ∀ g a, (vqGetchain g a s.vq).pidx = some 0 := by
  have hfresh : Fresh 1 freshPair := ⟨rfl, rfl, rfl, rfl, rfl, rfl, rfl, rfl, rfl, rfl, rfl, rfl⟩
  have hrun : (System.exec Proto.next freshPair retractRun).map
      (fun s => (s.taken, s.released, s.published)) = some ([1, 0], [(0, 512)], [1, 0, 0]) := by
    decide +kernel
  obtain ⟨s, hs, he⟩ := Option.map_eq_some_iff.mp hrun
  have ht : s.taken = [1, 0] := congrArg Prod.fst he
  have hp : s.published = [1, 0, 0] := congrArg (·.2.2) he
  have hr : (protocol 1).Reachable s := System.exec_reachable (.init hfresh) hs
  have h := split_ring_exact (by decide) hr
  refine ⟨s, hr, ht, congrArg (·.2.1) he, h.1, fun g a => ?_⟩
  rw [h.2.2.1 g a, ht, hp]
  rfl

end Xhyve.Virtio
