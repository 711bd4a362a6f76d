import Mathlib
import Xhyve.Virtio.Vqueue
import Xhyve.Emul.NetFeatures

/-!
# Receiving packets

`pci_vtnet_tap_rx` takes a chain, and only then asks the interface for a packet to put in it. That there was none it tells by
an `errno` which nobody sets.
-/

namespace Xhyve.Emul.NetRx

open Xhyve.Virtio
open Xhyve.Emul.NetFeatures (sizeofRxhdr)

def vtnetMaxsegs : Nat := 32
def dummybufSize : Nat := 2048

/-- The device class offers no indirect descriptors, and the flags are not asked for. -/
def vtnetArgs : ChainArgs := ⟨"vtnet", false, vtnetMaxsegs, false⟩

structure Softc where
  vscRxReady : Bool
  resetting : Bool
  rxMerge : Bool
  rxVhdrlen : Int
  rxVhdrlen_le : rxVhdrlen ≤ sizeofRxhdr
  rxVhdrlen_ge : -2 ^ 31 ≤ rxVhdrlen

/-- What the guest's memory holds when it is looked at. -/
structure GuestView where
  mem : GuestMem
  avail : VringAvail

/-- The guest, which may change its memory between any two looks, and the interface, which has a packet or none at each read
into a chain. `errno` is as the last failed call has left it: a read does not set it. -/
structure World where
  guest : Nat → GuestView
  offer : Nat → Option Nat
  maxPacketSize : Nat
  ewouldblock : Bool
  offer_le : ∀ i len, offer i = some len → len ≤ maxPacketSize
  maxPacketSize_lt : maxPacketSize < 2 ^ 31 - 12

/-- A receive header that is written: where, how long, and whether with a buffer count. -/
structure Rxhdr where
  vrx : Nat
  len : Int
  bufs : Bool

/-- The queue, and what has happened in this call. -/
structure State where
  vq : VqueueInfo
  /-- How often the guest's memory has been looked at. -/
  clock : Nat
  taken : List UInt16
  reads : List (Option Nat)
  released : List (UInt16 × UInt32)
  headers : List Rxhdr
  /-- A packet has been read into `dummybuf`. -/
  dropped : Bool
  /-- `used_all_avail` of the `vq_endchains` that ends the call. -/
  endchains : Option Bool

inductive Result
  | ret (s : State)
  /-- At the head of the loop. -/
  | again (s : State)
  | abort

def capacity (iov : List Iovec) : Nat := (iov.map fun v => v.iovLen.toNat).sum

/-- The length is compared as a `size_t`. -/
def rxIovTrim (iov : List Iovec) (tlen : Int) : Option (List Iovec) :=
  match iov with
  | [] => none
  | v :: rest =>
    let tlen := (tlen % 2 ^ 64).toNat
    if v.iovLen.toNat < tlen then none
    else if v.iovLen.toNat - tlen = 0 then if rest = [] then none else some rest
    else some (⟨v.iovBase.map (· + tlen), UInt32.ofNat (v.iovLen.toNat - tlen)⟩ :: rest)

/-- What a read gives, or -1. -/
def readLen (got : Option Nat) : Int := got.elim (-1) fun len => len

section Code

variable (sc : Softc) (w : World) (s : State)

/-- A look at the guest's memory. -/
def look : State := { s with vq := { s.vq with vqAvail := (w.guest s.clock).avail }, clock := s.clock + 1 }

def iolen (got : Option Nat) : UInt32 := UInt32.ofNat ((readLen got + sc.rxVhdrlen) % 2 ^ 32).toNat

/-- The chain with the header in it goes back to the guest. -/
def relchain (idx : UInt16) (vrx : Nat) (got : Option Nat) : State :=
  { s with
    vq := vqRelchain s.vq idx (iolen sc got)
    released := s.released ++ [(idx, iolen sc got)]
    headers := s.headers ++ [⟨vrx, sc.rxVhdrlen, sc.rxMerge⟩] }

/-- The packet is read behind the header of the chain that has been taken. -/
def receive (idx : UInt16) (iov : List Iovec) : Result :=
  match rxIovTrim iov sc.rxVhdrlen with
  | none => .abort
  | some riov =>
    if capacity riov < w.maxPacketSize then .abort
    else
      let got := w.offer s.reads.length
      let s := { s with reads := s.reads ++ [got] }
      if readLen got < 0 ∧ w.ewouldblock then .ret { s with vq := vqRetchain s.vq, endchains := some false }
      else
        match iov.head?.bind Iovec.iovBase with
        | none => .abort
        | some vrx => .again (relchain sc s idx vrx got)

/-- One turn of the loop, up to its condition. -/
def turn : Result :=
  let t := look w s
  let r := vqGetchain (w.guest s.clock).mem vtnetArgs t.vq
  match r.ret with
  | .error _ => .abort
  | .ok n =>
    if n ≥ 1 ∧ n ≤ vtnetMaxsegs then
      receive sc w { t with vq := r.vq, taken := t.taken ++ [r.pidx.getD 0] } (r.pidx.getD 0) r.out.iov
    else .abort

/-- The loop, so many turns of it at most. -/
def rxLoop : Nat → State → Result
  | 0, s => .again s
  | turns + 1, s =>
    match turn sc w s with
    | .abort => .abort
    | .ret s => .ret s
    | .again s =>
      let s := look w s
      if vqHasDescs s.vq then rxLoop turns s else .ret { s with endchains := some true }

def pciVtnetTapRx (turns : Nat) (vq : VqueueInfo) : Result :=
  let s : State := ⟨vq, 0, [], [], [], [], false, none⟩
  if ¬ sc.vscRxReady ∨ sc.resetting then
    if dummybufSize < w.maxPacketSize then .abort else .ret { s with dropped := true }
  else
    let s := look w s
    if ¬ vqHasDescs s.vq then
      if dummybufSize < w.maxPacketSize then .abort else .ret { s with dropped := true, endchains := some true }
    else rxLoop sc w turns s

end Code

/-! ## What a call accounts for -/

/-- The chains released for what has been read: one for each packet, with the header's length and its own. -/
def deliveries (sc : Softc) (taken : List UInt16) (reads : List (Option Nat)) : List (UInt16 × UInt32) :=
  (taken.zip reads).filterMap fun e => e.2.map fun len => (e.1, UInt32.ofNat (sc.rxVhdrlen.toNat + len))

/-- The heads of the available ring from a position on. -/
def heads (w : World) (vq : VqueueInfo) (n : Nat) : List UInt16 :=
  (List.range n).map fun j =>
    (w.guest (2 * j + 1)).avail.vaRing ((vq.vqLastAvail + UInt16.ofNat j) &&& (vq.vqQsize - 1)).toNat

/-- Chains are taken in order; those that a packet was read for are in the used ring, in order and with their lengths; the
others are back in the available ring. -/
structure Accounts (sc : Softc) (w : World) (vq : VqueueInfo) (s : State) : Prop where
  taken : s.taken = heads w vq s.taken.length
  reads : s.reads.length = s.taken.length
  released : s.released = deliveries sc s.taken s.reads
  used : s.vq.vqUsed = (s.released.foldl (fun vq e => vqRelchain vq e.1 e.2) vq).vqUsed
  avail : s.vq.vqLastAvail = vq.vqLastAvail + UInt16.ofNat s.released.length

/-- There is a packet for each chain the guest supplies, one after the other. -/
def Stocked (w : World) (vq : VqueueInfo) : Prop :=
  ∀ j, (∀ i ≤ j, vqRingReady vq = true ∧ vq.vqLastAvail + UInt16.ofNat i ≠ (w.guest (2 * i)).avail.vaIdx) → w.offer j ≠ none

/-- The interface never runs dry in a call, or is seen to. -/
def Told (sc : Softc) (w : World) (vq : VqueueInfo) : Prop :=
  sc.vscRxReady = false ∨ sc.resetting = true ∨ w.ewouldblock = true ∨ Stocked w vq

/-! ## One turn -/

section Turn

variable {sc : Softc} {w : World} {vq : VqueueInfo} {s t : State} {idx : UInt16} {iov riov : List Iovec} {got : Option Nat}
  {j len : Nat}

/-- A header that is trimmed off has a length. -/
theorem rxIovTrim_nonneg (h : rxIovTrim iov sc.rxVhdrlen = some riov) : 0 ≤ sc.rxVhdrlen := by
  have hge := sc.rxVhdrlen_ge
  unfold rxIovTrim at h
  split at h
  · cases h
  · rename_i v rest
    dsimp only at h
    split at h
    · cases h
    · rename_i hfit
      have hlt := v.iovLen.toNat_lt
      by_contra hneg
      omega

theorem iolen_some (hnonneg : 0 ≤ sc.rxVhdrlen) (hlen : len ≤ w.maxPacketSize) :
    iolen sc (some len) = UInt32.ofNat (sc.rxVhdrlen.toNat + len) := by
  have hle := sc.rxVhdrlen_le
  have hmax := w.maxPacketSize_lt
  have hread : readLen (some len) = len := rfl
  have hsize : sizeofRxhdr = 12 := rfl
  unfold iolen
  rw [hread]
  congr 1
  omega

theorem readLen_neg : readLen got < 0 ↔ got = none := by
  cases got with
  | none => exact iff_of_true (by decide) rfl
  | some len => exact iff_of_false (by unfold readLen; simp) (Option.some_ne_none _)

theorem receive_again (h : receive sc w s idx iov = .again t) : 0 ≤ sc.rxVhdrlen ∧
    ¬ (w.offer s.reads.length = none ∧ w.ewouldblock = true) ∧ ∃ vrx,
      t = relchain sc { s with reads := s.reads ++ [w.offer s.reads.length] } idx vrx (w.offer s.reads.length) := by
  unfold receive at h
  split at h
  · cases h
  · rename_i riov htrim
    split at h
    · cases h
    · dsimp only at h
      split at h
      · cases h
      · rename_i hgot
        split at h
        · cases h
        · rename_i vrx _
          refine ⟨rxIovTrim_nonneg htrim, fun hno => hgot ⟨readLen_neg.mpr hno.1, hno.2⟩, vrx, ?_⟩
          injection h with h
          exact h.symm

theorem receive_ret (h : receive sc w s idx iov = .ret t) : 0 ≤ sc.rxVhdrlen ∧
    (w.offer s.reads.length = none ∧ w.ewouldblock = true) ∧
      t = { s with reads := s.reads ++ [none], vq := vqRetchain s.vq, endchains := some false } := by
  unfold receive at h
  split at h
  · cases h
  · rename_i riov htrim
    split at h
    · cases h
    · dsimp only at h
      split at h
      · rename_i hgot
        have hnone := readLen_neg.mp hgot.1
        refine ⟨rxIovTrim_nonneg htrim, ⟨hnone, hgot.2⟩, ?_⟩
        injection h with h
        rw [← h, hnone]
      · split at h
        · cases h
        · cases h

/-- What `vq_getchain` has done when it finds a chain. -/
theorem getchain_ok {g : GuestMem} {n : Nat} (h : (vqGetchain g vtnetArgs vq).ret = .ok n) (hn : 1 ≤ n) :
    (vqGetchain g vtnetArgs vq).vq = { vq with vqLastAvail := vq.vqLastAvail + 1 } ∧
      (vqGetchain g vtnetArgs vq).pidx = some (vq.vqAvail.vaRing (vq.vqLastAvail &&& (vq.vqQsize - 1)).toNat) := by
  by_cases hzero : vq.vqAvail.vaIdx - vq.vqLastAvail = 0
  · unfold vqGetchain at h
    dsimp only at h
    rw [if_pos hzero] at h
    cases h
    omega
  · by_cases hmany : vq.vqAvail.vaIdx - vq.vqLastAvail > vq.vqQsize
    · unfold vqGetchain at h
      dsimp only at h
      rw [if_neg hzero, if_pos hmany] at h
      cases h
    · obtain ⟨hidx, hvq⟩ := vqGetchain_head g vtnetArgs hzero hmany
      exact ⟨hvq, hidx⟩

/-- The next chain as it is taken. -/
def State.take (s : State) (w : World) : State :=
  { look w s with
    vq := { (look w s).vq with vqLastAvail := s.vq.vqLastAvail + 1 }
    taken := s.taken ++ [(w.guest s.clock).avail.vaRing (s.vq.vqLastAvail &&& (s.vq.vqQsize - 1)).toNat] }

theorem turn_cases (h : turn sc w s ≠ .abort) :
    ∃ iov, turn sc w s = receive sc w (s.take w)
      ((w.guest s.clock).avail.vaRing (s.vq.vqLastAvail &&& (s.vq.vqQsize - 1)).toNat) iov := by
  unfold turn at h ⊢
  dsimp only at h ⊢
  cases hret : (vqGetchain (w.guest s.clock).mem vtnetArgs (look w s).vq).ret with
  | error e =>
    rw [hret] at h
    exact absurd rfl h
  | ok n =>
    rw [hret] at h
    dsimp only at h ⊢
    by_cases hn : n ≥ 1 ∧ n ≤ vtnetMaxsegs
    · obtain ⟨hvq, hidx⟩ := getchain_ok hret hn.1
      rw [if_pos hn, hvq, hidx]
      exact ⟨_, rfl⟩
    · rw [if_neg hn] at h
      exact absurd rfl h

end Turn

/-! ## The loop -/

section Loop

variable {sc : Softc} {w : World} {vq : VqueueInfo} {s t : State} {j : Nat}

/-- The chain the guest has supplied when it is asked the `i`th time. -/
def Supplied (w : World) (vq : VqueueInfo) (i : Nat) : Prop :=
  vqRingReady vq = true ∧ vq.vqLastAvail + UInt16.ofNat i ≠ (w.guest (2 * i)).avail.vaIdx

/-- The turns up to `j`, each with a chain released, whatever was read. -/
structure Turned (sc : Softc) (w : World) (vq : VqueueInfo) (j : Nat) (s : State) : Prop where
  qsize : s.vq.vqQsize = vq.vqQsize
  flags : s.vq.vqFlags = vq.vqFlags
  avail : s.vq.vqLastAvail = vq.vqLastAvail + UInt16.ofNat j
  used : s.vq.vqUsed = (s.released.foldl (fun vq e => vqRelchain vq e.1 e.2) vq).vqUsed
  taken : s.taken = heads w vq j
  reads : s.reads = (List.range j).map w.offer
  released : s.released = (s.taken.zip s.reads).map fun e => (e.1, iolen sc e.2)
  supplied : ∀ i < j, Supplied w vq i
  going : ∀ i < j, ¬ (w.offer i = none ∧ w.ewouldblock = true)
  nonneg : 0 < j → 0 ≤ sc.rxVhdrlen

theorem heads_succ (w : World) (vq : VqueueInfo) (j : Nat) : heads w vq (j + 1) = heads w vq j ++
    [(w.guest (2 * j + 1)).avail.vaRing ((vq.vqLastAvail + UInt16.ofNat j) &&& (vq.vqQsize - 1)).toNat] := by
  unfold heads
  rw [List.range_succ, List.map_append]
  rfl

theorem heads_length (w : World) (vq : VqueueInfo) (j : Nat) : (heads w vq j).length = j := by
  unfold heads
  rw [List.length_map, List.length_range]

theorem offers_succ (w : World) (j : Nat) : (List.range (j + 1)).map w.offer = (List.range j).map w.offer ++ [w.offer j] := by
  rw [List.range_succ, List.map_append]
  rfl

theorem Turned.lengths (h : Turned sc w vq j s) : s.taken.length = j ∧ s.reads.length = j := by
  rw [h.taken, h.reads, heads_length, List.length_map, List.length_range]
  exact ⟨rfl, rfl⟩

theorem Turned.look (h : Turned sc w vq j s) : Turned sc w vq j (look w s) :=
  ⟨h.qsize, h.flags, h.avail, h.used, h.taken, h.reads, h.released, h.supplied, h.going, h.nonneg⟩

/-- The condition of the loop. -/
theorem Turned.hasDescs_iff (h : Turned sc w vq j s) (hclock : s.clock = 2 * j) :
    vqHasDescs (NetRx.look w s).vq = true ↔ Supplied w vq j := by
  have hready : vqRingReady (NetRx.look w s).vq = vqRingReady vq := by
    unfold vqRingReady
    change (s.vq.vqFlags &&& vqAlloc ≠ 0 : Bool) = _
    rw [h.flags]
  unfold vqHasDescs Supplied
  rw [hready, Bool.and_eq_true, bne_iff_ne]
  change _ ∧ s.vq.vqLastAvail ≠ (w.guest s.clock).avail.vaIdx ↔ _
  rw [h.avail, hclock]

theorem Turned.take_head (h : Turned sc w vq j s) (hclock : s.clock = 2 * j + 1) :
    (w.guest s.clock).avail.vaRing (s.vq.vqLastAvail &&& (s.vq.vqQsize - 1)).toNat =
      (w.guest (2 * j + 1)).avail.vaRing ((vq.vqLastAvail + UInt16.ofNat j) &&& (vq.vqQsize - 1)).toNat := by
  rw [hclock, h.avail, h.qsize]

theorem add_ofNat_succ (x : UInt16) (j : Nat) : x + UInt16.ofNat j + 1 = x + UInt16.ofNat (j + 1) := by
  rw [UInt16.ofNat_add, UInt16.add_assoc]
  rfl

theorem foldl_used {vq vq' : VqueueInfo} (hq : vq.vqQsize = vq'.vqQsize) (hu : vq.vqUsed = vq'.vqUsed) (idx : UInt16)
    (n : UInt32) : (vqRelchain vq idx n).vqUsed = (vqRelchain vq' idx n).vqUsed := by
  unfold vqRelchain
  dsimp only
  rw [hq, hu]

theorem foldl_qsize (vq : VqueueInfo) (l : List (UInt16 × UInt32)) :
    (l.foldl (fun vq e => vqRelchain vq e.1 e.2) vq).vqQsize = vq.vqQsize := by
  induction l generalizing vq with
  | nil => rfl
  | cons e l ih => exact ih _

/-- One more turn with a chain released. -/
theorem Turned.again (h : Turned sc w vq j s) (hclock : s.clock = 2 * j + 1) (hsupplied : Supplied w vq j)
    (hturn : turn sc w s = .again t) : Turned sc w vq (j + 1) t ∧ t.clock = 2 * (j + 1) := by
  obtain ⟨iov, heq⟩ := @turn_cases sc w s (by rw [hturn]; exact fun he => nomatch he)
  obtain ⟨hnonneg, hgoing, vrx, rfl⟩ := receive_again (heq.symm.trans hturn)
  obtain ⟨htaken, hreads⟩ := h.lengths
  have hlen : (s.take w).reads.length = j := hreads
  have hhead := h.take_head hclock
  rw [hlen] at hgoing ⊢
  refine ⟨⟨h.qsize, h.flags, ?_, ?_, ?_, ?_, ?_, ?_, ?_, fun _ => hnonneg⟩, ?_⟩
  · change s.vq.vqLastAvail + 1 = _
    rw [h.avail, add_ofNat_succ]
  · change (vqRelchain (s.take w).vq _ _).vqUsed = ((s.released ++ [_]).foldl _ vq).vqUsed
    rw [List.foldl_append]
    refine foldl_used ?_ h.used _ _
    rw [foldl_qsize]
    exact h.qsize
  · change s.taken ++ [_] = _
    rw [heads_succ, h.taken, hhead]
  · change s.reads ++ [_] = _
    rw [offers_succ, h.reads]
  · change s.released ++ [_] = List.map _ ((s.taken ++ [_]).zip (s.reads ++ [_]))
    rw [List.zip_append (htaken.trans hreads.symm), List.map_append, h.released]
    rfl
  · intro i hi
    rcases Nat.lt_succ_iff_lt_or_eq.mp hi with hi | rfl
    · exact h.supplied i hi
    · exact hsupplied
  · intro i hi
    rcases Nat.lt_succ_iff_lt_or_eq.mp hi with hi | rfl
    · exact h.going i hi
    · exact hgoing
  · change s.clock + 1 = _
    rw [hclock]
    rfl

theorem Turned.iolen_some (h : Turned sc w vq j s) {idx : UInt16} {len : Nat} (hmem : (idx, some len) ∈ s.taken.zip s.reads) :
    iolen sc (some len) = UInt32.ofNat (sc.rxVhdrlen.toNat + len) := by
  have hread := (List.of_mem_zip hmem).2
  rw [h.reads] at hread
  obtain ⟨i, hi, hoffer⟩ := List.mem_map.mp hread
  have hj := List.mem_range.mp hi
  exact NetRx.iolen_some (h.nonneg (by omega)) (w.offer_le i len hoffer)

/-- The chains released are those for packets exactly when each read has given one. -/
theorem Turned.released_iff (h : Turned sc w vq j s) :
    s.released = deliveries sc s.taken s.reads ↔ ∀ i < j, w.offer i ≠ none := by
  obtain ⟨htaken, hreads⟩ := h.lengths
  rw [h.released]
  unfold deliveries
  constructor
  · intro he i hi hnone
    have hlen := congrArg List.length he
    rw [List.length_map] at hlen
    have hsome := List.filterMap_length_eq_length.mp hlen.symm
    have hmem : none ∈ (s.taken.zip s.reads).map Prod.snd := by
      rw [List.map_snd_zip (by omega), h.reads, ← hnone]
      exact List.mem_map_of_mem (List.mem_range.mpr hi)
    obtain ⟨⟨idx, got⟩, he, rfl⟩ := List.mem_map.mp hmem
    exact Bool.noConfusion (hsome _ he)
  · intro hoffers
    rw [← List.filterMap_eq_map]
    refine List.filterMap_congr fun e he => ?_
    obtain ⟨idx, got⟩ := e
    cases got with
    | none =>
      have hread := (List.of_mem_zip he).2
      rw [h.reads] at hread
      obtain ⟨i, hi, hoffer⟩ := List.mem_map.mp hread
      exact absurd hoffer (hoffers i (List.mem_range.mp hi))
    | some len => exact congrArg (fun n => some (idx, n)) (h.iolen_some he)

theorem Turned.released_length (h : Turned sc w vq j s) : s.released.length = j := by
  obtain ⟨htaken, hreads⟩ := h.lengths
  rw [h.released, List.length_map, List.length_zip, htaken, hreads, Nat.min_self]

theorem Turned.accounts_iff (h : Turned sc w vq j s) : Accounts sc w vq s ↔ ∀ i < j, w.offer i ≠ none := by
  obtain ⟨htaken, hreads⟩ := h.lengths
  constructor
  · intro ha
    exact h.released_iff.mp ha.released
  · intro hoffers
    refine ⟨?_, by rw [htaken, hreads], h.released_iff.mpr hoffers, h.used, ?_⟩
    · rw [htaken]
      exact h.taken
    · rw [h.released_length]
      exact h.avail

/-- How a call ends is not accounted for. -/
theorem accounts_endchains (b : Option Bool) : Accounts sc w vq { s with endchains := b } ↔ Accounts sc w vq s :=
  ⟨fun h => ⟨h.taken, h.reads, h.released, h.used, h.avail⟩, fun h => ⟨h.taken, h.reads, h.released, h.used, h.avail⟩⟩

/-- How a call ends: the interface had no packet for the last chain and that was told, or there is no chain. -/
inductive Ended (sc : Softc) (w : World) (vq : VqueueInfo) : State → Prop
  | dry {j : Nat} {s : State} : Turned sc w vq j s → s.clock = 2 * j + 1 → w.offer j = none → w.ewouldblock = true →
      Ended sc w vq { s.take w with
        reads := s.reads ++ [none], vq := vqRetchain (s.take w).vq, endchains := some false }
  | empty {j : Nat} {s : State} : Turned sc w vq j s → ¬ Supplied w vq j → Ended sc w vq { s with endchains := some true }

theorem Turned.ret (h : Turned sc w vq j s) (hclock : s.clock = 2 * j + 1) (hturn : turn sc w s = .ret t) :
    Ended sc w vq t := by
  obtain ⟨iov, heq⟩ := @turn_cases sc w s (by rw [hturn]; exact fun he => nomatch he)
  obtain ⟨-, ⟨hnone, hblock⟩, rfl⟩ := receive_ret (heq.symm.trans hturn)
  have hlen : (s.take w).reads.length = j := h.lengths.2
  rw [hlen] at hnone
  exact .dry h hclock hnone hblock

theorem rxLoop_spec (turns : Nat) (h : Turned sc w vq j s) (hclock : s.clock = 2 * j + 1) (hsupplied : Supplied w vq j) :
    (∀ t, rxLoop sc w turns s = .ret t → Ended sc w vq t) ∧
      ∀ t, rxLoop sc w turns s = .again t → ∃ k, Turned sc w vq k t ∧ Supplied w vq k := by
  induction turns generalizing j s with
  | zero =>
    refine ⟨(fun _ he => nomatch he), fun t he => ?_⟩
    injection he with he
    rw [← he]
    exact ⟨j, h, hsupplied⟩
  | succ turns ih =>
    unfold rxLoop
    cases hturn : turn sc w s with
    | abort => exact ⟨(fun _ he => nomatch he), fun _ he => nomatch he⟩
    | ret u =>
      refine ⟨fun t he => ?_, fun t he => nomatch he⟩
      injection he with he
      rw [← he]
      exact h.ret hclock hturn
    | again u =>
      obtain ⟨hu, huclock⟩ := h.again hclock hsupplied hturn
      have hdescs := hu.hasDescs_iff huclock
      dsimp only
      by_cases hmore : vqHasDescs (look w u).vq = true
      · rw [if_pos hmore]
        exact ih hu.look (congrArg (· + 1) huclock) (hdescs.mp hmore)
      · rw [if_neg hmore]
        refine ⟨fun t he => ?_, fun t he => nomatch he⟩
        injection he with he
        rw [← he]
        exact .empty hu.look fun hno => hmore (hdescs.mpr hno)

theorem accounts_dry (h : Turned sc w vq j s) (hclock : s.clock = 2 * j + 1)
    (hoffers : ∀ i < j, w.offer i ≠ none) (b : Option Bool) : Accounts sc w vq { s.take w with
      reads := s.reads ++ [none], vq := vqRetchain (s.take w).vq, endchains := b } := by
  obtain ⟨htaken, hreads⟩ := h.lengths
  have ha := h.accounts_iff.mpr hoffers
  have hheads : s.taken ++ [(w.guest s.clock).avail.vaRing (s.vq.vqLastAvail &&& (s.vq.vqQsize - 1)).toNat] =
      heads w vq (j + 1) := by
    rw [heads_succ, h.taken, h.take_head hclock]
  refine ⟨?_, ?_, ?_, h.used, ?_⟩
  · change s.taken ++ [_] = heads w vq (s.taken ++ [_]).length
    rw [hheads, heads_length]
  · change (s.reads ++ [none]).length = (s.taken ++ [_]).length
    rw [List.length_append, List.length_append, htaken, hreads]
    rfl
  · change s.released = deliveries sc (s.taken ++ [_]) (s.reads ++ [none])
    rw [ha.released]
    unfold deliveries
    rw [List.zip_append (htaken.trans hreads.symm), List.filterMap_append]
    exact (List.append_nil _).symm
  · change s.vq.vqLastAvail + 1 - 1 = _
    rw [UInt16.add_sub_cancel]
    exact ha.avail

/-- What has been turned without an end has a packet for each chain, or it is told. -/
theorem told_iff (hready : ¬ (¬ sc.vscRxReady = true ∨ sc.resetting = true)) (h : Turned sc w vq j s)
    (hempty : ¬ Supplied w vq j) : Told sc w vq ↔ ∀ i < j, w.offer i ≠ none := by
  have hstocked : Stocked w vq ↔ ∀ i < j, w.offer i ≠ none := by
    constructor
    · intro hs i hi
      exact hs i fun k hk => h.supplied k (by omega)
    · intro hoffers i hi
      by_cases hij : i < j
      · exact hoffers i hij
      · exact absurd (hi j (by omega)) hempty
  constructor
  · rintro (hno | hno | hblock | hs)
    · exact absurd (.inl (by rw [hno]; decide)) hready
    · exact absurd (.inr hno) hready
    · exact fun i hi hnone => h.going i hi ⟨hnone, hblock⟩
    · exact hstocked.mp hs
  · intro hoffers
    exact .inr (.inr (.inr (hstocked.mpr hoffers)))

theorem turned_zero (vq : VqueueInfo) : Turned sc w vq 0 ⟨vq, 0, [], [], [], [], false, none⟩ :=
  ⟨rfl, rfl, (UInt16.add_zero _).symm, rfl, rfl, rfl, rfl, (fun _ hi => nomatch hi), (fun _ hi => nomatch hi),
    fun h => nomatch h⟩

theorem accounts_zero (vq : VqueueInfo) (clock : Nat) (avail : VringAvail) (dropped : Bool) (endchains : Option Bool) :
    Accounts sc w vq ⟨{ vq with vqAvail := avail }, clock, [], [], [], [], dropped, endchains⟩ :=
  ⟨rfl, rfl, rfl, rfl, (UInt16.add_zero _).symm⟩

/-- A call that returns has accounted for what it has read exactly when the interface did not run dry, or `errno` told it so;
and then it does at every turn. -/
theorem rx_accounts_iff (sc : Softc) (w : World) (vq : VqueueInfo) (turns : Nat) :
    (∀ s, pciVtnetTapRx sc w turns vq = .ret s → (Accounts sc w vq s ↔ Told sc w vq)) ∧
      (Told sc w vq → ∀ s, pciVtnetTapRx sc w turns vq = .again s → Accounts sc w vq s) := by
  unfold pciVtnetTapRx
  dsimp only
  by_cases hready : ¬ sc.vscRxReady = true ∨ sc.resetting = true
  · have htold : Told sc w vq := by
      rcases hready with hno | hno
      · exact .inl (by simpa using hno)
      · exact .inr (.inl hno)
    rw [if_pos hready]
    split
    · exact ⟨(fun _ he => nomatch he), fun _ _ he => nomatch he⟩
    · refine ⟨fun s he => ?_, fun _ _ he => nomatch he⟩
      injection he with he
      rw [← he]
      exact iff_of_true (accounts_zero vq 0 vq.vqAvail true none) htold
  · rw [if_neg hready]
    have hzero := @turned_zero sc w vq
    have hdescs := hzero.hasDescs_iff rfl
    by_cases hmore : vqHasDescs (look w ⟨vq, 0, [], [], [], [], false, none⟩).vq = true
    · rw [if_neg (not_not.mpr hmore)]
      obtain ⟨hret, hagain⟩ := rxLoop_spec turns hzero.look rfl (hdescs.mp hmore)
      refine ⟨fun s he => ?_, fun htold s he => ?_⟩
      · cases hret s he with
        | dry hj hclock _ hblock =>
          have hoffers := fun i hi hnone => hj.going i hi ⟨hnone, hblock⟩
          exact iff_of_true (accounts_dry hj hclock hoffers _) (.inr (.inr (.inl hblock)))
        | empty hj hempty =>
          exact (accounts_endchains _).trans (hj.accounts_iff.trans (told_iff hready hj hempty).symm)
      · obtain ⟨k, hk, hsupplied⟩ := hagain s he
        refine hk.accounts_iff.mpr fun i hi hnone => ?_
        rcases htold with hno | hno | hblock | hs
        · exact hready (.inl (by rw [hno]; decide))
        · exact hready (.inr hno)
        · exact hk.going i hi ⟨hnone, hblock⟩
        · exact hs i (fun l hl => hk.supplied l (by omega)) hnone
    · have hstocked : Stocked w vq := fun j hj => absurd (hdescs.mpr (hj 0 (Nat.zero_le j))) hmore
      rw [if_pos hmore]
      split
      · exact ⟨(fun _ he => nomatch he), fun _ _ he => nomatch he⟩
      · refine ⟨fun s he => ?_, fun _ _ he => nomatch he⟩
        injection he with he
        rw [← he]
        exact iff_of_true (accounts_zero vq 1 _ true (some true)) (.inr (.inr (.inr hstocked)))

end Loop

/-! ## One chain and no packet -/

/-- A chain of one descriptor of 2048 bytes. -/
def oneChain : GuestView where
  mem := ⟨fun addr _ => some addr.toNat, fun _ => ⟨0x1000, 2048, 0, 0⟩⟩
  avail := ⟨1, fun _ => 0⟩

/-- An interface with nothing to read. -/
def silent : World where
  guest _ := oneChain
  offer _ := none
  maxPacketSize := 1514
  ewouldblock := false
  offer_le := fun _ _ h => nomatch h
  maxPacketSize_lt := by decide

def oneQueue : VqueueInfo := ⟨2, vqAlloc, 0, 0, ⟨1, fun _ => 0⟩, ⟨0, fun _ => ⟨0, 0⟩⟩⟩

def mergeSoftc : Softc := ⟨true, false, true, sizeofRxhdr, by decide, by decide⟩

theorem rx_releases_nothing_read :
    ∃ s, pciVtnetTapRx mergeSoftc silent 1 oneQueue = .ret s ∧ s.reads = [none] ∧ s.released = [(0, 11)] ∧
      ¬ Accounts mergeSoftc silent oneQueue s := by
  refine ⟨_, rfl, rfl, rfl, fun h => ?_⟩
  cases h.released

end Xhyve.Emul.NetRx
