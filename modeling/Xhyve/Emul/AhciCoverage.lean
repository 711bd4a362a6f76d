import Xhyve.Emul.AhciTransfers
import Mathlib.Data.List.Forall2

/-!
# What an AHCI transfer covers

Where every entry of the PRDT holds a sector and the table stays as it is, the requests of a read or write cover its
range of the disk and the buffer of the guest from the first byte to the last, each beginning where the one before ends.
-/

namespace Xhyve.Emul.Ahci

open Xhyve.Lib Xhyve.Lib.Fallible Xhyve.Lib.Gather

/-! ## The vectors of a request -/

/-- A vector that stands for a segment of the guest's memory, or for the front of one. -/
def Stands (h : Host) (v : Option Nat × Nat) (c : Seg 64) : Prop :=
  v.2 = c.size ∧ ∃ n, c.size ≤ n ∧ v.1 = h.paddrGuest2host c.base.toNat n

/-- Vectors that stand for segments, one for one. -/
def Covers (h : Host) (iov : List (Option Nat × Nat)) (cs : List (Seg 64)) : Prop := List.Forall₂ (Stands h) iov cs

section Vectors
variable {h : Host} {iov iov' : List (Option Nat × Nat)} {cs cs' : List (Seg 64)} {extra : Nat}

theorem covers_map (h : Host) (cs : List (Seg 64)) : Covers h (cs.map (vector h)) cs := by
  unfold Covers
  rw [List.forall₂_map_left_iff, List.forall₂_same]
  intro c _
  exact ⟨rfl, c.size, Nat.le_refl _, rfl⟩

theorem Covers.dropExtra (hc : Covers h iov cs) : Covers h (Ahci.dropExtra iov extra) (trim cs extra) := by
  unfold Covers at hc
  induction hc generalizing extra with
  | nil => exact .nil
  | @cons v c iov cs hv hrest ih =>
    obtain ⟨base, len⟩ := v
    obtain ⟨hsize, n, hle, hbase⟩ := hv
    have hlen : len = c.size := hsize
    rw [Ahci.dropExtra, trim, hlen]
    split
    · exact .cons ⟨rfl, n, hle, hbase⟩ hrest
    · split
      · exact .cons ⟨rfl, n, by show c.size - extra ≤ n; omega, hbase⟩ hrest
      · exact ih

theorem Covers.reverse (hc : Covers h iov cs) : Covers h iov.reverse cs.reverse := List.forall₂_reverse_iff.mpr hc

theorem Covers.append (hc : Covers h iov cs) (hc' : Covers h iov' cs') : Covers h (iov ++ iov') (cs ++ cs') :=
  List.rel_append hc hc'

theorem Covers.bytes (hc : Covers h iov cs) : iovBytes iov = total cs := by
  unfold Covers at hc
  induction hc with
  | nil => rfl
  | @cons v c iov cs hv hrest ih =>
    rw [total_cons, ← ih, ← hv.1]
    rfl

end Vectors

/-- What the vectors of a request stand for. -/
def covered (h : Host) (m : Mem) (len done : BitVec 32) (prdt prdtl : Nat) : List (Seg 64) :=
  let cs := chunks m len done prdt prdtl
  if cs.length = blockifIovMax then (trim cs.reverse (total cs % h.sectsz)).reverse else cs

section Request
variable {h : Host} {aior : Ioreq} {m : Mem} {prdt prdtl : Nat}

theorem built_covers : Covers h (aior.built h m prdt prdtl).brIov (covered h m aior.len aior.done prdt prdtl) := by
  show Covers h (if (gatherIov h m aior.len aior.done prdt prdtl).2.length = blockifIovMax then
    (dropExtra (gatherIov h m aior.len aior.done prdt prdtl).2.reverse (iovExtra h (gatherIov h m aior.len aior.done prdt prdtl).2)).reverse
    else (gatherIov h m aior.len aior.done prdt prdtl).2) _
  have hmap := covers_map h (chunks m aior.len aior.done prdt prdtl)
  unfold covered iovExtra
  rw [gatherIov_eq]
  dsimp only
  rw [iovBytes_map, List.length_map]
  split
  · exact hmap.reverse.dropExtra.reverse
  · exact hmap

/-- They are the bytes of the PRDT from where the request begins. -/
theorem covered_bytes : bytes (covered h m aior.len aior.done prdt prdtl) =
    ((bytes (prdtSegs m prdt prdtl)).drop aior.done.toNat).take (aior.built h m prdt prdtl).brResid := by
  have hbytes : bytes (chunks m aior.len aior.done prdt prdtl) =
      ((bytes (prdtSegs m prdt prdtl)).drop aior.done.toNat).take (total (chunks m aior.len aior.done prdt prdtl)) := gather_bytes
  rw [built_brResid]
  unfold covered
  dsimp only
  split
  · have hle : total (chunks m aior.len aior.done prdt prdtl) % h.sectsz ≤
        total (chunks m aior.len aior.done prdt prdtl).reverse := by
      rw [total_reverse]
      exact Nat.mod_le _ _
    rw [trim_bytes _ hle, List.reverse_reverse, total_reverse, hbytes, List.take_take, Nat.min_eq_left (Nat.sub_le _ _)]
  · rw [hbytes, Nat.sub_zero]

theorem covered_total (hle : (aior.built h m prdt prdtl).brResid ≤ prdtBytes m prdt prdtl - aior.done.toNat) :
    total (covered h m aior.len aior.done prdt prdtl) = (aior.built h m prdt prdtl).brResid := by
  rw [← bytes_length, covered_bytes, List.length_take, List.length_drop, bytes_length, total_prdtSegs, Nat.min_eq_left hle]

end Request

/-! ## A table that stays as it is -/

/-- The bytes of a read or write. -/
def rwBytes (h : Host) (c : Nat → UInt8) : Nat := (rwRange c).2 * h.sectsz

/-- The command and the PRDT are still what they are in `m₀`. -/
def TableKept (p : PortNo) (slot : Slot) (cfis : Nat) (m₀ : Mem) (prdtl : Nat) (s : State) (_done : BitVec 32) : Prop :=
  (∀ i < 0x80 + 16 * prdtl, s.mem (cfis + i) = m₀ (cfis + i)) ∧ tablePrdtl s p slot = prdtl

/-- Each entry of the PRDT holds a sector, and all of them the whole of a transfer of less than 2 GiB. -/
structure Ample (h : Host) (m₀ : Mem) (cfis prdtl : Nat) : Prop where
  sector : 0 < h.sectsz
  entries : ∀ i < prdtl, h.sectsz ≤ prdtSize m₀ (cfis + 0x80 + 16 * i)
  small : rwBytes h (bytesAt m₀ cfis) < 2 ^ 31
  enough : rwBytes h (bytesAt m₀ cfis) ≤ prdtBytes m₀ (cfis + 0x80) prdtl

section Table
variable {h : Host} {p : PortNo} {slot : Slot} {cfis prdtl : Nat} {m₀ : Mem} {done : BitVec 32} {s : State} {a x : Ioreq}

theorem TableKept.range (hk : TableKept p slot cfis m₀ prdtl s done) : rwRange (bytesAt s.mem cfis) = rwRange (bytesAt m₀ cfis) := by
  have hc : ∀ i < 14, bytesAt s.mem cfis i = bytesAt m₀ cfis i := fun i hi => hk.1 i (by omega)
  unfold rwRange lba48
  rw [hc 2 (by decide), hc 3 (by decide), hc 4 (by decide), hc 5 (by decide), hc 6 (by decide), hc 7 (by decide),
    hc 8 (by decide), hc 9 (by decide), hc 10 (by decide), hc 11 (by decide), hc 12 (by decide), hc 13 (by decide)]

theorem TableKept.segs (hk : TableKept p slot cfis m₀ prdtl s done) :
    prdtSegs s.mem (cfis + 0x80) prdtl = prdtSegs m₀ (cfis + 0x80) prdtl := by
  unfold prdtSegs
  apply List.map_congr_left
  intro i hi
  have hi' := List.mem_range.mp hi
  have hsame : ∀ j < 16, s.mem (cfis + 0x80 + 16 * i + j) = m₀ (cfis + 0x80 + 16 * i + j) := by
    intro j hj
    have haddr : cfis + 0x80 + 16 * i + j = cfis + (0x80 + 16 * i + j) := by omega
    rw [haddr]
    exact hk.1 _ (by omega)
  have hdba : prdtDba s.mem (cfis + 0x80 + 16 * i) = prdtDba m₀ (cfis + 0x80 + 16 * i) :=
    Mem.load_congr fun j hj => hsame j (by omega)
  have hdbc : Mem.load 4 s.mem (cfis + 0x80 + 16 * i + 12) = Mem.load 4 m₀ (cfis + 0x80 + 16 * i + 12) := by
    apply Mem.load_congr
    intro j hj
    rw [Nat.add_assoc]
    exact hsame (12 + j) (by omega)
  unfold prdtSeg prdtSize
  rw [hdba, hdbc]

theorem TableKept.bytes (hk : TableKept p slot cfis m₀ prdtl s done) {i : Nat} (hi : i ≤ prdtl) :
    prdtBytes s.mem (cfis + 0x80) i = prdtBytes m₀ (cfis + 0x80) i := by
  rw [← total_take_prdtSegs hi, hk.segs, total_take_prdtSegs hi]

theorem prdtBytes_add (hamp : Ample h m₀ cfis prdtl) {i k : Nat} (hle : i + k ≤ prdtl) :
    prdtBytes m₀ (cfis + 0x80) i + k * h.sectsz ≤ prdtBytes m₀ (cfis + 0x80) (i + k) := by
  induction k with
  | zero => simp
  | succ k ih =>
    have hentry := hamp.entries (i + k) (by omega)
    have hsum : prdtBytes m₀ (cfis + 0x80) (i + (k + 1)) =
        prdtBytes m₀ (cfis + 0x80) (i + k) + prdtSize m₀ (cfis + 0x80 + 16 * (i + k)) := by
      unfold prdtBytes
      rw [← Nat.add_assoc, List.range_succ, List.map_append, List.sum_append]
      simp
    rw [hsum, Nat.add_mul, Nat.one_mul]
    have hbefore := ih (by omega)
    omega

theorem rwBytes_pos (hsect : 0 < h.sectsz) (c : Nat → UInt8) : 0 < rwBytes h c := by
  have hpos : 0 < (rwRange c).2 := by
    unfold rwRange
    dsimp only
    split_ifs <;> dsimp only <;> omega
  exact Nat.mul_pos hpos hsect

/-- Two multiples of a number are that number apart. -/
theorem add_le_of_dvd {n d l : Nat} (hd : n ∣ d) (hl : n ∣ l) (hlt : d < l) : d + n ≤ l := by
  obtain ⟨i, rfl⟩ := hd
  obtain ⟨j, rfl⟩ := hl
  have hij : i < j := Nat.lt_of_mul_lt_mul_left hlt
  calc n * i + n = n * (i + 1) := by rw [Nat.mul_succ]
    _ ≤ n * j := Nat.mul_le_mul_left n hij

/-- What a request covers. -/
structure Covering (h : Host) (m₀ : Mem) (cfis prdtl : Nat) (done : Nat) (a : Ioreq) : Prop where
  len : a.len.toNat = rwBytes h (bytesAt m₀ cfis)
  offset : a.brOffset = BitVec.ofNat 64 ((rwRange (bytesAt m₀ cfis)).1 * h.sectsz) + BitVec.ofNat 64 done
  vectors : ∃ cs, Covers h a.brIov cs ∧ bytes cs = ((bytes (prdtSegs m₀ (cfis + 0x80) prdtl)).drop done).take a.brResid ∧
    total cs = a.brResid
  done : a.done.toNat = done + a.brResid
  inside : a.done.toNat ≤ rwBytes h (bytesAt m₀ cfis)
  sectors : h.sectsz ∣ a.done.toNat
  moves : 0 < a.brResid
  last : a.more = false ↔ a.done.toNat = rwBytes h (bytesAt m₀ cfis)

/-- The part of a transfer that a request moves. -/
structure Moved (h : Host) (m : Mem) (len done : BitVec 32) (prdt prdtl : Nat) (resid : Nat) : Prop where
  positive : 0 < resid
  inside : done.toNat + resid ≤ len.toNat
  inBuffer : resid ≤ prdtBytes m prdt prdtl - done.toNat
  sectors : h.sectsz ∣ resid
  last : (gather blockifIovMax done.toNat (leftBytes len done) (prdtSegs m prdt prdtl)).2 = [] → done.toNat + resid = len.toNat

/-- With an ample PRDT, a request moves at least a sector, and whole sectors. -/
theorem built_moved {m : Mem} {prdt : Nat} (hsect : 0 < h.sectsz)
    (hentries : ∀ e, e + 33 ≤ prdtl → prdtBytes m prdt (e + 1) + 32 * h.sectsz ≤ prdtBytes m prdt (e + 33))
    (hsmall : x.len.toNat < 2 ^ 31) (henough : x.len.toNat ≤ prdtBytes m prdt prdtl)
    (hdone : h.sectsz ∣ x.done.toNat) (hlen : h.sectsz ∣ x.len.toNat) (hlt : x.done < x.len) :
    Moved h m x.len x.done prdt prdtl (x.built h m prdt prdtl).brResid := by
  have hlt' := hlt
  rw [BitVec.lt_def] at hlt
  have hleft : (x.len - x.done).toNat < 2 ^ 31 := by
    rw [BitVec.toNat_sub_of_le (BitVec.le_of_lt hlt')]
    omega
  have hleftBytes := leftBytes_small (BitVec.le_of_lt hlt') hleft
  have hwhole : h.sectsz ∣ leftBytes x.len x.done := by
    rw [hleftBytes]
    exact Nat.dvd_sub hlen hdone
  have hall : (gather blockifIovMax x.done.toNat (leftBytes x.len x.done) (prdtSegs m prdt prdtl)).2 = [] →
      total (chunks m x.len x.done prdt prdtl) = leftBytes x.len x.done := by
    intro hnil
    have htotal := gather_all hnil
    rw [total_prdtSegs] at htotal
    unfold chunks
    rw [htotal]
    omega
  rw [built_brResid]
  by_cases hfull : (chunks m x.len x.done prdt prdtl).length = blockifIovMax
  · obtain ⟨e, he, hbegin, hend⟩ := exists_entry (show x.done.toNat < prdtBytes m prdt prdtl by omega)
    obtain ⟨hroom, -⟩ := (chunks_full he hbegin hend (by omega)).mp hfull
    have htotal := @chunks_total m x.len x.done prdt prdtl e he hbegin hend (by omega) hroom
    have hsector := add_le_of_dvd hdone hlen hlt
    have hspan := hentries e hroom
    have hbuffer : prdtBytes m prdt (e + 33) ≤ prdtBytes m prdt prdtl := prdtBytes_mono hroom
    have hmod := Nat.mod_lt (total (chunks m x.len x.done prdt prdtl)) hsect
    have hmodle := Nat.mod_le (total (chunks m x.len x.done prdt prdtl)) h.sectsz
    have hge : h.sectsz ≤ total (chunks m x.len x.done prdt prdtl) := by omega
    rw [if_pos hfull]
    refine ⟨by omega, by omega, by omega, Nat.dvd_sub_mod _, fun hnil => ?_⟩
    rw [hall hnil, Nat.mod_eq_zero_of_dvd hwhole]
    omega
  · have hle : (chunks m x.len x.done prdt prdtl).length ≤ blockifIovMax := gather_length_le
    have hrest : total (chunks m x.len x.done prdt prdtl) = leftBytes x.len x.done := by
      rcases gather_complete (show (chunks m x.len x.done prdt prdtl).length < blockifIovMax by omega) with hnil | hdone
      · exact hall hnil
      · exact hdone
    rw [if_neg hfull, Nat.sub_zero, hrest]
    exact ⟨by omega, by omega, by omega, hwhole, fun _ => by omega⟩

theorem MadeAt.covering (hamp : Ample h m₀ cfis prdtl) (hdvd : h.sectsz ∣ done.toNat)
    (hlt : done.toNat < rwBytes h (bytesAt m₀ cfis))
    (hmade : MadeAt h p slot cfis false (TableKept p slot cfis m₀ prdtl) done a) : Covering h m₀ cfis prdtl done.toNat a := by
  obtain ⟨s, u, x, hkept, hu, hx, rfl⟩ := hmade
  have hsmall := hamp.small
  have hrange := hkept.range
  have hlen : x.len = BitVec.ofNat 32 (rwBytes h (bytesAt m₀ cfis)) := by
    rw [hx.len]
    show BitVec.ofNat 32 ((rwRange (bytesAt s.mem cfis)).2 * h.sectsz) = _
    rw [hrange]
    rfl
  have hlenNat : x.len.toNat = rwBytes h (bytesAt m₀ cfis) := by
    rw [hlen, BitVec.toNat_ofNat, Nat.mod_eq_of_lt (by omega)]
  have hus : u = s := by
    refine hu.resolve_right fun hzero => ?_
    rw [← hx.len] at hzero
    rw [hzero] at hlenNat
    exact Nat.not_lt_zero _ (hlenNat ▸ hlt)
  subst hus
  rw [hkept.2]
  have hltx : x.done < x.len := by
    rw [BitVec.lt_def, hlenNat, hx.done]
    exact hlt
  have hmoved : Moved h u.mem x.len x.done (cfis + 0x80) prdtl (x.built h u.mem (cfis + 0x80) prdtl).brResid := by
    refine built_moved hamp.sector ?_ (by omega) ?_ (by rwa [hx.done]) ?_ hltx
    · intro e he
      rw [hkept.bytes (by omega), hkept.bytes he]
      exact prdtBytes_add hamp (show e + 1 + 32 ≤ prdtl by omega)
    · rw [hlenNat, hkept.bytes (Nat.le_refl _)]
      exact hamp.enough
    · rw [hlenNat]
      exact Nat.dvd_mul_left _ _
  obtain ⟨hnat, hle⟩ := @built_done_toNat h x u.mem (cfis + 0x80) prdtl (BitVec.le_of_lt hltx)
  have hdone : (x.built h u.mem (cfis + 0x80) prdtl).done.toNat =
      done.toNat + (x.built h u.mem (cfis + 0x80) prdtl).brResid := by rw [hnat, hx.done]
  constructor
  · exact hlenNat
  · show x.brOffset = _
    rw [hx.offset]
    show BitVec.ofNat 64 ((rwRange (bytesAt u.mem cfis)).1 * h.sectsz) + _ = _
    rw [hrange]
    congr 1
    exact (BitVec.ofNat_toNat 64 done).symm
  · refine ⟨_, built_covers, ?_, covered_total hmoved.inBuffer⟩
    rw [covered_bytes, hkept.segs, hx.done]
  · exact hdone
  · rw [hdone, ← hlenNat, ← hx.done]
    exact hmoved.inside
  · rw [hdone]
    exact Nat.dvd_add hdvd hmoved.sectors
  · exact hmoved.positive
  · have hinside := hmoved.inside
    have hlast := hmoved.last
    rw [hx.done] at hinside hlast
    rw [Bool.eq_false_iff, ne_eq, built_more, BitVec.lt_def, hdone, hlenNat]
    rw [hlenNat] at hinside hlast
    constructor
    · intro hnot
      by_contra hne
      exact hnot ⟨by omega, fun hnil => hne (hlast (by rwa [hx.done] at hnil))⟩
    · rintro heq ⟨hless, -⟩
      omega

end Table

/-! ## All requests -/

/-- The bytes that requests move. -/
def residSum (as : List Ioreq) : Nat := (as.map Ioreq.brResid).sum

section Chain
variable {h : Host} {p : PortNo} {slot : Slot} {cfis prdtl : Nat} {m₀ : Mem} {s t : State} {a : Ioreq} {as : List Ioreq}

theorem Requests.before {atapi : Bool} {good : State → BitVec 32 → Prop} {post : List Ioreq}
    (hreq : Requests h p slot cfis atapi good (post ++ a :: as)) : Requests h p slot cfis atapi good (a :: as) := by
  induction post with
  | nil => exact hreq
  | cons b post ih =>
    apply ih
    cases post with
    | nil => exact hreq.prev.1
    | cons c post => exact hreq.prev.1

/-- Each request covers the part behind those before it. -/
theorem Requests.covering (hamp : Ample h m₀ cfis prdtl)
    (hreq : Requests h p slot cfis false (TableKept p slot cfis m₀ prdtl) (a :: as)) :
    Covering h m₀ cfis prdtl (residSum as) a := by
  induction as generalizing a with
  | nil =>
    have hpos : (0 : BitVec 32).toNat < rwBytes h (bytesAt m₀ cfis) := rwBytes_pos hamp.sector _
    have hcov := hreq.madeAt.covering hamp (Nat.dvd_zero _) hpos
    exact hcov
  | cons b as ih =>
    obtain ⟨hprev, hmore⟩ := hreq.prev
    have hcov := ih hprev
    have hsum : b.done.toNat = residSum (b :: as) := by
      rw [hcov.done]
      exact Nat.add_comm _ _
    have hne : b.done.toNat ≠ rwBytes h (bytesAt m₀ cfis) := by
      rw [ne_eq, ← hcov.last, hmore]
      exact nofun
    have hinside := hcov.inside
    have hlt : b.done.toNat < rwBytes h (bytesAt m₀ cfis) := by omega
    rw [← hsum]
    exact hreq.madeAt.covering hamp hcov.sectors hlt

/-- All of them together cover the front of the buffer. -/
theorem Requests.vectors (hamp : Ample h m₀ cfis prdtl)
    (hreq : Requests h p slot cfis false (TableKept p slot cfis m₀ prdtl) (a :: as)) :
    ∃ cs, Covers h ((a :: as).reverse.flatMap Ioreq.brIov) cs ∧
      bytes cs = (bytes (prdtSegs m₀ (cfis + 0x80) prdtl)).take (residSum (a :: as)) := by
  induction as generalizing a with
  | nil =>
    obtain ⟨cs, hcs, hbytes, -⟩ := (hreq.covering hamp).vectors
    refine ⟨cs, ?_, ?_⟩
    · simpa using hcs
    · rw [hbytes]
      simp [residSum]
  | cons b as ih =>
    obtain ⟨cs, hcs, hbytes⟩ := ih hreq.prev.1
    obtain ⟨cs', hcs', hbytes', -⟩ := (hreq.covering hamp).vectors
    refine ⟨cs ++ cs', ?_, ?_⟩
    · have hsplit : (a :: b :: as).reverse.flatMap Ioreq.brIov = (b :: as).reverse.flatMap Ioreq.brIov ++ a.brIov := by
        rw [List.reverse_cons, List.flatMap_append, List.flatMap_singleton]
      rw [hsplit]
      exact hcs.append hcs'
    · have hsum : residSum (a :: b :: as) = residSum (b :: as) + a.brResid := Nat.add_comm _ _
      rw [bytes_append, hbytes, hbytes', hsum, List.take_add]

theorem Requests.count (hamp : Ample h m₀ cfis prdtl)
    (hreq : Requests h p slot cfis false (TableKept p slot cfis m₀ prdtl) (a :: as)) : (a :: as).length ≤ residSum (a :: as) := by
  have hpos := (hreq.covering hamp).moves
  have hsum : residSum (a :: as) = a.brResid + residSum as := rfl
  induction as generalizing a with
  | nil =>
    rw [hsum, List.length_singleton]
    omega
  | cons b as ih =>
    have hbefore := ih hreq.prev.1 (hreq.prev.1.covering hamp).moves rfl
    rw [hsum, List.length_cons]
    omega

end Chain

end Xhyve.Emul.Ahci
