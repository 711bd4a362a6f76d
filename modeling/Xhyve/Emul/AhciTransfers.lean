import Xhyve.Emul.AhciRegisters
import Xhyve.Lib.Gather

/-!
# The requests of an AHCI transfer

The vectors of a request are gathered from the PRDT of the guest, from where the request before has ended. A request
that neither ends its transfer nor moves anything is one of 33 entries that do not hold a sector, or one of a transfer
that has 2 GiB left.
-/

namespace Xhyve.Emul.Ahci

open Xhyve.Lib Xhyve.Lib.Fallible Xhyve.Lib.Gather

/-! ## The PRDT -/

/-- An entry of the PRDT. -/
def prdtSeg (m : Mem) (prdt : Nat) : Seg 64 := ⟨BitVec.ofNat 64 (prdtDba m prdt), prdtSize m prdt⟩

def prdtSegs (m : Mem) (prdt n : Nat) : List (Seg 64) := (List.range n).map fun i => prdtSeg m (prdt + 16 * i)

/-- The bytes in the first `i` entries of the PRDT. -/
def prdtBytes (m : Mem) (prdt i : Nat) : Nat := ((List.range i).map fun j => prdtSize m (prdt + 16 * j)).sum

/-- The vector of a segment. -/
def vector (h : Host) (c : Seg 64) : Option Nat × Nat := (h.paddrGuest2host c.base.toNat c.size, c.size)

section Prdt
variable {h : Host} {m : Mem} {prdt n i : Nat}

theorem prdtSegs_succ : prdtSegs m prdt (n + 1) = prdtSeg m prdt :: prdtSegs m (prdt + 16) n := by
  have hshift : (fun i => prdtSeg m (prdt + 16 * i)) ∘ Nat.succ = fun i => prdtSeg m (prdt + 16 + 16 * i) := by
    funext i
    have haddr : prdt + 16 * i.succ = prdt + 16 + 16 * i := by omega
    simp only [Function.comp_apply, haddr]
  unfold prdtSegs
  rw [List.range_succ_eq_map, List.map_cons, List.map_map, hshift, Nat.mul_zero, Nat.add_zero]

theorem prdtSegs_length : (prdtSegs m prdt n).length = n := by simp [prdtSegs]

theorem prdtSegs_pos : ∀ seg ∈ prdtSegs m prdt n, 0 < seg.size := by
  intro seg hseg
  obtain ⟨i, -, rfl⟩ := List.mem_map.mp hseg
  exact Nat.succ_pos _

theorem total_prdtSegs : total (prdtSegs m prdt n) = prdtBytes m prdt n := by
  unfold total prdtSegs prdtBytes
  rw [List.map_map]
  rfl

theorem total_take_prdtSegs (hi : i ≤ n) : total ((prdtSegs m prdt n).take i) = prdtBytes m prdt i := by
  rw [← total_prdtSegs]
  unfold prdtSegs
  rw [← List.map_take, List.take_range, Nat.min_eq_left hi]

theorem prdtBytes_mono {j : Nat} (h : i ≤ j) : prdtBytes m prdt i ≤ prdtBytes m prdt j := by
  rw [← total_take_prdtSegs h, ← total_prdtSegs]
  exact total_take_le i

theorem vector_base (prdt skip size : Nat) :
    h.paddrGuest2host ((prdtDba m prdt + skip) % 2 ^ 64) size =
      (vector h ⟨(prdtSeg m prdt).base + BitVec.ofNat 64 skip, size⟩).1 := by
  show _ = h.paddrGuest2host (BitVec.ofNat 64 (prdtDba m prdt) + BitVec.ofNat 64 skip).toNat size
  rw [← BitVec.ofNat_add, BitVec.toNat_ofNat]

/-- The loop of `ahci_build_iov` gathers. -/
theorem buildIov_gather (n : Nat) {prdt skip left : Nat} {iov : List (Option Nat × Nat)} (hroom : iov.length ≤ blockifIovMax) :
    buildIov h m n prdt skip left iov =
      ((gather (blockifIovMax - iov.length) skip left (prdtSegs m prdt n)).2.length,
        iov ++ (gather (blockifIovMax - iov.length) skip left (prdtSegs m prdt n)).1.map (vector h)) := by
  induction n generalizing prdt skip left iov with
  | zero => simp [buildIov, prdtSegs, gather]
  | succ n ih =>
    have hmax : (iov.length < blockifIovMax ∧ 0 < left) ↔ (0 < blockifIovMax - iov.length ∧ 0 < left) := by omega
    have hsize : (prdtSeg m prdt).size = prdtSize m prdt := rfl
    rw [buildIov, prdtSegs_succ, gather]
    by_cases hgo : iov.length < blockifIovMax ∧ 0 < left
    · rw [if_pos hgo, if_pos (hmax.mp hgo), hsize]
      by_cases hskip : prdtSize m prdt ≤ skip
      · rw [if_pos hskip, if_pos hskip]
        exact ih hroom
      · rw [if_neg hskip, if_neg hskip]
        have hlen : ∀ v : Option Nat × Nat, (iov ++ [v]).length ≤ blockifIovMax := by
          intro v
          rw [List.length_append, List.length_singleton]
          omega
        have hless : ∀ v : Option Nat × Nat, blockifIovMax - (iov ++ [v]).length = blockifIovMax - iov.length - 1 := by
          intro v
          rw [List.length_append, List.length_singleton]
          omega
        dsimp only
        rw [ih (hlen _), hless, vector_base]
        simp [vector]
    · rw [if_neg hgo, if_neg fun hc => hgo (hmax.mpr hc)]
      simp [prdtSegs_length]

end Prdt

/-! ## One call -/

/-- The bytes of the transfer that are left. `left` is an `int`, which has none from 2 GiB on. -/
def leftBytes (len done : BitVec 32) : Nat := (len - done).toInt.toNat

/-- What the vectors of a request are made of. -/
def chunks (m : Mem) (len done : BitVec 32) (prdt prdtl : Nat) : List (Seg 64) :=
  (gather blockifIovMax done.toNat (leftBytes len done) (prdtSegs m prdt prdtl)).1

/-- From a byte on, 33 entries of the PRDT begin before the transfer ends, and they end less than a sector behind. -/
def Crowded (h : Host) (m : Mem) (len done : BitVec 32) (prdt prdtl : Nat) : Prop :=
  ∃ e, e + 33 ≤ prdtl ∧ prdtBytes m prdt e ≤ done.toNat ∧ done.toNat < prdtBytes m prdt (e + 1) ∧
    prdtBytes m prdt (e + 32) < len.toNat ∧ min (prdtBytes m prdt (e + 33)) len.toNat < done.toNat + h.sectsz

/-- The rest of a transfer is less than 2 GiB or has no PRDT, and the next sector is not scattered over more entries
than a request has vectors. -/
structure Roomy (h : Host) (m : Mem) (len done : BitVec 32) (prdt prdtl : Nat) : Prop where
  left : (len - done).toNat < 2 ^ 31 ∨ prdtl = 0
  sector : ¬ Crowded h m len done prdt prdtl

section Call
variable {h : Host} {p : PortNo} {aior : Ioreq} {s : State} {m : Mem} {len done : BitVec 32} {prdt prdtl : Nat}

theorem leftBytes_small (hle : done ≤ len) (h : (len - done).toNat < 2 ^ 31) :
    leftBytes len done = len.toNat - done.toNat := by
  unfold leftBytes
  have hint : (len - done).toInt = (len - done).toNat := BitVec.toInt_eq_toNat_of_lt (by omega)
  rw [hint, Int.toNat_natCast, BitVec.toNat_sub_of_le hle]

theorem leftBytes_large (h : 2 ^ 31 ≤ (len - done).toNat) : leftBytes len done = 0 := by
  unfold leftBytes
  rw [BitVec.toInt_eq_toNat_cond, if_neg (by omega)]
  have hlt := (len - done).isLt
  omega

theorem gatherIov_eq : gatherIov h m len done prdt prdtl =
    ((gather blockifIovMax done.toNat (leftBytes len done) (prdtSegs m prdt prdtl)).2.length,
      (chunks m len done prdt prdtl).map (vector h)) := by
  unfold gatherIov chunks leftBytes
  rw [buildIov_gather prdtl (Nat.zero_le _)]
  rfl

theorem iovBytes_map (cs : List (Seg 64)) : iovBytes (cs.map (vector h)) = total cs := by
  unfold iovBytes total
  rw [List.map_map]
  rfl

/-- `ahci_build_iov` on a port with a disk. -/
theorem ahciBuildIov_eq (hbacked : (s.port p).backed = true) : ahciBuildIov h p aior prdt prdtl s =
    if starved h s.mem aior.len aior.done prdt prdtl then .error .noData s else .ok (aior.built h s.mem prdt prdtl) s := by
  have hctx : withBctx p s = .ok () s := by rw [withBctx_eq, if_pos hbacked]
  unfold ahciBuildIov
  rw [bind_of_ok (show getMem s = .ok s.mem s from rfl)]
  unfold starved Ioreq.built iovExtra gatherIov
  dsimp only
  split
  · rename_i hfull
    rw [bind_of_ok hctx]
    split
    · rename_i hdata
      rw [if_pos (decide_eq_true ⟨hfull, hdata⟩)]
      rfl
    · rename_i hdata
      rw [if_neg (by rw [decide_eq_true_iff]; exact fun hc => hdata hc.2)]
      rfl
  · rename_i hfull
    rw [if_neg (by rw [decide_eq_true_iff]; exact fun hc => hfull hc.1)]
    rfl

/-- Some entry of the PRDT holds the byte. -/
theorem exists_entry {d n : Nat} (h : d < prdtBytes m prdt n) :
    ∃ e, e < n ∧ prdtBytes m prdt e ≤ d ∧ d < prdtBytes m prdt (e + 1) := by
  induction n with
  | zero => cases h
  | succ n ih =>
    by_cases hlt : d < prdtBytes m prdt n
    · obtain ⟨e, he, hbytes⟩ := ih hlt
      exact ⟨e, by omega, hbytes⟩
    · exact ⟨n, Nat.lt_succ_self n, by omega, h⟩

/-- Nothing is gathered behind the end of the PRDT. -/
theorem chunks_past (hleft : 0 < leftBytes len done) (hpast : prdtBytes m prdt prdtl ≤ done.toNat) :
    chunks m len done prdt prdtl = [] := by
  unfold chunks
  have htotal : total ((prdtSegs m prdt prdtl).take prdtl) ≤ done.toNat := by
    rw [total_take_prdtSegs (Nat.le_refl prdtl)]
    exact hpast
  have hdrop : (prdtSegs m prdt prdtl).drop prdtl = [] := List.drop_eq_nil_of_le (by rw [prdtSegs_length])
  rw [gather_skip (by rw [prdtSegs_length]) htotal (by decide) hleft, hdrop]
  rfl

section Entry
variable {e : Nat} (he : e < prdtl) (hbegin : prdtBytes m prdt e ≤ done.toNat) (hend : done.toNat < prdtBytes m prdt (e + 1))
  (hleft : 0 < leftBytes len done)
include he hbegin hend hleft

/-- From the entry that holds the first byte, -/
theorem chunks_total (hroom : e + 33 ≤ prdtl) : total (chunks m len done prdt prdtl) =
    min (leftBytes len done) (prdtBytes m prdt (e + 33) - done.toNat) := by
  rw [← total_take_prdtSegs (Nat.le_of_lt he)] at hbegin
  rw [← total_take_prdtSegs (Nat.succ_le_of_lt he)] at hend
  have hgather := @gather_total 64 32 _ _ _ _ prdtSegs_pos hbegin hend hleft
  rw [total_take_prdtSegs hroom] at hgather
  exact hgather

/-- 33 entries are gathered if they begin before the end. -/
theorem chunks_full : (chunks m len done prdt prdtl).length = blockifIovMax ↔
    e + 33 ≤ prdtl ∧ prdtBytes m prdt (e + 32) < done.toNat + leftBytes len done := by
  rw [← total_take_prdtSegs (Nat.le_of_lt he)] at hbegin
  rw [← total_take_prdtSegs (Nat.succ_le_of_lt he)] at hend
  have hgather := @gather_full 64 32 _ _ _ _ prdtSegs_pos hbegin hend hleft
  rw [prdtSegs_length] at hgather
  refine hgather.trans (and_congr_right fun hroom => ?_)
  rw [total_take_prdtSegs (by omega)]

end Entry

/-- Vectors without a sector. -/
theorem starved_iff (hsect : 0 < h.sectsz) : starved h m len done prdt prdtl = true ↔
    (chunks m len done prdt prdtl).length = blockifIovMax ∧ total (chunks m len done prdt prdtl) < h.sectsz := by
  unfold starved
  rw [gatherIov_eq]
  dsimp only
  rw [decide_eq_true_iff, iovBytes_map, List.length_map]
  refine and_congr_right fun _ => ?_
  constructor
  · intro hzero
    have hdiv := Nat.div_add_mod (total (chunks m len done prdt prdtl)) h.sectsz
    have hlt := Nat.mod_lt (total (chunks m len done prdt prdtl)) hsect
    omega
  · intro hlt
    rw [Nat.mod_eq_of_lt hlt, Nat.sub_self]

theorem starved_crowded (hsect : 0 < h.sectsz) (hlt : done < len) (hleft : (len - done).toNat < 2 ^ 31) :
    starved h m len done prdt prdtl = true ↔ Crowded h m len done prdt prdtl := by
  have hleft' := leftBytes_small (BitVec.le_of_lt hlt) hleft
  rw [BitVec.lt_def] at hlt
  have hpos : 0 < leftBytes len done := by omega
  rw [starved_iff hsect]
  constructor
  · rintro ⟨hfull, hsmall⟩
    by_cases hin : done.toNat < prdtBytes m prdt prdtl
    · obtain ⟨e, he, hbegin, hend⟩ := exists_entry hin
      obtain ⟨hroom, hbefore⟩ := (chunks_full he hbegin hend hpos).mp hfull
      rw [chunks_total he hbegin hend hpos hroom] at hsmall
      refine ⟨e, hroom, hbegin, hend, by omega, ?_⟩
      have hmono : prdtBytes m prdt (e + 1) ≤ prdtBytes m prdt (e + 33) := prdtBytes_mono (by omega)
      omega
    · rw [chunks_past hpos (by omega)] at hfull
      cases hfull
  · rintro ⟨e, hroom, hbegin, hend, hbefore, hsmall⟩
    have he : e < prdtl := by omega
    refine ⟨(chunks_full he hbegin hend hpos).mpr ⟨hroom, by omega⟩, ?_⟩
    have hmono : prdtBytes m prdt (e + 1) ≤ prdtBytes m prdt (e + 33) := prdtBytes_mono (by omega)
    rw [chunks_total he hbegin hend hpos hroom]
    omega

/-- The bytes of a request. -/
theorem built_brResid : (aior.built h m prdt prdtl).brResid =
    total (chunks m aior.len aior.done prdt prdtl) -
      if (chunks m aior.len aior.done prdt prdtl).length = blockifIovMax then
        total (chunks m aior.len aior.done prdt prdtl) % h.sectsz else 0 := by
  show iovBytes (gatherIov h m aior.len aior.done prdt prdtl).2 - iovExtra h (gatherIov h m aior.len aior.done prdt prdtl).2 = _
  unfold iovExtra
  rw [gatherIov_eq, iovBytes_map, List.length_map]

theorem built_done : (aior.built h m prdt prdtl).done =
    aior.done + BitVec.ofNat 32 (aior.built h m prdt prdtl).brResid := rfl

/-- Whether there is more to do. -/
theorem built_more : (aior.built h m prdt prdtl).more = true ↔ (aior.built h m prdt prdtl).done < aior.len ∧
    (gather blockifIovMax aior.done.toNat (leftBytes aior.len aior.done) (prdtSegs m prdt prdtl)).2 ≠ [] := by
  show decide ((aior.built h m prdt prdtl).done < aior.len ∧ 0 < (gatherIov h m aior.len aior.done prdt prdtl).1) = true ↔ _
  rw [decide_eq_true_iff, gatherIov_eq]
  exact and_congr_right fun _ => List.length_pos_iff

/-- A request that is not full is the last of its transfer. -/
theorem built_last (hle : aior.done ≤ aior.len) (hleft : (aior.len - aior.done).toNat < 2 ^ 31)
    (hroom : (chunks m aior.len aior.done prdt prdtl).length < blockifIovMax) : (aior.built h m prdt prdtl).more = false := by
  rw [Bool.eq_false_iff, ne_eq, built_more]
  rintro ⟨hless, hmore⟩
  rcases gather_complete hroom with hnil | hall
  · exact hmore hnil
  · have hall' : total (chunks m aior.len aior.done prdt prdtl) = leftBytes aior.len aior.done := hall
    have hdone : aior.done + BitVec.ofNat 32 (leftBytes aior.len aior.done) = aior.len := by
      apply BitVec.eq_of_toNat_eq
      rw [BitVec.le_def] at hle
      rw [leftBytes_small hle hleft, BitVec.toNat_add, BitVec.toNat_ofNat]
      omega
    rw [built_done, built_brResid, if_neg (by omega), Nat.sub_zero, hall', hdone] at hless
    exact absurd hless (BitVec.lt_irrefl _)

/-- A request ends its transfer or moves something, exactly where there is room. -/
theorem built_progresses (hsect : 0 < h.sectsz) (hlt : aior.done < aior.len) :
    starved h m aior.len aior.done prdt prdtl = false ∧
      ((aior.built h m prdt prdtl).more = false ∨ 0 < (aior.built h m prdt prdtl).brResid) ↔
      Roomy h m aior.len aior.done prdt prdtl := by
  have hle : aior.done ≤ aior.len := BitVec.le_of_lt hlt
  by_cases hleft : (aior.len - aior.done).toNat < 2 ^ 31
  · have hstarved := @starved_crowded h m aior.len aior.done prdt prdtl hsect hlt hleft
    constructor
    · rintro ⟨hdata, -⟩
      refine ⟨Or.inl hleft, fun hc => ?_⟩
      rw [hstarved.mpr hc] at hdata
      cases hdata
    · rintro ⟨-, hsector⟩
      have hdata : ¬ starved h m aior.len aior.done prdt prdtl = true := fun hs => hsector (hstarved.mp hs)
      refine ⟨Bool.eq_false_iff.mpr hdata, ?_⟩
      by_cases hfull : (chunks m aior.len aior.done prdt prdtl).length = blockifIovMax
      · right
        have hsmall : ¬ total (chunks m aior.len aior.done prdt prdtl) < h.sectsz :=
          fun hc => hdata ((starved_iff hsect).mpr ⟨hfull, hc⟩)
        have hmod := Nat.mod_lt (total (chunks m aior.len aior.done prdt prdtl)) hsect
        rw [built_brResid, if_pos hfull]
        omega
      · left
        have hroom : (chunks m aior.len aior.done prdt prdtl).length ≤ blockifIovMax := gather_length_le
        exact built_last hle hleft (by omega)
  · -- nothing is gathered, and the transfer ends only if there are no entries to look at
    have hnone : ∀ prdtl, gather blockifIovMax aior.done.toNat (leftBytes aior.len aior.done) (prdtSegs m prdt prdtl) =
        ([], prdtSegs m prdt prdtl) := by
      intro prdtl
      rw [leftBytes_large (by omega)]
      exact gather_done (by omega)
    have hchunks : chunks m aior.len aior.done prdt prdtl = [] := by
      unfold chunks
      rw [hnone]
    have hdata : ¬ starved h m aior.len aior.done prdt prdtl = true := by
      rw [starved_iff hsect, hchunks]
      exact fun hc => absurd hc.1 (by decide)
    have hresid : (aior.built h m prdt prdtl).brResid = 0 := by
      rw [built_brResid, hchunks]
      rfl
    have hmore : (aior.built h m prdt prdtl).more = true ↔ prdtl ≠ 0 := by
      rw [built_more, built_done, hresid, hnone, ← List.length_pos_iff, prdtSegs_length, Nat.pos_iff_ne_zero]
      exact and_iff_right (by rwa [BitVec.add_zero])
    constructor
    · rintro ⟨-, hdone⟩
      rw [hresid] at hdone
      have hzero : prdtl = 0 := by
        by_contra hne
        rw [hmore.mpr hne] at hdone
        exact hdone.elim nofun (Nat.lt_irrefl 0)
      refine ⟨Or.inr hzero, ?_⟩
      rintro ⟨e, hroom, -⟩
      omega
    · rintro ⟨hzero, -⟩
      refine ⟨Bool.eq_false_iff.mpr hdata, Or.inl ?_⟩
      rw [Bool.eq_false_iff, ne_eq, hmore]
      exact fun hne => hne (hzero.resolve_left hleft)

theorem call_progresses (hbacked : (s.port p).backed = true) (hsect : 0 < h.sectsz) (hlt : aior.done < aior.len) :
    (∃ a, ahciBuildIov h p aior prdt prdtl s = .ok a s ∧ (a.more = false ∨ 0 < a.brResid)) ↔
      Roomy h s.mem aior.len aior.done prdt prdtl := by
  rw [ahciBuildIov_eq hbacked, ← built_progresses hsect hlt]
  constructor
  · rintro ⟨a, ha, hdone⟩
    split at ha
    · cases ha
    · rename_i hdata
      obtain rfl := (EStateM.Result.ok.inj ha).1
      exact ⟨Bool.eq_false_iff.mpr hdata, hdone⟩
  · rintro ⟨hdata, hdone⟩
    exact ⟨_, by rw [hdata]; rfl, hdone⟩

theorem leftBytes_le (hle : done ≤ len) : leftBytes len done ≤ len.toNat - done.toNat := by
  by_cases hleft : (len - done).toNat < 2 ^ 31
  · rw [leftBytes_small hle hleft]
  · rw [leftBytes_large (by omega)]
    exact Nat.zero_le _

/-- What is done stays inside the transfer. -/
theorem built_done_toNat (hle : aior.done ≤ aior.len) :
    (aior.built h m prdt prdtl).done.toNat = aior.done.toNat + (aior.built h m prdt prdtl).brResid ∧
      (aior.built h m prdt prdtl).done ≤ aior.len := by
  have hleft := leftBytes_le hle
  have htotal : total (chunks m aior.len aior.done prdt prdtl) ≤ leftBytes aior.len aior.done := gather_total_le
  have hresid : (aior.built h m prdt prdtl).brResid ≤ total (chunks m aior.len aior.done prdt prdtl) := by
    rw [built_brResid]
    exact Nat.sub_le _ _
  have hlen := aior.len.isLt
  rw [BitVec.le_def] at hle
  have hnat : (aior.built h m prdt prdtl).done.toNat = aior.done.toNat + (aior.built h m prdt prdtl).brResid := by
    rw [built_done, BitVec.toNat_add, BitVec.toNat_ofNat]
    omega
  refine ⟨hnat, ?_⟩
  rw [BitVec.le_def, hnat]
  omega

end Call

/-! ## All requests of a command -/

/-- The number of bytes of a read or write, -/
def transferLen (h : Host) (atapi : Bool) (c : Nat → UInt8) : BitVec 32 :=
  if atapi then BitVec.ofNat 32 (atapiReadLen c * 2048) else BitVec.ofNat 32 ((rwRange c).2 * h.sectsz)

/-- and where on the disk they are. -/
def transferOffset (h : Host) (atapi : Bool) (c : Nat → UInt8) : BitVec 64 :=
  if atapi then BitVec.ofNat 64 (be32dec c 0x42 * 2048) else BitVec.ofNat 64 ((rwRange c).1 * h.sectsz)

/-- `ahci_handle_rw` or `atapi_read`. -/
def transfer (h : Host) (p : PortNo) (slot : Slot) (cfis : Nat) (atapi : Bool) (done : BitVec 32) : AhciM Unit :=
  if atapi then atapiRead h p slot cfis done else ahciHandleRw h p slot cfis done

/-- The request that was handed over last. -/
def newest (pr : Port) : Option Ioreq := pr.iobhd.head?.map pr.ioreq

def tablePrdtl (s : State) (p : PortNo) (slot : Slot) : Nat := hdrPrdtl s.mem (hdrOf (s.port p) slot)

section Command
variable (h : Host) (p : PortNo) (slot : Slot) (cfis : Nat) (atapi : Bool)

/-- The requests of a command that have been made, the last first, each behind the one before. Whatever happens in between,
the request is in its place when its callback comes, and where the rest of the command is begun the state is a `good` one
for what is done. -/
inductive Requests (good : State → BitVec 32 → Prop) : List Ioreq → Prop
  | first {s t : State} {a : Ioreq} (start : good s 0) (run : transfer h p slot cfis atapi 0 s = .ok () t)
      (made : newest (t.port p) = some a) : Requests good [a]
  | next {s t : State} {r : Nat} {a b : Ioreq} {as : List Ioreq} (prev : Requests good (a :: as)) (more : a.more = true)
      (busy : (s.port p).ioreq r = a) (kind : (s.port p).atapi = atapi)
      (rw : atapi = false → isDsm (bytesAt s.mem cfis) = false)
      (start : good ((s.freed p r).counted p a false) a.done) (run : ioreqCb h p r false s = .ok () t)
      (made : newest (t.port p) = some b) : Requests good (b :: a :: as)

/-- The state has room for the rest of a command of `len` bytes. -/
def RoomyAt (len : BitVec 32) (s : State) (done : BitVec 32) : Prop :=
  transferLen h atapi (bytesAt s.mem cfis) = len ∧ (done < len → Roomy h s.mem len done (cfis + 0x80) (tablePrdtl s p slot))

end Command

section Chain
variable {h : Host} {p : PortNo} {slot : Slot} {cfis r : Nat} {atapi accepted : Bool} {done : BitVec 32} {a b : Ioreq}
  {as : List Ioreq} {s t u : State}

theorem Submitted.made (hsub : Submitted h p accepted a s t) : newest (t.port p) = some a := by
  obtain ⟨r, rest, x, -, hport⟩ := hsub.port
  rw [hport]
  have hhead : newest ((s.port p).submitted r rest a) = some a := by
    show some (Function.update (s.port p).ioreq r a r) = _
    rw [Function.update_self]
  split
  · exact hhead
  · exact hhead

/-- What a call makes. -/
structure Made (h : Host) (slot : Slot) (cfis : Nat) (atapi : Bool) (done : BitVec 32) (c : Nat → UInt8) (x : Ioreq) : Prop where
  offset : x.brOffset = transferOffset h atapi c + done.setWidth 64
  len : x.len = transferLen h atapi c
  done : x.done = done
  slot : x.slot = slot
  cfis : x.cfis = cfis

theorem transfer_ok (hok : transfer h p slot cfis atapi done s = .ok () t) :
    ∃ u x, (u = s ∨ transferLen h atapi (bytesAt s.mem cfis) = 0) ∧
      Made h slot cfis atapi done (bytesAt s.mem cfis) x ∧
      newest (t.port p) = some (x.built h u.mem (cfis + 0x80) (tablePrdtl u p slot)) := by
  unfold transfer at hok
  cases atapi with
  | true =>
    rw [if_pos rfl] at hok
    obtain ⟨u, r, rest, hpre, -, hsub⟩ := atapiRead_ok hok
    refine ⟨u, _, ?_, ⟨rfl, rfl, rfl, rfl, rfl⟩, hsub.made⟩
    unfold ReadPrelude at hpre
    split at hpre
    · rename_i hzero
      refine Or.inr ?_
      show BitVec.ofNat 32 (atapiReadLen (bytesAt s.mem cfis) * 2048) = 0
      rw [hzero]
      rfl
    · exact Or.inl hpre
  | false =>
    rw [if_neg nofun] at hok
    obtain ⟨r, rest, -, hsub, -⟩ := handleRw_ok hok
    exact ⟨s, _, Or.inl rfl, ⟨rfl, rfl, rfl, rfl, rfl⟩, hsub.made⟩

/-- A callback whose command is not complete begins the rest of it. -/
theorem ioreqCb_transfer (hok : ioreqCb h p r false s = .ok () t) (hbusy : (s.port p).ioreq r = a) (hmore : a.more = true)
    (hkind : (s.port p).atapi = atapi) (hslot : a.slot = slot) (hcfis : a.cfis = cfis)
    (hrw : atapi = false → isDsm (bytesAt s.mem cfis) = false) :
    transfer h p slot cfis atapi a.done ((s.freed p r).counted p a false) = .ok () t := by
  cases ioreqCb_ok hok with
  | continued _ hrun =>
    rw [hbusy, hkind] at hrun
    unfold continueCommand at hrun
    unfold transfer
    rw [hslot, hcfis] at hrun
    cases atapi with
    | true => exact hrun
    | false =>
      rw [if_neg nofun, hrw rfl, if_neg nofun] at hrun
      exact hrun
  | ended hover =>
    rw [hbusy, hmore] at hover
    exact hover.elim nofun nofun

/-- A request of zero bytes is the last. -/
theorem built_empty {m : Mem} {prdt prdtl : Nat} (hlen : a.len = 0) : (a.built h m prdt prdtl).more = false := by
  rw [Bool.eq_false_iff, ne_eq, built_more, hlen]
  rintro ⟨hlt, -⟩
  exact absurd hlt (by rw [BitVec.lt_def]; exact Nat.not_lt_zero _)

/-- What the requests before have done. -/
def doneBefore : List Ioreq → BitVec 32
  | [] => 0
  | a :: _ => a.done

/-- A request that was made in a good state. -/
def MadeAt (h : Host) (p : PortNo) (slot : Slot) (cfis : Nat) (atapi : Bool) (good : State → BitVec 32 → Prop)
    (done : BitVec 32) (a : Ioreq) : Prop :=
  ∃ s u x, good s done ∧ (u = s ∨ transferLen h atapi (bytesAt s.mem cfis) = 0) ∧
    Made h slot cfis atapi done (bytesAt s.mem cfis) x ∧ a = x.built h u.mem (cfis + 0x80) (tablePrdtl u p slot)

variable {good : State → BitVec 32 → Prop}

theorem MadeAt.place (hmade : MadeAt h p slot cfis atapi good done a) : a.slot = slot ∧ a.cfis = cfis := by
  obtain ⟨s, u, x, -, -, hx, rfl⟩ := hmade
  exact ⟨hx.slot, hx.cfis⟩

theorem madeAt_of_transfer (hgood : good s done) (hrun : transfer h p slot cfis atapi done s = .ok () t)
    (hnew : newest (t.port p) = some a) : MadeAt h p slot cfis atapi good done a := by
  obtain ⟨u, x, hu, hx, hmade⟩ := transfer_ok hrun
  rw [hmade] at hnew
  exact ⟨s, u, x, hgood, hu, hx, (Option.some.inj hnew).symm⟩

theorem Requests.prev (hreq : Requests h p slot cfis atapi good (b :: a :: as)) :
    Requests h p slot cfis atapi good (a :: as) ∧ a.more = true := by
  cases hreq with
  | next prev more => exact ⟨prev, more⟩

/-- Each request is made from where the one before has ended. -/
theorem Requests.madeAt (hreq : Requests h p slot cfis atapi good (a :: as)) :
    MadeAt h p slot cfis atapi good (doneBefore as) a := by
  induction as generalizing a with
  | nil =>
    cases hreq with
    | first start run made => exact madeAt_of_transfer start run made
  | cons b as ih =>
    cases hreq with
    | next prev more busy kind rw start run made =>
      obtain ⟨hslot, hcfis⟩ := (ih prev).place
      exact madeAt_of_transfer start (ioreqCb_transfer run busy more kind hslot hcfis rw) made

section Progress
variable {len : BitVec 32}

theorem zero_lt_of_ne (hne : len ≠ 0) : 0 < len := by
  rw [BitVec.lt_def]
  apply Nat.pos_of_ne_zero
  intro hzero
  exact hne (BitVec.eq_of_toNat_eq hzero)

/-- A request of a command with room. -/
theorem MadeAt.progress (hsect : 0 < h.sectsz) (hle : done = 0 ∨ done < len)
    (hmade : MadeAt h p slot cfis atapi (RoomyAt h p slot cfis atapi len) done a) :
    a.len = len ∧ a.done ≤ len ∧ a.done.toNat = done.toNat + a.brResid ∧ (a.more = false ∨ 0 < a.brResid) := by
  obtain ⟨s, u, x, ⟨hlen, hroomy⟩, hu, hx, rfl⟩ := hmade
  have hxlen : x.len = len := hx.len.trans hlen
  have hxle : x.done ≤ x.len := by
    rw [hx.done, hxlen]
    rcases hle with rfl | hlt
    · rw [BitVec.le_def]
      exact Nat.zero_le _
    · exact BitVec.le_of_lt hlt
  obtain ⟨hnat, hdone⟩ := @built_done_toNat h x u.mem (cfis + 0x80) (tablePrdtl u p slot) hxle
  rw [hxlen] at hdone
  rw [hx.done] at hnat
  refine ⟨hxlen, hdone, hnat, ?_⟩
  by_cases hzero : len = 0
  · exact Or.inl (built_empty (hxlen.trans hzero))
  · have hlt : x.done < x.len := by
      rw [hx.done, hxlen]
      rcases hle with rfl | hlt
      · exact zero_lt_of_ne hzero
      · exact hlt
    have hus : u = s := hu.resolve_right fun h0 => hzero (hlen.symm.trans h0)
    have hroom : Roomy h u.mem x.len x.done (cfis + 0x80) (tablePrdtl u p slot) := by
      rw [hus, hxlen, hx.done]
      rw [hx.done, hxlen] at hlt
      exact hroomy hlt
    exact ((built_progresses hsect hlt).mpr hroom).2

theorem MadeAt.more_lt (hmade : MadeAt h p slot cfis atapi good done a) (hmore : a.more = true) : a.done < a.len := by
  obtain ⟨s, u, x, -, -, -, rfl⟩ := hmade
  exact (built_more.mp hmore).1

/-- The requests of a command with room: there are no more of them than bytes. -/
theorem Requests.progress (hsect : 0 < h.sectsz)
    (hreq : Requests h p slot cfis atapi (RoomyAt h p slot cfis atapi len) (a :: as)) :
    a.len = len ∧ a.done ≤ len ∧ (∀ b ∈ a :: as, b.more = false ∨ 0 < b.brResid) ∧
      as.length ≤ a.done.toNat ∧ (a.more = true → as.length < a.done.toNat) := by
  induction as generalizing a with
  | nil =>
    obtain ⟨hlen, hle, hnat, hdone⟩ := hreq.madeAt.progress hsect (Or.inl rfl)
    refine ⟨hlen, hle, ?_, Nat.zero_le _, fun hmore => ?_⟩
    · intro b hb
      rw [List.mem_singleton.mp hb]
      exact hdone
    · rw [hmore] at hdone
      have hpos := hdone.resolve_left nofun
      rw [List.length_nil]
      omega
  | cons b as ih =>
    obtain ⟨hprev, hmore⟩ := hreq.prev
    obtain ⟨hblen, -, hall, -, hless⟩ := ih hprev
    have hlt : b.done < len := by
      rw [← hblen]
      exact hprev.madeAt.more_lt hmore
    obtain ⟨hlen, hle, hnat, hdone⟩ := hreq.madeAt.progress hsect (Or.inr hlt)
    have hcount := hless hmore
    have hbefore : a.done.toNat = b.done.toNat + a.brResid := hnat
    rw [List.length_cons]
    refine ⟨hlen, hle, ?_, by omega, fun hmore => ?_⟩
    · intro c hc
      rcases List.mem_cons.mp hc with rfl | hc
      · exact hdone
      · exact hall c hc
    · rw [hmore] at hdone
      have hpos := hdone.resolve_left nofun
      omega

/-- With room, the assertion holds. -/
theorem transfer_stop (hsect : 0 < h.sectsz) (hroomy : RoomyAt h p slot cfis atapi len s done) (hle : done = 0 ∨ done < len) :
    transfer h p slot cfis atapi done s ≠ .error .noData t := by
  obtain ⟨hlen, hroomy⟩ := hroomy
  -- the vectors hold a sector, or there is nothing to transfer
  have hdata : ∀ u : State, u = s ∨ len = 0 → starved h u.mem len done (cfis + 0x80) (tablePrdtl u p slot) = false := by
    intro u hu
    by_cases hlt : done < len
    · have hne : len ≠ 0 := fun h0 => by rw [h0, BitVec.lt_def] at hlt; exact Nat.not_lt_zero _ hlt
      rw [hu.resolve_right hne]
      have hbuilt := (@built_progresses h ⟨0, [], 0, 0, len, done, 0, false⟩ s.mem (cfis + 0x80) (tablePrdtl s p slot) hsect
        hlt).mpr (hroomy hlt)
      exact hbuilt.1
    · have hzero : len = done := by
        rcases hle with rfl | hlt'
        · by_contra hne
          exact hlt (zero_lt_of_ne hne)
        · exact absurd hlt' hlt
      rw [Bool.eq_false_iff, ne_eq, starved_iff hsect]
      have hnone : chunks u.mem len done (cfis + 0x80) (tablePrdtl u p slot) = [] := by
        unfold chunks leftBytes
        rw [hzero, BitVec.sub_self, gather_done (by decide)]
      rw [hnone]
      exact fun hc => absurd hc.1 (by decide)
  have hsubmit : ¬ SubmitStop p s .noData := by
    rintro ((hnull | ⟨huninit, -⟩) | ⟨hreq, -⟩ | ⟨hblock, -⟩)
    · cases hnull
    · cases huninit
    · cases hreq
    · cases hblock
  intro herr
  unfold transfer at herr
  cases atapi with
  | true =>
    rw [if_pos rfl] at herr
    rcases atapiRead_stop herr with hstop | ⟨-, u, hbegun, hstarved⟩
    · exact hsubmit hstop
    · have hu : u = s ∨ len = 0 := by
        unfold ReadBegun at hbegun
        split at hbegun
        · rename_i hzero
          refine Or.inr (hlen.symm.trans ?_)
          show BitVec.ofNat 32 (atapiReadLen (bytesAt s.mem cfis) * 2048) = 0
          rw [hzero]
          rfl
        · exact Or.inl hbegun
      have hno := hdata u hu
      rw [← hlen] at hno
      exact absurd (hstarved.symm.trans hno) nofun
  | false =>
    rw [if_neg nofun] at herr
    rcases handleRw_stop herr with hstop | ⟨-, hstarved⟩
    · exact hsubmit hstop
    · have hno := hdata s (Or.inl rfl)
      rw [← hlen] at hno
      exact absurd (hstarved.symm.trans hno) nofun

end Progress

end Chain

/-- A call for an unfinished transfer keeps its assertion and ends the transfer or moves something, exactly where what is
left is less than 2 GiB or has no PRDT, and the next sector is not scattered over more than 33 entries. A command all of
whose calls are such calls has no more requests than bytes. -/
theorem transfer_progresses (h : Host) (p : PortNo) (slot : Slot) (cfis : Nat) (hsect : 0 < h.sectsz) :
    (∀ (aior : Ioreq) (s : State) (prdt prdtl : Nat), (s.port p).backed = true → aior.done < aior.len →
      ((∃ a, ahciBuildIov h p aior prdt prdtl s = .ok a s ∧ (a.more = false ∨ 0 < a.brResid)) ↔
        Roomy h s.mem aior.len aior.done prdt prdtl)) ∧
    (∀ (atapi : Bool) (len done : BitVec 32) (s t : State), RoomyAt h p slot cfis atapi len s done → done = 0 ∨ done < len →
      transfer h p slot cfis atapi done s ≠ .error .noData t) ∧
    (∀ (atapi : Bool) (len : BitVec 32) (as : List Ioreq),
      Requests h p slot cfis atapi (RoomyAt h p slot cfis atapi len) as →
        as.length ≤ len.toNat + 1 ∧ ∀ a ∈ as, a.more = false ∨ 0 < a.brResid) := by
  refine ⟨fun aior s prdt prdtl hbacked hlt => call_progresses hbacked hsect hlt,
    fun atapi len done s t hroomy hle => transfer_stop hsect hroomy hle, fun atapi len as hreq => ?_⟩
  cases as with
  | nil => cases hreq
  | cons a as =>
    obtain ⟨-, hle, hall, hcount, -⟩ := hreq.progress hsect
    rw [BitVec.le_def] at hle
    rw [List.length_cons]
    exact ⟨by omega, hall⟩

/-- A read of one sector that has not begun. -/
def oneSector : Ioreq := ⟨0, [], 0, 0, 512, 0, 0, false⟩

/-- One entry, of one byte. -/
theorem transfer_progresses_short : ∃ a,
    ahciBuildIov flatHost 0 oneSector 0x80 1 (startState flatHost false fun _ => 0) =
      .ok a (startState flatHost false fun _ => 0) ∧ (a.more = false ∨ 0 < a.brResid) := by
  obtain ⟨hcall, -, -⟩ := transfer_progresses flatHost 0 0 0 (by decide)
  refine (hcall oneSector (startState flatHost false fun _ => 0) 0x80 1 rfl (by decide)).mpr ⟨Or.inl (by decide), ?_⟩
  rintro ⟨e, hroom, -⟩
  omega

/-- 33 entries of one byte each. -/
theorem transfer_starved : ¬ ∃ a,
    ahciBuildIov flatHost 0 oneSector 0x80 33 (startState flatHost false fun _ => 0) =
      .ok a (startState flatHost false fun _ => 0) ∧ (a.more = false ∨ 0 < a.brResid) := by
  rw [call_progresses rfl (by decide) (by decide)]
  rintro ⟨-, hsector⟩
  exact hsector ⟨0, by decide, by decide +kernel, by decide +kernel, by decide +kernel, by decide +kernel⟩

end Xhyve.Emul.Ahci
