import Xhyve.Emul.AhciAnswers

/-!
# The commands the AHCI controller hands to the block interface

What becomes of a request, of the command it belongs to and of the port, for reads, writes, flushes and trims;
and how any of them can stop.
-/

namespace Xhyve.Emul.Ahci

open Xhyve.Lib Xhyve.Lib.Fallible

/-! ## Requests -/

/-- The port with a request from the free list handed over. -/
def Port.submitted (pr : Port) (r : Nat) (rest : List Nat) (aior : Ioreq) : Port :=
  { pr with
    iofhd := rest
    ioreq := Function.update pr.ioreq r aior
    pending := WordSet.set aior.slot.val pr.pending
    iobhd := r :: pr.iobhd }

/-- A request has been handed to the block interface, and the command accepted where that is due. -/
structure Submitted (h : Host) (p : PortNo) (accepted : Bool) (aior : Ioreq) (s t : State) : Prop where
  touch : Touch h p s t
  room : s.used < blockifMaxreq
  used : t.used = s.used + 1
  port : ∃ r rest x, (s.port p).iofhd = r :: rest ∧
    t.port p = (if accepted then ((s.port p).submitted r rest aior).accepted aior.slot
      else (s.port p).submitted r rest aior).scribble x

/-- The ways handing over a request can stop. -/
def SubmitStop (p : PortNo) (s : State) (e : Stop) : Prop :=
  Harmless (s.port p) e ∨ e = .noRequest ∧ (s.port p).iofhd = [] ∨ e = .blockErr ∧ blockifMaxreq ≤ s.used

section Requests
variable {h : Host} {p : PortNo} {slot : Slot} {cfis r : Nat} {rest : List Nat} {aior : Ioreq} {s t u : State}

theorem withBctx_eq (p : PortNo) (s : State) :
    withBctx p s = if (s.port p).backed then .ok () s else .error .uninit s := by
  show (if (s.port p).backed then _ else _ : AhciM Unit) s = _
  split
  · rfl
  · rfl

theorem takeRequest_ok (hok : takeRequest p s = .ok r t) :
    ∃ rest, (s.port p).iofhd = r :: rest ∧ t = s.setPort p { s.port p with iofhd := rest } := by
  unfold takeRequest at hok
  obtain ⟨pr, t', hpr, hrest⟩ := bind_ok_iff.mp hok
  cases hpr
  cases hfree : (s.port p).iofhd with
  | nil =>
    rw [hfree] at hrest
    cases hrest
  | cons r' rest =>
    rw [hfree] at hrest
    cases hrest
    exact ⟨rest, rfl, rfl⟩

theorem takeRequest_stop {e : Stop} (herr : takeRequest p s = .error e t) : SubmitStop p s e := by
  unfold takeRequest at herr
  rcases bind_error_iff.mp herr with hpr | ⟨pr, t', hpr, hrest⟩
  · cases hpr
  · cases hpr
    cases hfree : (s.port p).iofhd with
    | nil =>
      rw [hfree] at hrest
      cases hrest
      exact .inr (.inl ⟨rfl, hfree⟩)
    | cons r' rest =>
      rw [hfree] at hrest
      cases hrest

theorem startRequest_eq (p : PortNo) (s : State) (r : Nat) (rest : List Nat) (aior : Ioreq) :
    startRequest p r aior (s.setPort p { s.port p with iofhd := rest }) =
      .ok () (s.setPort p ((s.port p).submitted r rest aior)) := by
  show EStateM.Result.ok () ((s.setPort p _).setPort p _) = _
  rw [setPort_setPort, setPort_same]
  rfl

theorem blockifRequest_ok (hok : blockifRequest p s = .ok () t) :
    s.used < blockifMaxreq ∧ t = { s with used := s.used + 1 } := by
  unfold blockifRequest at hok
  obtain ⟨_, t', hctx, hrest⟩ := bind_ok_iff.mp hok
  rw [withBctx_eq] at hctx
  split at hctx
  · cases hctx
    obtain ⟨s', t'', hget, hrest⟩ := bind_ok_iff.mp hrest
    cases hget
    split at hrest
    · rename_i hroom
      cases hrest
      exact ⟨hroom, rfl⟩
    · cases hrest
  · cases hctx

theorem blockifRequest_stop {e : Stop} (herr : blockifRequest p s = .error e t) :
    Harmless (s.port p) e ∨ e = .blockErr ∧ blockifMaxreq ≤ s.used := by
  unfold blockifRequest at herr
  rcases bind_error_iff.mp herr with hctx | ⟨_, t', hctx, hrest⟩
  · exact .inl (quiet_withBctx.stop s e t hctx)
  · rw [withBctx_eq] at hctx
    split at hctx
    · cases hctx
      rcases bind_error_iff.mp hrest with hget | ⟨s', t'', hget, hrest⟩
      · cases hget
      · cases hget
        split at hrest
        · cases hrest
        · rename_i hroom
          cases hrest
          exact .inr ⟨rfl, by omega⟩
    · cases hctx

/-- The acceptance of a queued command. -/
theorem d2hNcq_ok (hok : ahciWriteFisD2hNcq h p slot s = .ok () t) :
    Calm p (s.setPort p ((s.port p).accepted slot)) t := by
  have hquiet : Quiet p (ahciWriteFis h p .regd2h
      (fisOf [FisType.regd2h.value, 0, byteOf (ataSReady ||| ataSDsc) 0, 0])) :=
    quiet_writeFis (by decide) (by decide)
  exact hquiet.ok _ () t hok

theorem d2hNcq_stop {e : Stop} (herr : ahciWriteFisD2hNcq h p slot s = .error e t) : Harmless (s.port p) e := by
  have hstop : Harmless ((s.setPort p ((s.port p).accepted slot)).port p) e := ahciWriteFis_stop herr
  rwa [setPort_same] at hstop

/-- What remains to be done once a request is ready. -/
def submit (h : Host) (p : PortNo) (slot : Slot) (accept : Prop) [Decidable accept] (r : Nat) (aior : Ioreq) :
    AhciM Unit := do
  startRequest p r aior
  if accept then ahciWriteFisD2hNcq h p slot else pure ()
  blockifRequest p

section Submit
variable {accept : Prop} [Decidable accept]

theorem submit_ok (hfree : (s.port p).iofhd = r :: rest) (hslot : aior.slot = slot)
    (hok : submit h p slot accept r aior (s.setPort p { s.port p with iofhd := rest }) = .ok () t) :
    Submitted h p (decide accept) aior s t := by
  subst hslot
  unfold submit at hok
  rw [bind_of_ok (startRequest_eq p s r rest aior)] at hok
  have hstart : Touch h p s (s.setPort p ((s.port p).submitted r rest aior)) := touch_setPort s _ rfl rfl rfl
  by_cases ha : accept
  · rw [if_pos ha] at hok
    obtain ⟨_, t', hncq, hblk⟩ := bind_ok_iff.mp hok
    have hcalm := d2hNcq_ok hncq
    obtain ⟨hroom, rfl⟩ := blockifRequest_ok hblk
    have hused : t'.used = s.used := hcalm.used
    rw [setPort_same, setPort_setPort] at hcalm
    have htouch : Touch h p s (s.setPort p (((s.port p).submitted r rest aior).accepted aior.slot)) :=
      touch_setPort s _ rfl rfl rfl
    refine ⟨(htouch.trans hcalm.touch).trans (touch_mem _ _), by rwa [hused] at hroom, by rw [hused], ?_⟩
    obtain ⟨x, rfl⟩ := hcalm
    refine ⟨r, rest, x, hfree, ?_⟩
    rw [if_pos (decide_eq_true ha)]
    show (State.scribble _ p x).port p = _
    rw [scribble_same, setPort_same]
  · rw [if_neg ha] at hok
    obtain ⟨hroom, rfl⟩ := blockifRequest_ok hok
    refine ⟨hstart.trans (touch_mem _ _), hroom, rfl, r, rest, s.scratch p, hfree, ?_⟩
    rw [if_neg (by simpa using ha)]
    exact setPort_same _

theorem submit_stop {e : Stop}
    (hok : submit h p slot accept r aior (s.setPort p { s.port p with iofhd := rest }) = .error e t) :
    Harmless (s.port p) e ∨ e = .blockErr ∧ blockifMaxreq ≤ s.used := by
  unfold submit at hok
  rw [bind_of_ok (startRequest_eq p s r rest aior)] at hok
  have hback : ∀ e, Harmless ((s.setPort p ((s.port p).submitted r rest aior)).port p) e → Harmless (s.port p) e := by
    intro e he
    rwa [setPort_same] at he
  by_cases ha : accept
  · rw [if_pos ha] at hok
    rcases bind_error_iff.mp hok with hncq | ⟨_, t', hncq, hblk⟩
    · exact .inl (hback e (d2hNcq_stop hncq))
    · have hcalm := d2hNcq_ok hncq
      have hused : t'.used = s.used := hcalm.used
      rcases blockifRequest_stop hblk with hh | hh
      · have hh' := hcalm.harmless hh
        rw [setPort_same] at hh'
        exact .inl (hback e hh')
      · rw [hused] at hh
        exact .inr hh
  · rw [if_neg ha] at hok
    rcases blockifRequest_stop hok with hh | hh
    · exact .inl (hback e hh)
    · exact .inr hh

end Submit

/-! ## Transfers -/

/-- The vectors `ahci_build_iov` gathers, with the entries of the PRDT that are left. -/
def gatherIov (h : Host) (m : Mem) (len done : BitVec 32) (prdt prdtl : Nat) : Nat × List (Option Nat × Nat) :=
  buildIov h m prdtl prdt done.toNat (len - done).toInt.toNat []

/-- The vectors are used up and do not hold a whole sector. -/
def starved (h : Host) (m : Mem) (len done : BitVec 32) (prdt prdtl : Nat) : Bool :=
  let iov := (gatherIov h m len done prdt prdtl).2
  iov.length = blockifIovMax ∧ iovBytes iov - iovBytes iov % h.sectsz = 0

/-- The bytes behind the last whole sector, where the vectors are used up. -/
def iovExtra (h : Host) (iov : List (Option Nat × Nat)) : Nat :=
  if iov.length = blockifIovMax then iovBytes iov % h.sectsz else 0

/-- The request with its vectors. -/
def Ioreq.built (aior : Ioreq) (h : Host) (m : Mem) (prdt prdtl : Nat) : Ioreq :=
  let iov := (gatherIov h m aior.len aior.done prdt prdtl).2
  let done := aior.done + BitVec.ofNat 32 (iovBytes iov - iovExtra h iov)
  { aior with
    brIov := if iov.length = blockifIovMax then (dropExtra iov.reverse (iovExtra h iov)).reverse else iov
    brResid := iovBytes iov - iovExtra h iov
    done := done
    more := done < aior.len ∧ 0 < (gatherIov h m aior.len aior.done prdt prdtl).1 }

theorem buildIov_ok {a : Ioreq} {prdt prdtl : Nat} (hok : ahciBuildIov h p aior prdt prdtl s = .ok a t) :
    t = s ∧ a = aior.built h s.mem prdt prdtl ∧ starved h s.mem aior.len aior.done prdt prdtl = false := by
  unfold ahciBuildIov at hok
  obtain ⟨m, t', hm, hrest⟩ := bind_ok_iff.mp hok
  cases hm
  unfold Ioreq.built starved iovExtra gatherIov
  dsimp only at hrest ⊢
  split at hrest
  · rename_i hfull
    obtain ⟨_, t', hctx, hrest⟩ := bind_ok_iff.mp hrest
    rw [withBctx_eq] at hctx
    split at hctx
    · cases hctx
      split at hrest
      · cases hrest
      · rename_i hdata
        cases hrest
        rw [if_pos hfull, if_pos hfull]
        exact ⟨rfl, rfl, decide_eq_false fun hc => hdata hc.2⟩
    · cases hctx
  · rename_i hfull
    cases hrest
    rw [if_neg hfull, if_neg hfull]
    exact ⟨rfl, rfl, decide_eq_false fun hc => hfull hc.1⟩

theorem buildIov_stop {e : Stop} {prdt prdtl : Nat} (herr : ahciBuildIov h p aior prdt prdtl s = .error e t) :
    Harmless (s.port p) e ∨ e = .noData ∧ starved h s.mem aior.len aior.done prdt prdtl = true := by
  unfold ahciBuildIov at herr
  rcases bind_error_iff.mp herr with hm | ⟨m, t', hm, hrest⟩
  · cases hm
  · cases hm
    unfold starved gatherIov
    dsimp only at hrest ⊢
    split at hrest
    · rename_i hfull
      rcases bind_error_iff.mp hrest with hctx | ⟨_, t', hctx, hrest⟩
      · exact .inl (quiet_withBctx.stop s e t hctx)
      · rw [withBctx_eq] at hctx
        split at hctx
        · cases hctx
          split at hrest
          · rename_i hdata
            cases hrest
            exact .inr ⟨rfl, decide_eq_true ⟨hfull, hdata⟩⟩
          · cases hrest
        · cases hctx
    · cases hrest

theorem getPort_setPort (s : State) (p : PortNo) (pr : Port) : getPort p (s.setPort p pr) = .ok pr (s.setPort p pr) := by
  show EStateM.Result.ok ((s.setPort p pr).port p) _ = _
  rw [setPort_same]

/-- The header does not depend on the lists of requests. -/
theorem cmdHdr_taken {hdr : Nat} (hok : cmdHdr p slot (s.setPort p { s.port p with iofhd := rest }) = .ok hdr t) :
    t = s.setPort p { s.port p with iofhd := rest } ∧ hdr = hdrOf (s.port p) slot := by
  have hboth := cmdHdr_ok hok
  rwa [setPort_same] at hboth

/-- What `ahci_handle_rw` and `atapi_read` do with the request they have taken. -/
def transferRest (h : Host) (p : PortNo) (slot : Slot) (cfis : Nat) (m : Mem) (accept : Prop) [Decidable accept]
    (r : Nat) (mk : Ioreq → Ioreq) : AhciM Unit := do
  let pr ← getPort p
  let hdr ← cmdHdr p slot
  let aior ← ahciBuildIov h p (mk (pr.ioreq r)) (cfis + 0x80) (hdrPrdtl m hdr)
  submit h p slot accept r aior

section Transfer
variable {accept : Prop} [Decidable accept] {mk : Ioreq → Ioreq}

/-- The request that is handed over. -/
def transferred (h : Host) (s : State) (p : PortNo) (slot : Slot) (cfis r : Nat) (mk : Ioreq → Ioreq) : Ioreq :=
  (mk ((s.port p).ioreq r)).built h s.mem (cfis + 0x80) (hdrPrdtl s.mem (hdrOf (s.port p) slot))

/-- The vectors of a transfer are used up before they hold a sector. -/
def transferStarved (h : Host) (pr : Port) (m : Mem) (slot : Slot) (cfis : Nat) (len done : BitVec 32) : Bool :=
  starved h m len done (cfis + 0x80) (hdrPrdtl m (hdrOf pr slot))

theorem transferRest_ok (hfree : (s.port p).iofhd = r :: rest) (hslot : ∀ a, (mk a).slot = slot)
    (hok : transferRest h p slot cfis s.mem accept r mk (s.setPort p { s.port p with iofhd := rest }) = .ok () t) :
    Submitted h p (decide accept) (transferred h s p slot cfis r mk) s t ∧
      transferStarved h (s.port p) s.mem slot cfis (mk ((s.port p).ioreq r)).len (mk ((s.port p).ioreq r)).done = false := by
  unfold transferRest at hok
  rw [bind_of_ok (getPort_setPort s p _)] at hok
  obtain ⟨hdr, t', hhdr, hrest⟩ := bind_ok_iff.mp hok
  obtain ⟨rfl, rfl⟩ := cmdHdr_taken hhdr
  obtain ⟨a, t', hbuild, hrest⟩ := bind_ok_iff.mp hrest
  obtain ⟨rfl, rfl, hdata⟩ := buildIov_ok hbuild
  exact ⟨submit_ok hfree (hslot _) hrest, hdata⟩

theorem transferRest_stop {e : Stop}
    (herr : transferRest h p slot cfis s.mem accept r mk (s.setPort p { s.port p with iofhd := rest }) = .error e t) :
    SubmitStop p s e ∨ e = .noData ∧
      transferStarved h (s.port p) s.mem slot cfis (mk ((s.port p).ioreq r)).len (mk ((s.port p).ioreq r)).done = true := by
  have hback : ∀ {e}, Harmless ((s.setPort p { s.port p with iofhd := rest }).port p) e → Harmless (s.port p) e := by
    intro e he
    rwa [setPort_same] at he
  unfold transferRest at herr
  rw [bind_of_ok (getPort_setPort s p _)] at herr
  rcases bind_error_iff.mp herr with hhdr | ⟨hdr, t', hhdr, hrest⟩
  · exact .inl (.inl (hback ((quiet_cmdHdr slot).stop _ _ _ hhdr)))
  obtain ⟨rfl, rfl⟩ := cmdHdr_taken hhdr
  rcases bind_error_iff.mp hrest with hbuild | ⟨a, t', hbuild, hrest⟩
  · rcases buildIov_stop hbuild with hstop | hdata
    · exact .inl (.inl (hback hstop))
    · exact .inr hdata
  · obtain ⟨rfl, -, -⟩ := buildIov_ok hbuild
    rcases submit_stop hrest with hstop | hfull
    · exact .inl (.inl hstop)
    · exact .inl (.inr (.inr hfull))

end Transfer

/-- What `ahci_handle_rw` enters in its request. -/
def rwIoreq (h : Host) (c : Nat → UInt8) (slot : Slot) (cfis : Nat) (done : BitVec 32) (aior : Ioreq) : Ioreq :=
  aior.transfer cfis slot (BitVec.ofNat 64 ((rwRange c).1 * h.sectsz)) (BitVec.ofNat 32 ((rwRange c).2 * h.sectsz)) done

/-- The vectors of a read or write do not hold a sector. -/
def rwStarved (h : Host) (pr : Port) (m : Mem) (slot : Slot) (cfis : Nat) (done : BitVec 32) : Bool :=
  transferStarved h pr m slot cfis (BitVec.ofNat 32 ((rwRange (bytesAt m cfis)).2 * h.sectsz)) done

/-- A read or write that is queued and has just been issued. -/
def rwAccepts (c : Nat → UInt8) (done : BitVec 32) : Bool :=
  (c 2 = ataWriteFpdmaQueued ∨ c 2 = ataReadFpdmaQueued) ∧ done = 0

theorem rwIoreq_slot (c : Nat → UInt8) (done : BitVec 32) (aior : Ioreq) :
    (rwIoreq h c slot cfis done aior).slot = slot := rfl

theorem handleRw_eq (done : BitVec 32) :
    ahciHandleRw h p slot cfis done s =
      (withBctx p >>= fun _ => takeRequest p >>= fun r =>
        transferRest h p slot cfis s.mem
          ((s.mem (cfis + 2) = ataWriteFpdmaQueued ∨ s.mem (cfis + 2) = ataReadFpdmaQueued) ∧ done = 0) r
          (rwIoreq h (bytesAt s.mem cfis) slot cfis done)) s := rfl

theorem handleRw_ok {done : BitVec 32} (hok : ahciHandleRw h p slot cfis done s = .ok () t) :
    ∃ r rest, (s.port p).iofhd = r :: rest ∧
      Submitted h p (rwAccepts (bytesAt s.mem cfis) done)
        (transferred h s p slot cfis r (rwIoreq h (bytesAt s.mem cfis) slot cfis done)) s t ∧
      rwStarved h (s.port p) s.mem slot cfis done = false := by
  rw [handleRw_eq] at hok
  obtain ⟨_, t', hctx, hrest⟩ := bind_ok_iff.mp hok
  rw [withBctx_eq] at hctx
  split at hctx
  · cases hctx
    obtain ⟨r, t', htake, hrest⟩ := bind_ok_iff.mp hrest
    obtain ⟨rest, hfree, rfl⟩ := takeRequest_ok htake
    have hboth := transferRest_ok hfree (rwIoreq_slot (bytesAt s.mem cfis) done) hrest
    exact ⟨r, rest, hfree, hboth⟩
  · cases hctx

theorem handleRw_stop {e : Stop} {done : BitVec 32} (herr : ahciHandleRw h p slot cfis done s = .error e t) :
    SubmitStop p s e ∨ e = .noData ∧ rwStarved h (s.port p) s.mem slot cfis done = true := by
  rw [handleRw_eq] at herr
  rcases bind_error_iff.mp herr with hctx | ⟨_, t', hctx, hrest⟩
  · exact .inl (.inl (quiet_withBctx.stop s e t hctx))
  rw [withBctx_eq] at hctx
  split at hctx
  · cases hctx
    rcases bind_error_iff.mp hrest with htake | ⟨r, t', htake, hrest⟩
    · exact .inl (takeRequest_stop htake)
    · obtain ⟨rest, hfree, rfl⟩ := takeRequest_ok htake
      rcases transferRest_stop hrest with hstop | ⟨rfl, hdata⟩
      · exact .inl hstop
      · exact .inr ⟨rfl, hdata⟩
  · cases hctx

/-- The request of a flush. -/
def flushIoreq (slot : Slot) (cfis : Nat) (aior : Ioreq) : Ioreq :=
  { aior with cfis := cfis, slot := slot, len := 0, done := 0, more := false }

theorem handleFlush_ok (hok : ahciHandleFlush p slot cfis s = .ok () t) :
    ∃ r, Submitted h p false (flushIoreq slot cfis ((s.port p).ioreq r)) s t := by
  unfold ahciHandleFlush at hok
  obtain ⟨r, t', htake, hrest⟩ := bind_ok_iff.mp hok
  obtain ⟨rest, hfree, rfl⟩ := takeRequest_ok htake
  rw [bind_of_ok (getPort_setPort s p _)] at hrest
  have hsub : submit h p slot False r (flushIoreq slot cfis ((s.port p).ioreq r))
    (s.setPort p { s.port p with iofhd := rest }) = .ok () t := hrest
  exact ⟨r, submit_ok hfree rfl hsub⟩

theorem handleFlush_stop {e : Stop} (herr : ahciHandleFlush p slot cfis s = .error e t) : SubmitStop p s e := by
  unfold ahciHandleFlush at herr
  rcases bind_error_iff.mp herr with htake | ⟨r, t', htake, hrest⟩
  · exact takeRequest_stop htake
  · obtain ⟨rest, hfree, rfl⟩ := takeRequest_ok htake
    rw [bind_of_ok (getPort_setPort s p _)] at hrest
    -- the host plays no part where nothing is accepted
    have hsub : ∀ h, submit h p slot False r (flushIoreq slot cfis ((s.port p).ioreq r))
      (s.setPort p { s.port p with iofhd := rest }) = .error e t := fun _ => hrest
    rcases submit_stop (hsub ⟨fun _ _ => none, 0, 0, (0, 0, 0), 0, 0, false, false, [], false⟩) with hstop | hfull
    · exact .inl hstop
    · exact .inr (.inr hfull)


/-- What `atapi_read` enters in its request. -/
def atapiIoreq (c : Nat → UInt8) (slot : Slot) (cfis : Nat) (done : BitVec 32) (aior : Ioreq) : Ioreq :=
  aior.transfer cfis slot (BitVec.ofNat 64 (be32dec c 0x42 * 2048)) (BitVec.ofNat 32 (atapiReadLen c * 2048)) done

/-- The vectors of a packet command's read do not hold a sector. -/
def readStarved (h : Host) (pr : Port) (m : Mem) (c : Nat → UInt8) (slot : Slot) (cfis : Nat) (done : BitVec 32) : Bool :=
  transferStarved h pr m slot cfis (BitVec.ofNat 32 (atapiReadLen c * 2048)) done

theorem atapiIoreq_slot (c : Nat → UInt8) (done : BitVec 32) (aior : Ioreq) :
    (atapiIoreq c slot cfis done aior).slot = slot := rfl

/-- `atapi_read` from where it takes a request; the packet has been read before. -/
def atapiReadRest (h : Host) (p : PortNo) (slot : Slot) (cfis : Nat) (c : Nat → UInt8) (done : BitVec 32) :
    AhciM Unit := do
  let r ← takeRequest p
  let m ← getMem
  transferRest h p slot cfis m False r (atapiIoreq c slot cfis done)

theorem atapiRead_eq (done : BitVec 32) :
    atapiRead h p slot cfis done s =
      if atapiReadLen (bytesAt s.mem cfis) = 0 then
        (atapiDone h p slot cfis >>= fun _ => atapiReadRest h p slot cfis (bytesAt s.mem cfis) done) s
      else atapiReadRest h p slot cfis (bytesAt s.mem cfis) done s := by
  show (if atapiReadLen (bytesAt s.mem cfis) = 0 then _ else _ : AhciM Unit) s = _
  split
  · rfl
  · rfl

theorem atapiReadRest_ok {c : Nat → UInt8} {done : BitVec 32}
    (hok : atapiReadRest h p slot cfis c done s = .ok () t) :
    ∃ r rest, (s.port p).iofhd = r :: rest ∧
      Submitted h p false (transferred h s p slot cfis r (atapiIoreq c slot cfis done)) s t ∧
      readStarved h (s.port p) s.mem c slot cfis done = false := by
  unfold atapiReadRest at hok
  obtain ⟨r, t', htake, hrest⟩ := bind_ok_iff.mp hok
  obtain ⟨rest, hfree, rfl⟩ := takeRequest_ok htake
  exact ⟨r, rest, hfree, transferRest_ok hfree (atapiIoreq_slot c done) hrest⟩

theorem atapiReadRest_stop {c : Nat → UInt8} {done : BitVec 32} {e : Stop}
    (herr : atapiReadRest h p slot cfis c done s = .error e t) :
    SubmitStop p s e ∨ e = .noData ∧ readStarved h (s.port p) s.mem c slot cfis done = true := by
  unfold atapiReadRest at herr
  rcases bind_error_iff.mp herr with htake | ⟨r, t', htake, hrest⟩
  · exact .inl (takeRequest_stop htake)
  · obtain ⟨rest, hfree, rfl⟩ := takeRequest_ok htake
    rcases transferRest_stop hrest with hstop | ⟨rfl, hdata⟩
    · exact .inl hstop
    · exact .inr ⟨rfl, hdata⟩

/-! ## The end of a command -/

/-- `ahci_check_stopped`. -/
def Port.settled (pr : Port) : Port := if pr.cmd &&& ahciPCmdSt = 0 ∧ pr.pending = 0 then pr.cleared else pr

/-- The command of a slot is no longer in flight, and the port is looked at. -/
structure Finished (h : Host) (p : PortNo) (slot : Slot) (s t : State) : Prop where
  touch : Touch h p s t
  used : t.used = s.used
  port : t.port p = ({ s.port p with pending := WordSet.clr slot.val (s.port p).pending } : Port).settled

theorem settled_backed (pr : Port) : pr.settled.backed = pr.backed := by
  unfold Port.settled
  split <;> rfl

theorem settled_atapi (pr : Port) : pr.settled.atapi = pr.atapi := by
  unfold Port.settled
  split <;> rfl

theorem settled_started (pr : Port) : pr.settled.cmd &&& ahciPCmdSt = pr.cmd &&& ahciPCmdSt := by
  unfold Port.settled
  split
  · show pr.cmd &&& ~~~(ahciPCmdCr ||| ahciPCmdCcsMask) &&& ahciPCmdSt = _
    rw [BitVec.and_assoc]
    rfl
  · rfl

/-- The first two steps of `endCommand`. -/
def settle (p : PortNo) (slot : Slot) : AhciM Unit := do
  modifyPort p fun pr => { pr with pending := WordSet.clr slot.val pr.pending }
  ahciCheckStopped p

/-- The state `settle` leads to. -/
def State.finish (s : State) (p : PortNo) (slot : Slot) : State :=
  s.setPort p ({ s.port p with pending := WordSet.clr slot.val (s.port p).pending } : Port).settled

theorem settle_eq (p : PortNo) (slot : Slot) (s : State) : settle p slot s = .ok () (s.finish p slot) := by
  show EStateM.Result.ok () ((s.setPort p _).setPort p _) = _
  rw [setPort_setPort, setPort_same]
  rfl

theorem finished_finish (h : Host) (p : PortNo) (slot : Slot) (s : State) :
    Finished h p slot s (s.finish p slot) :=
  ⟨touch_setPort s _ (settled_backed _) (settled_atapi _) (settled_started _), rfl, setPort_same _⟩

theorem handlePort_eq (p : PortNo) (s : State) :
    ahciHandlePort p s =
      .ok () (if (s.port p).cmd &&& ahciPCmdSt = 0 then s else { s with handling := some p }) := by
  show (if (s.port p).cmd &&& ahciPCmdSt = 0 then _ else _ : AhciM Unit) s = _
  split
  · rfl
  · rfl

theorem touch_handlePort (h : Host) (p : PortNo) (s : State) :
    Touch h p s (if (s.port p).cmd &&& ahciPCmdSt = 0 then s else { s with handling := some p }) := by
  split
  · exact Touch.refl h p s
  · rename_i hst
    exact ⟨fun _ _ => rfl, rfl, rfl, rfl, rfl, .inr ⟨rfl, hst⟩, rfl, rfl, rfl, SameLine.relined ⟨rfl, rfl, rfl, rfl, rfl⟩⟩

theorem Finished.handlePort (hf : Finished h p slot s t) :
    Finished h p slot s (if (t.port p).cmd &&& ahciPCmdSt = 0 then t else { t with handling := some p }) := by
  refine ⟨hf.touch.trans (touch_handlePort h p t), ?_, ?_⟩
  · rw [← hf.used]
    split <;> rfl
  · rw [← hf.port]
    split <;> rfl

theorem endCommand_ok (hok : endCommand p slot s = .ok () t) : Finished h p slot s t := by
  have hrun : endCommand p slot s = (settle p slot >>= fun _ => ahciHandlePort p) s := rfl
  rw [hrun, bind_of_ok (settle_eq p slot s), handlePort_eq] at hok
  cases hok
  exact (finished_finish h p slot s).handlePort

/-- `ahci_handle_dsm_trim` answers the command itself where nothing is left to trim. -/
structure Trimmed (h : Host) (p : PortNo) (slot : Slot) (s t : State) : Prop where
  mid : ∃ u, Answered h p slot false s u ∧ Finished h p slot u t

/-- The request for a range. -/
def trimIoreq (h : Host) (c : Nat → UInt8) (slot : Slot) (cfis : Nat) (next : BitVec 32) (entry : Nat × Nat)
    (aior : Ioreq) : Ioreq :=
  { aior with
    cfis := cfis, slot := slot, len := trimLen c, done := next, more := trimLen c ≠ next,
    brOffset := BitVec.ofNat 64 (entry.1 * h.sectsz), brResid := entry.2 * h.sectsz % 2 ^ 32 }

theorem readPrdtLoop_ok {hdr fuel i prdt left : Nat} {buf b : Nat → UInt8}
    (hok : readPrdtLoop h hdr fuel i prdt buf left s = .ok b t) : t = s := by
  induction fuel generalizing i prdt buf left with
  | zero =>
    cases hok
    rfl
  | succ fuel ih =>
    unfold readPrdtLoop at hok
    obtain ⟨m, t', hm, hrest⟩ := bind_ok_iff.mp hok
    cases hm
    split at hrest
    · dsimp only at hrest
      cases hmap : h.paddrGuest2host (prdtDba s.mem prdt) (prdtSize s.mem prdt) with
      | none =>
        rw [hmap] at hrest
        cases hrest
      | some ptr =>
        rw [hmap] at hrest
        exact ih hrest
    · cases hrest
      rfl

theorem readPrdt_ok {buf b : Nat → UInt8} (hok : readPrdt h p slot cfis buf s = .ok b t) : t = s := by
  unfold readPrdt at hok
  obtain ⟨hdr, t', hhdr, hrest⟩ := bind_ok_iff.mp hok
  obtain ⟨rfl, -⟩ := cmdHdr_ok hhdr
  exact readPrdtLoop_ok hrest

/-- `ahci_handle_dsm_trim` behind its look at the list of ranges. -/
def trimRest (h : Host) (p : PortNo) (slot : Slot) (cfis : Nat) (c : Nat → UInt8) (done : BitVec 32) :
    Option (BitVec 32 × Option (Nat × Nat)) → AhciM Unit
  | none => throw .overread
  | some (_, none) => do
    ahciWriteFisD2h h p slot cfis okTfd
    settle p slot
    if done = 0 then pure () else ahciHandlePort p
  | some (next, some entry) => do
    let r ← takeRequest p
    let pr ← getPort p
    submit h p slot (c 2 ≠ ataDataSetManagement ∧ done = 0) r (trimIoreq h c slot cfis next entry (pr.ioreq r))

theorem dsmTrim_eq (done : BitVec 32) :
    ahciHandleDsmTrim h p slot cfis done s =
      (readPrdt h p slot cfis s.stack >>= fun buf =>
        trimRest h p slot cfis (bytesAt s.mem cfis) done (trimNext buf (trimLen (bytesAt s.mem cfis)) 65 done)) s := by
  refine congrFun (congrArg (readPrdt h p slot cfis s.stack >>= ·) (funext fun buf => ?_)) s
  cases trimNext buf (trimLen (bytesAt s.mem cfis)) 65 done with
  | none => rfl
  | some out =>
    obtain ⟨next, entry⟩ := out
    cases entry with
    | none => rfl
    | some entry => rfl

theorem trimEnd_ok {done : BitVec 32}
    (hok : (settle p slot >>= fun _ => if done = 0 then pure () else ahciHandlePort p) s = .ok () t) :
    Finished h p slot s t := by
  rw [bind_of_ok (settle_eq p slot s)] at hok
  split at hok
  · cases hok
    exact finished_finish h p slot s
  · rw [handlePort_eq] at hok
    cases hok
    exact (finished_finish h p slot s).handlePort

theorem trimEnd_stop {done : BitVec 32} {e : Stop} :
    (settle p slot >>= fun _ => if done = 0 then pure () else ahciHandlePort p) s ≠ .error e t := by
  rw [bind_of_ok (settle_eq p slot s)]
  split
  · exact nofun
  · rw [handlePort_eq]
    exact nofun

/-- What `ahci_handle_dsm_trim` does, by what it finds in the list of ranges. -/
def TrimDone (h : Host) (p : PortNo) (slot : Slot) (cfis : Nat) (done : BitVec 32) (s t : State) :
    Option (BitVec 32 × Option (Nat × Nat)) → Prop
  | none => False
  | some (_, none) => Trimmed h p slot s t
  | some (next, some entry) => ∃ r,
    Submitted h p (decide (s.mem (cfis + 2) ≠ ataDataSetManagement ∧ done = 0))
      (trimIoreq h (bytesAt s.mem cfis) slot cfis next entry ((s.port p).ioreq r)) s t

theorem trimRest_ok {done : BitVec 32} {out : Option (BitVec 32 × Option (Nat × Nat))}
    (hok : trimRest h p slot cfis (bytesAt s.mem cfis) done out s = .ok () t) :
    TrimDone h p slot cfis done s t out := by
  rcases out with - | ⟨next, - | entry⟩
  · cases hok
  · obtain ⟨_, u, hd2h, hrest⟩ := bind_ok_iff.mp hok
    exact ⟨u, answers_okTfd.ok () u hd2h, trimEnd_ok hrest⟩
  · obtain ⟨r, t'', htake, hrest⟩ := bind_ok_iff.mp hok
    obtain ⟨rest, hfree, rfl⟩ := takeRequest_ok htake
    rw [bind_of_ok (getPort_setPort _ p _)] at hrest
    exact ⟨r, submit_ok hfree rfl hrest⟩

theorem dsmTrim_ok {done : BitVec 32} (hok : ahciHandleDsmTrim h p slot cfis done s = .ok () t) :
    ∃ buf, readPrdt h p slot cfis s.stack s = .ok buf s ∧
      TrimDone h p slot cfis done s t (trimNext buf (trimLen (bytesAt s.mem cfis)) 65 done) := by
  rw [dsmTrim_eq] at hok
  obtain ⟨buf, t', hbuf, hrest⟩ := bind_ok_iff.mp hok
  obtain rfl := readPrdt_ok hbuf
  exact ⟨buf, hbuf, trimRest_ok hrest⟩

theorem dsmTrim_stop {e : Stop} {done : BitVec 32} (herr : ahciHandleDsmTrim h p slot cfis done s = .error e t) :
    SubmitStop p s e ∨ e = .overread ∧ ∃ buf, readPrdt h p slot cfis s.stack s = .ok buf s ∧
      trimNext buf (trimLen (bytesAt s.mem cfis)) 65 done = none := by
  rw [dsmTrim_eq] at herr
  rcases bind_error_iff.mp herr with hbuf | ⟨buf, t', hbuf, hrest⟩
  · exact .inl (.inl ((quiet_readPrdt h slot cfis _).stop _ _ _ hbuf))
  obtain rfl := readPrdt_ok hbuf
  rcases hnext : trimNext buf (trimLen (bytesAt t'.mem cfis)) 65 done with - | ⟨next, - | entry⟩
  · rw [hnext] at hrest
    cases hrest
    exact .inr ⟨rfl, buf, hbuf, hnext⟩
  · rw [hnext] at hrest
    rcases bind_error_iff.mp hrest with hd2h | ⟨_, u, hd2h, hrest⟩
    · exact .inl (.inl (answers_okTfd.stop e t hd2h))
    · exact absurd hrest trimEnd_stop
  · rw [hnext] at hrest
    rcases bind_error_iff.mp hrest with htake | ⟨r, t'', htake, hrest⟩
    · exact .inl (takeRequest_stop htake)
    · obtain ⟨rest, hfree, rfl⟩ := takeRequest_ok htake
      rw [bind_of_ok (getPort_setPort _ p _)] at hrest
      rcases submit_stop hrest with hstop | hfull
      · exact .inl (.inl hstop)
      · exact .inl (.inr (.inr hfull))


end Requests

end Xhyve.Emul.Ahci
