import Xhyve.Emul.AhciRequests

/-!
# What the steps of the AHCI controller do

Every command comes down to one of five kinds, and every turn of the loop of `ahci_handle_port` and every
callback to a few changes of the port. What is proved about the port is proved from these.
-/

namespace Xhyve.Emul.Ahci

open Xhyve.Lib Xhyve.Lib.Fallible

/-! ## The kinds of commands -/

/-- What a command is about. -/
inductive Kind
  | answer (failed : Bool)
  | rw
  | flush
  | trim
  | read
deriving DecidableEq, Repr

/-- The kind of a command, by the table at `cfis`. -/
def cmdKind (pr : Port) (m : Mem) (slot : Slot) (cfis : Nat) : Kind :=
  let c := bytesAt m cfis
  if c 2 = ataAtaIdentify then .answer (identifyRejected pr m slot)
  else if c 2 = ataSetfeatures then .answer (!featureKnown c)
  else if c 2 = ataSetMulti then .answer (multiRejected (c 12))
  else if isRw (c 2) then .rw
  else if c 2 = ataFlushcache ∨ c 2 = ataFlushcache48 then .flush
  else if c 2 = ataDataSetManagement then
    if c 11 = 0 ∧ c 3 = ataDsmTrim ∧ c 13 = 0 ∧ c 12 = 1 then .trim else .answer true
  else if c 2 = ataSendFpdmaQueued then .answer true
  else if c 2 = ataReadLogExt ∨ c 2 = ataReadLogDmaExt then .answer (readLogRejected pr m slot c)
  else if c 2 = ataNop then .answer true
  else if isPower (c 2) then .answer false
  else if c 2 = ataAtapiIdentify then .answer (!pr.atapi)
  else if c 2 = ataPacketCmd then
    if pr.atapi then
      if isAtapiRead (bytesAt m (cfis + 0x40)) then .read else .answer (packetRejected (bytesAt m (cfis + 0x40)))
    else .answer true
  else .answer true

/-- The program does what a command of the kind does. -/
def Runs (h : Host) (p : PortNo) (slot : Slot) (cfis : Nat) (x : AhciM Unit) (s : State) : Kind → Prop
  | .answer failed => Answers h p slot failed x s
  | .rw => x s = ahciHandleRw h p slot cfis 0 s
  | .flush => x s = ahciHandleFlush p slot cfis s
  | .trim => x s = ahciHandleDsmTrim h p slot cfis 0 s
  | .read => x s = atapiRead h p slot cfis 0 s

/-- A command is marked busy and begins. -/
def State.issued (s : State) (p : PortNo) (slot : Slot) (cmd : UInt8) : State :=
  s.setPort p { s.port p with
    tfd := (s.port p).tfd ||| ataSBusy
    reports := (s.port p).reports ++ [.issue slot cmd] }

section Commands
variable {h : Host} {p : PortNo} {slot : Slot} {cfis : Nat} {s t : State}

theorem runs_cond {c : Prop} [Decidable c] {x y : AhciM Unit} {k k' : Kind}
    (hx : c → Runs h p slot cfis x s k) (hy : ¬ c → Runs h p slot cfis y s k') :
    Runs h p slot cfis (if c then x else y) s (if c then k else k') := by
  split
  · exact hx ‹_›
  · exact hy ‹_›

/-- `SEND FPDMA QUEUED` asks its auxiliary byte for two values at once. -/
theorem sendFpdma_refused (x : UInt8) : ¬ (x &&& 0x1f = ataSfpdmaDsm ∧ x = 1) := by
  rintro ⟨hdsm, rfl⟩
  exact absurd hdsm (by decide)

/-- The choice of the handler. -/
def dispatch (h : Host) (p : PortNo) (slot : Slot) (cfis : Nat) (c : Nat → UInt8) (atapi : Bool) : AhciM Unit :=
  if c 2 = ataAtaIdentify then handleIdentify h p slot cfis
  else if c 2 = ataSetfeatures then handleSetfeatures h p slot cfis
  else if c 2 = ataSetMulti then handleSetMulti h p slot cfis
  else if isRw (c 2) then ahciHandleRw h p slot cfis 0
  else if c 2 = ataFlushcache ∨ c 2 = ataFlushcache48 then ahciHandleFlush p slot cfis
  else if c 2 = ataDataSetManagement then
    if c 11 = 0 ∧ c 3 = ataDsmTrim ∧ c 13 = 0 ∧ c 12 = 1 then ahciHandleDsmTrim h p slot cfis 0
    else ahciWriteFisD2h h p slot cfis abortTfd
  else if c 2 = ataSendFpdmaQueued then
    if c 13 &&& 0x1f = ataSfpdmaDsm ∧ c 17 = 0 ∧ c 16 = ataDsmTrim ∧ c 11 = 0 ∧ c 13 = 1 then
      ahciHandleDsmTrim h p slot cfis 0
    else ahciWriteFisD2h h p slot cfis abortTfd
  else if c 2 = ataReadLogExt ∨ c 2 = ataReadLogDmaExt then ahciHandleReadLog h p slot cfis
  else if c 2 = ataNop then ahciWriteFisD2h h p slot cfis abortTfd
  else if isPower (c 2) then ahciWriteFisD2h h p slot cfis okTfd
  else if c 2 = ataAtapiIdentify then handleAtapiIdentify h p slot cfis
  else if c 2 = ataPacketCmd then
    if atapi then handlePacketCmd h p slot cfis else ahciWriteFisD2h h p slot cfis abortTfd
  else ahciWriteFisD2h h p slot cfis abortTfd

theorem handleCmd_eq (h : Host) (p : PortNo) (slot : Slot) (cfis : Nat) (s : State) :
    ahciHandleCmd h p slot cfis s =
      dispatch h p slot cfis (bytesAt s.mem cfis) (s.port p).atapi (s.issued p slot (s.mem (cfis + 2))) := by
  have hatapi : ((s.setPort p { s.port p with tfd := (s.port p).tfd ||| ataSBusy }).port p).atapi =
      (s.port p).atapi := by rw [setPort_same]
  have hissue : ((s.setPort p { s.port p with tfd := (s.port p).tfd ||| ataSBusy }).setPort p
      { (s.setPort p { s.port p with tfd := (s.port p).tfd ||| ataSBusy }).port p with
        reports := ((s.setPort p { s.port p with tfd := (s.port p).tfd ||| ataSBusy }).port p).reports ++
          [.issue slot (s.mem (cfis + 2))] }) = s.issued p slot (s.mem (cfis + 2)) := by
    rw [setPort_setPort, setPort_same]
    rfl
  rw [← hissue, ← hatapi]
  rfl

theorem dispatch_runs (h : Host) (p : PortNo) (slot : Slot) (cfis : Nat) (s : State) :
    Runs h p slot cfis (dispatch h p slot cfis (bytesAt s.mem cfis) (s.port p).atapi) s
      (cmdKind (s.port p) s.mem slot cfis) := by
  unfold dispatch cmdKind
  refine runs_cond (fun _ => answers_identify) fun _ => runs_cond (fun _ => answers_setfeatures) fun _ => ?_
  refine runs_cond (fun _ => answers_setMulti) fun _ => runs_cond (fun _ => rfl) fun _ => ?_
  refine runs_cond (fun _ => rfl) fun _ => ?_
  refine runs_cond (fun _ => runs_cond (fun _ => rfl) fun _ => answers_abortTfd) fun _ => ?_
  refine runs_cond (fun _ => ?_) fun _ => ?_
  · rw [if_neg fun hc => sendFpdma_refused _ ⟨hc.1, hc.2.2.2.2⟩]
    exact answers_abortTfd
  refine runs_cond (fun _ => answers_readLog) fun _ => runs_cond (fun _ => answers_abortTfd) fun _ => ?_
  refine runs_cond (fun _ => answers_okTfd) fun _ => runs_cond (fun _ => answers_atapiIdentify) fun _ => ?_
  refine runs_cond (fun _ => runs_cond (fun _ => ?_) fun _ => answers_abortTfd) fun _ => answers_abortTfd
  cases hread : isAtapiRead (bytesAt s.mem (cfis + 0x40)) with
  | true => exact packet_read hread
  | false => exact packet_answers hread

/-- The kind of a command does not depend on its being marked. -/
theorem cmdKind_issued (cmd : UInt8) :
    cmdKind ((s.issued p slot cmd).port p) s.mem slot cfis = cmdKind (s.port p) s.mem slot cfis := by
  unfold State.issued
  rw [setPort_same]
  rfl

theorem handleCmd_runs (h : Host) (p : PortNo) (slot : Slot) (cfis : Nat) (s : State) :
    Runs h p slot cfis (dispatch h p slot cfis (bytesAt s.mem cfis) (s.port p).atapi)
      (s.issued p slot (s.mem (cfis + 2))) (cmdKind (s.port p) s.mem slot cfis) := by
  have hruns := dispatch_runs h p slot cfis (s.issued p slot (s.mem (cfis + 2)))
  have hkind : cmdKind ((s.issued p slot (s.mem (cfis + 2))).port p) (s.issued p slot (s.mem (cfis + 2))).mem slot cfis =
      cmdKind (s.port p) s.mem slot cfis := cmdKind_issued _
  have hatapi : ((s.issued p slot (s.mem (cfis + 2))).port p).atapi = (s.port p).atapi := by
    unfold State.issued
    rw [setPort_same]
  rw [hkind, hatapi] at hruns
  exact hruns

/-- `READ` of no blocks is answered before a request is made all the same. -/
def ReadPrelude (h : Host) (p : PortNo) (slot : Slot) (c : Nat → UInt8) (s u : State) : Prop :=
  if atapiReadLen c = 0 then Answered h p slot false s u else u = s

/-- What a command of each kind has done. -/
inductive Effect (h : Host) (p : PortNo) (slot : Slot) (cfis : Nat) (s t : State) : Kind → Prop
  | answer {failed : Bool} (hans : Answered h p slot failed s t) : Effect h p slot cfis s t (.answer failed)
  | rw {r : Nat} {rest : List Nat} (hfree : (s.port p).iofhd = r :: rest)
    (hsub : Submitted h p (rwAccepts (bytesAt s.mem cfis) 0)
      (transferred h s p slot cfis r (rwIoreq h (bytesAt s.mem cfis) slot cfis 0)) s t) : Effect h p slot cfis s t .rw
  | flush {r : Nat} (hsub : Submitted h p false (flushIoreq slot cfis ((s.port p).ioreq r)) s t) :
    Effect h p slot cfis s t .flush
  | trimmed (htrim : Trimmed h p slot s t) : Effect h p slot cfis s t .trim
  | trim {next : BitVec 32} {entry : Nat × Nat} {r : Nat}
    (hsub : Submitted h p false (trimIoreq h (bytesAt s.mem cfis) slot cfis next entry ((s.port p).ioreq r)) s t) :
    Effect h p slot cfis s t .trim
  | read {u : State} {r : Nat} {rest : List Nat} (hpre : ReadPrelude h p slot (bytesAt s.mem cfis) s u)
    (hfree : (u.port p).iofhd = r :: rest)
    (hsub : Submitted h p false (transferred h u p slot cfis r (atapiIoreq (bytesAt s.mem cfis) slot cfis 0)) u t) :
    Effect h p slot cfis s t .read

theorem atapiRead_ok {done : BitVec 32} (hok : atapiRead h p slot cfis done s = .ok () t) :
    ∃ u r rest, ReadPrelude h p slot (bytesAt s.mem cfis) s u ∧ (u.port p).iofhd = r :: rest ∧
      Submitted h p false (transferred h u p slot cfis r (atapiIoreq (bytesAt s.mem cfis) slot cfis done)) u t := by
  rw [atapiRead_eq] at hok
  unfold ReadPrelude
  split at hok
  · rename_i hlen
    obtain ⟨_, u, hdone, hrest⟩ := bind_ok_iff.mp hok
    obtain ⟨r, rest, hfree, hsub, -⟩ := atapiReadRest_ok hrest
    exact ⟨u, r, rest, by rw [if_pos hlen]; exact answers_done.ok () u hdone, hfree, hsub⟩
  · rename_i hlen
    obtain ⟨r, rest, hfree, hsub, -⟩ := atapiReadRest_ok hok
    exact ⟨s, r, rest, by rw [if_neg hlen], hfree, hsub⟩

theorem ite_ne {c : Prop} [Decidable c] {a b k : Kind} (ha : a ≠ k) (hb : b ≠ k) : (if c then a else b) ≠ k := by
  split
  · exact ha
  · exact hb

theorem cmdKind_trim {pr : Port} {m : Mem} (hkind : cmdKind pr m slot cfis = .trim) :
    m (cfis + 2) = ataDataSetManagement := by
  by_contra hne
  have hcmd : bytesAt m cfis 2 ≠ ataDataSetManagement := hne
  unfold cmdKind at hkind
  dsimp only at hkind
  rw [if_neg hcmd] at hkind
  refine absurd hkind (ite_ne nofun (ite_ne nofun (ite_ne nofun (ite_ne nofun (ite_ne nofun ?_)))))
  refine ite_ne nofun (ite_ne nofun (ite_ne nofun (ite_ne nofun (ite_ne nofun ?_))))
  exact ite_ne (ite_ne (ite_ne nofun nofun) nofun) nofun

theorem handleCmd_ok (hok : ahciHandleCmd h p slot cfis s = .ok () t) :
    Effect h p slot cfis (s.issued p slot (s.mem (cfis + 2))) t (cmdKind (s.port p) s.mem slot cfis) := by
  have hruns := handleCmd_runs h p slot cfis s
  rw [handleCmd_eq] at hok
  cases hkind : cmdKind (s.port p) s.mem slot cfis with
  | answer failed =>
    rw [hkind] at hruns
    exact .answer (hruns.ok () t hok)
  | rw =>
    rw [hkind] at hruns
    obtain ⟨r, rest, hfree, hsub, -⟩ := handleRw_ok (hruns.symm.trans hok)
    exact .rw hfree hsub
  | flush =>
    rw [hkind] at hruns
    obtain ⟨r, hsub⟩ := handleFlush_ok (hruns.symm.trans hok)
    exact .flush hsub
  | trim =>
    rw [hkind] at hruns
    obtain ⟨buf, -, htrim⟩ := dsmTrim_ok (hruns.symm.trans hok)
    have hdsm := cmdKind_trim hkind
    rcases hnext : trimNext buf (trimLen (bytesAt s.mem cfis)) 65 0 with - | ⟨next, - | entry⟩
    · exact absurd (hnext ▸ htrim : TrimDone h p slot cfis 0 _ t none) id
    · exact .trimmed (hnext ▸ htrim : TrimDone h p slot cfis 0 _ t (some (next, none)))
    · obtain ⟨r, hsub⟩ := (hnext ▸ htrim : TrimDone h p slot cfis 0 _ t (some (next, some entry)))
      have hno : decide ((s.issued p slot (s.mem (cfis + 2))).mem (cfis + 2) ≠ ataDataSetManagement ∧ (0 : BitVec 32) = 0) =
          false := decide_eq_false fun hc => hc.1 hdsm
      rw [hno] at hsub
      exact .trim hsub
  | read =>
    rw [hkind] at hruns
    obtain ⟨u, r, rest, hpre, hfree, hsub⟩ := atapiRead_ok (hruns.symm.trans hok)
    exact .read hpre hfree hsub

/-- The command's transfer has vectors that do not hold a sector. -/
def cmdStarved (h : Host) (pr : Port) (m : Mem) (slot : Slot) (cfis : Nat) : Bool :=
  match cmdKind pr m slot cfis with
  | .rw => rwStarved h pr m slot cfis 0
  | .read => readStarved h pr m (bytesAt m cfis) slot cfis 0
  | _ => false

/-- Nothing is gathered for a transfer of no bytes. -/
theorem readStarved_zero {pr : Port} {m : Mem} {c : Nat → UInt8} (hlen : atapiReadLen c = 0) :
    readStarved h pr m c slot cfis 0 = false := by
  have hnone : ∀ n prdt skip, (buildIov h m n prdt skip 0 []).2 = [] := by
    intro n prdt skip
    cases n with
    | zero => rfl
    | succ n => simp [buildIov]
  have hiov : (gatherIov h m 0#32 0 (cfis + 0x80) (hdrPrdtl m (hdrOf pr slot))).2 = [] := hnone ..
  unfold readStarved transferStarved starved
  rw [hlen, Nat.zero_mul]
  dsimp only
  rw [hiov]
  rfl

/-- The state in which the request for a packet read is made. -/
def ReadBegun (h : Host) (p : PortNo) (slot : Slot) (cfis : Nat) (s u : State) : Prop :=
  if atapiReadLen (bytesAt s.mem cfis) = 0 then atapiDone h p slot cfis s = .ok () u else u = s

theorem ReadBegun.prelude (hb : ReadBegun h p slot cfis s u) : ReadPrelude h p slot (bytesAt s.mem cfis) s u := by
  unfold ReadBegun at hb
  unfold ReadPrelude
  split at hb
  · rename_i hlen
    rw [if_pos hlen]
    exact answers_done.ok () u hb
  · rename_i hlen
    rw [if_neg hlen]
    exact hb

theorem atapiRead_stop {e : Stop} {done : BitVec 32} (herr : atapiRead h p slot cfis done s = .error e t) :
    SubmitStop p s e ∨ e = .noData ∧ ∃ u, ReadBegun h p slot cfis s u ∧
      readStarved h (u.port p) u.mem (bytesAt s.mem cfis) slot cfis done = true := by
  rw [atapiRead_eq] at herr
  unfold ReadBegun
  split at herr
  · rename_i hlen
    rcases bind_error_iff.mp herr with hdone | ⟨_, u, hdone, hrest⟩
    · exact .inl (.inl (answers_done.stop e t hdone))
    · have hans := answers_done.ok () u hdone
      rcases atapiReadRest_stop hrest with hstop | ⟨rfl, hdata⟩
      · refine .inl ?_
        obtain ⟨x, errCfis, is, -, hport⟩ := hans.port
        unfold SubmitStop Harmless at hstop ⊢
        rwa [hans.used, hport] at hstop
      · exact .inr ⟨rfl, u, by rwa [if_pos hlen], hdata⟩
  · rename_i hlen
    rcases atapiReadRest_stop herr with hstop | ⟨rfl, hdata⟩
    · exact .inl hstop
    · exact .inr ⟨rfl, s, by rw [if_neg hlen], hdata⟩

theorem handleCmd_stop {e : Stop} (herr : ahciHandleCmd h p slot cfis s = .error e t) :
    SubmitStop p s e ∨ e = .overread ∨ e = .noData ∧ cmdStarved h (s.port p) s.mem slot cfis = true := by
  have hruns := handleCmd_runs h p slot cfis s
  have hback : ∀ {e}, SubmitStop p (s.issued p slot (s.mem (cfis + 2))) e → SubmitStop p s e := by
    intro e he
    unfold SubmitStop Harmless State.issued at he
    rwa [setPort_same] at he
  rw [handleCmd_eq] at herr
  unfold cmdStarved
  cases hkind : cmdKind (s.port p) s.mem slot cfis with
  | answer failed =>
    rw [hkind] at hruns
    exact .inl (hback (.inl (hruns.stop e t herr)))
  | rw =>
    rw [hkind] at hruns
    rcases handleRw_stop (hruns.symm.trans herr) with hstop | ⟨rfl, hdata⟩
    · exact .inl (hback hstop)
    · refine .inr (.inr ⟨rfl, ?_⟩)
      unfold State.issued at hdata
      rwa [setPort_same] at hdata
  | flush =>
    rw [hkind] at hruns
    exact .inl (hback (handleFlush_stop (hruns.symm.trans herr)))
  | trim =>
    rw [hkind] at hruns
    rcases dsmTrim_stop (hruns.symm.trans herr) with hstop | ⟨rfl, -⟩
    · exact .inl (hback hstop)
    · exact .inr (.inl rfl)
  | read =>
    rw [hkind] at hruns
    rcases atapiRead_stop (hruns.symm.trans herr) with hstop | ⟨rfl, u, hbegun, hdata⟩
    · exact .inl (hback hstop)
    · by_cases hlen : atapiReadLen (bytesAt s.mem cfis) = 0
      · exact absurd hdata (by
          rw [show bytesAt (s.issued p slot (s.mem (cfis + 2))).mem cfis = bytesAt s.mem cfis from rfl,
            readStarved_zero hlen]
          exact nofun)
      · have hu : u = s.issued p slot (s.mem (cfis + 2)) := by
          unfold ReadBegun at hbegun
          rwa [if_neg (show ¬ atapiReadLen (bytesAt (s.issued p slot (s.mem (cfis + 2))).mem cfis) = 0 from hlen)] at hbegun
        subst hu
        refine .inr (.inr ⟨rfl, ?_⟩)
        unfold State.issued at hdata
        rwa [setPort_same] at hdata

end Commands

/-! ## Resets of a port -/

section Reset
variable {h : Host} {p : PortNo} {s t : State}

theorem afterReset_backed (pr : Port) : pr.afterReset.backed = pr.backed := by
  unfold Port.afterReset
  dsimp only
  split <;> rfl

/-- What a reset changes of a port. -/
def Port.rebooted (pr : Port) (x : Scratch) (ssts sig : BitVec 32) : Port :=
  { pr.scribble x with serr := 0, sact := 0, ssts := ssts, sig := sig }

theorem afterReset_eq (pr : Port) : ∃ x, pr.afterReset = pr.rebooted x pr.afterReset.ssts pr.afterReset.sig := by
  refine ⟨⟨zeros, pr.afterReset.tfd, pr.senseKey, pr.asc, ataUdma6, 128⟩, ?_⟩
  unfold Port.afterReset
  dsimp only
  split <;> rfl

theorem portReset_eq (h : Host) (p : PortNo) (s : State) :
    ahciPortReset h p s =
      if (s.port p).backed then ahciWriteResetFisD2h h p (s.setPort p (s.port p).afterReset)
      else .ok () (s.setPort p (s.port p).afterReset) := by
  have hrun : ahciPortReset h p s = (getPort p >>= fun pr => if pr.backed then ahciWriteResetFisD2h h p else pure ())
    (s.setPort p (s.port p).afterReset) := rfl
  rw [hrun, bind_of_ok (getPort_setPort s p _), afterReset_backed]
  split <;> rfl

theorem portReset_ok (hok : ahciPortReset h p s = .ok () t) : Calm p (s.setPort p (s.port p).afterReset) t := by
  rw [portReset_eq] at hok
  split at hok
  · exact quiet_resetFis.ok _ () t hok
  · cases hok
    exact Calm.refl p _

theorem portReset_stop {e : Stop} (herr : ahciPortReset h p s = .error e t) : Harmless (s.port p) e := by
  rw [portReset_eq] at herr
  split at herr
  · have hstop := quiet_resetFis.stop _ e t herr
    rw [setPort_same] at hstop
    unfold Harmless at hstop ⊢
    rwa [afterReset_backed] at hstop
  · cases herr

/-- A port has been reset. -/
structure Reset (h : Host) (p : PortNo) (s t : State) : Prop where
  touch : Touch h p s t
  used : t.used = s.used
  handling : t.handling = s.handling
  port : ∃ x ssts sig, t.port p = (s.port p).rebooted x ssts sig

theorem portReset_reset (hok : ahciPortReset h p s = .ok () t) : Reset h p s t := by
  have hcalm := portReset_ok hok
  obtain ⟨y, hafter⟩ := afterReset_eq (s.port p)
  rw [hafter] at hcalm
  have htouch : ∀ ssts sig, Touch h p s (s.setPort p ((s.port p).rebooted y ssts sig)) :=
    fun ssts sig => touch_setPort s _ rfl rfl rfl
  refine ⟨(htouch _ _).trans hcalm.touch, hcalm.used, hcalm.handling, ?_⟩
  obtain ⟨x, rfl⟩ := hcalm
  refine ⟨x, (s.port p).afterReset.ssts, (s.port p).afterReset.sig, ?_⟩
  rw [scribble_same, setPort_same]
  rfl

end Reset

/-! ## One slot -/

/-- The command table of a slot. -/
def tableOf (h : Host) (pr : Port) (m : Mem) (slot : Slot) : Option Nat :=
  h.paddrGuest2host (hdrCtba m (hdrOf pr slot)) (0x80 + hdrPrdtl m (hdrOf pr slot) * 16)

/-- The slot's port is noted as misused if it was never initialised. -/
def State.noted (s : State) (p : PortNo) : State := { s with misused := s.misused || !(s.port p).backed }

/-- A FIS that only has to do with resets of the device. -/
structure Controlled (h : Host) (p : PortNo) (slot : Slot) (s t : State) : Prop where
  touch : Touch h p s t
  used : t.used = s.used
  port : ∃ x reset serr sact ssts sig, (sact = (s.port p).sact ∨ sact = 0) ∧
    t.port p = { (s.port p).scribble x with
      reset := reset, serr := serr, sact := sact, ssts := ssts, sig := sig
      ci := WordSet.clr slot.val (s.port p).ci }

/-- What looking at a slot has done. -/
inductive SlotDone (h : Host) (p : PortNo) (slot : Slot) (s t : State) : Prop
  | ignored {cfis : Nat} (htable : tableOf h (s.port p) s.mem slot = some cfis)
    (hfis : s.mem cfis ≠ FisType.regh2d.value) (heq : t = s)
  | command {cfis : Nat} (htable : tableOf h (s.port p) s.mem slot = some cfis)
    (hfis : s.mem cfis = FisType.regh2d.value) (hcmd : s.mem (cfis + 1) &&& 0x80 ≠ 0)
    (heff : Effect h p slot cfis (s.issued p slot (s.mem (cfis + 2))) t (cmdKind (s.port p) s.mem slot cfis))
  | control {cfis : Nat} (htable : tableOf h (s.port p) s.mem slot = some cfis)
    (hfis : s.mem cfis = FisType.regh2d.value) (hcmd : s.mem (cfis + 1) &&& 0x80 = 0)
    (hctl : Controlled h p slot s t)

section Slot
variable {h : Host} {p : PortNo} {slot : Slot} {cfis : Nat} {s t : State}

/-- The handling of a FIS that is no command. -/
def controlFis (h : Host) (p : PortNo) (slot : Slot) (c : Nat → UInt8) (pr : Port) : AhciM Unit := do
  if c 15 &&& 0x04 ≠ 0 then modifyPort p fun pr => { pr with reset := true }
  else if pr.reset then
    modifyPort p fun pr => { pr with reset := false }
    ahciPortReset h p
  else pure ()
  modifyPort p fun pr => { pr with ci := WordSet.clr slot.val pr.ci }

theorem modifyPort_eq (p : PortNo) (f : Port → Port) (s : State) :
    modifyPort p f s = .ok () (s.setPort p (f (s.port p))) := rfl

theorem controlled_self (reset : Bool) : Controlled h p slot s
    (s.setPort p { s.port p with reset := reset, ci := WordSet.clr slot.val (s.port p).ci }) :=
  ⟨touch_setPort s _ rfl rfl rfl, rfl, s.scratch p, reset, _, _, _, _, .inl rfl, setPort_same _⟩

theorem controlFis_ok {c : Nat → UInt8} (hok : controlFis h p slot c (s.port p) s = .ok () t) :
    Controlled h p slot s t := by
  unfold controlFis at hok
  split at hok
  · rw [bind_of_ok (modifyPort_eq ..)] at hok
    dsimp only at hok
    rw [modifyPort_eq, setPort_setPort, setPort_same] at hok
    cases hok
    exact controlled_self true
  · split at hok
    · obtain ⟨_, t', hmod, hrest⟩ := bind_ok_iff.mp hok
      cases hmod
      obtain ⟨_, u, hreset, hrest⟩ := bind_ok_iff.mp hrest
      have hr := portReset_reset hreset
      cases hrest
      obtain ⟨x, ssts, sig, hport⟩ := hr.port
      rw [setPort_same] at hport
      have htouch : Touch h p s (s.setPort p { s.port p with reset := false }) := touch_setPort s _ rfl rfl rfl
      refine ⟨(htouch.trans hr.touch).trans (touch_setPort u _ rfl rfl rfl), hr.used,
        x, false, 0, 0, ssts, sig, .inr rfl, ?_⟩
      rw [setPort_same, hport]
      rfl
    · cases hok
      exact controlled_self (s.port p).reset

theorem controlFis_stop {c : Nat → UInt8} {e : Stop} (herr : controlFis h p slot c (s.port p) s = .error e t) :
    Harmless (s.port p) e := by
  unfold controlFis at herr
  split at herr
  · cases herr
  · split at herr
    · rcases bind_error_iff.mp herr with hmod | ⟨_, t', hmod, hrest⟩
      · cases hmod
      · cases hmod
        rcases bind_error_iff.mp hrest with hreset | ⟨_, u, hreset, hrest⟩
        · have hstop := portReset_stop hreset
          rwa [setPort_same] at hstop
        · cases hrest
    · cases herr

/-- What is done with the command table of a slot. -/
def handleTable (h : Host) (p : PortNo) (slot : Slot) (m : Mem) (pr : Port) : Option Nat → AhciM Unit
  | none => throw .null
  | some cfis =>
    if m cfis ≠ FisType.regh2d.value then pure ()
    else if m (cfis + 1) &&& 0x80 ≠ 0 then ahciHandleCmd h p slot cfis
    else controlFis h p slot (bytesAt m cfis) pr

theorem handleSlot_eq (h : Host) (p : PortNo) (slot : Slot) (s : State) :
    ahciHandleSlot h p slot s =
      match (s.port p).cmdLst with
      | none => .error .null (s.noted p)
      | some _ => handleTable h p slot s.mem (s.port p) (tableOf h (s.port p) s.mem slot) (s.noted p) := by
  have hrun : ahciHandleSlot h p slot s = (cmdHdr p slot >>= fun hdr => getMem >>= fun m =>
    match h.paddrGuest2host (hdrCtba m hdr) (0x80 + hdrPrdtl m hdr * 16) with
    | none => throw .null
    | some cfis =>
      if bytesAt m cfis 0 ≠ FisType.regh2d.value then pure ()
      else if bytesAt m cfis 1 &&& 0x80 ≠ 0 then ahciHandleCmd h p slot cfis
      else controlFis h p slot (bytesAt m cfis) (s.port p)) (s.noted p) := rfl
  have hhdr : cmdHdr p slot (s.noted p) = match (s.port p).cmdLst with
      | none => .error .null (s.noted p)
      | some _ => .ok (hdrOf (s.port p) slot) (s.noted p) := by
    have hport : getPort p (s.noted p) = .ok (s.port p) (s.noted p) := rfl
    unfold cmdHdr hdrOf
    rw [bind_of_ok hport]
    cases (s.port p).cmdLst <;> rfl
  rw [hrun]
  cases hlst : (s.port p).cmdLst with
  | none =>
    rw [hlst] at hhdr
    exact bind_of_error hhdr
  | some a =>
    rw [hlst] at hhdr
    rw [bind_of_ok hhdr]
    have htable : h.paddrGuest2host (hdrCtba s.mem (hdrOf (s.port p) slot)) (0x80 + hdrPrdtl s.mem (hdrOf (s.port p) slot) * 16) =
        tableOf h (s.port p) s.mem slot := rfl
    rw [bind_of_ok (show getMem (s.noted p) = .ok s.mem (s.noted p) from rfl), htable]
    cases tableOf h (s.port p) s.mem slot <;> rfl

theorem handleSlot_ok (hok : ahciHandleSlot h p slot s = .ok () t) : SlotDone h p slot (s.noted p) t := by
  rw [handleSlot_eq] at hok
  split at hok
  · cases hok
  · cases htable : tableOf h (s.port p) s.mem slot with
    | none =>
      rw [htable] at hok
      cases hok
    | some cfis =>
      rw [htable] at hok
      by_cases hfis : s.mem cfis = FisType.regh2d.value
      · by_cases hcmd : s.mem (cfis + 1) &&& 0x80 = 0
        · rw [handleTable, if_neg (not_not.mpr hfis), if_neg (not_not.mpr hcmd)] at hok
          have hctl : controlFis h p slot (bytesAt s.mem cfis) ((s.noted p).port p) (s.noted p) = .ok () t := hok
          exact .control htable hfis hcmd (controlFis_ok hctl)
        · rw [handleTable, if_neg (not_not.mpr hfis), if_pos hcmd] at hok
          exact .command htable hfis hcmd (handleCmd_ok hok)
      · rw [handleTable, if_pos hfis] at hok
        cases hok
        exact .ignored htable hfis rfl

theorem handleSlot_stop {e : Stop} (herr : ahciHandleSlot h p slot s = .error e t) :
    SubmitStop p s e ∨ e = .overread ∨ e = .noData ∧ ∃ cfis, tableOf h (s.port p) s.mem slot = some cfis ∧
      s.mem cfis = FisType.regh2d.value ∧ s.mem (cfis + 1) &&& 0x80 ≠ 0 ∧
      cmdStarved h (s.port p) s.mem slot cfis = true := by
  rw [handleSlot_eq] at herr
  split at herr
  · cases herr
    exact .inl (.inl (.inl rfl))
  · cases htable : tableOf h (s.port p) s.mem slot with
    | none =>
      rw [htable] at herr
      cases herr
      exact .inl (.inl (.inl rfl))
    | some cfis =>
      rw [htable] at herr
      by_cases hfis : s.mem cfis = FisType.regh2d.value
      · by_cases hcmd : s.mem (cfis + 1) &&& 0x80 = 0
        · rw [handleTable, if_neg (not_not.mpr hfis), if_neg (not_not.mpr hcmd)] at herr
          have hctl : controlFis h p slot (bytesAt s.mem cfis) ((s.noted p).port p) (s.noted p) = .error e t := herr
          have hstop : Harmless ((s.noted p).port p) e := controlFis_stop hctl
          exact .inl (.inl hstop)
        · rw [handleTable, if_neg (not_not.mpr hfis), if_pos hcmd] at herr
          rcases handleCmd_stop herr with hstop | hover | ⟨rfl, hdata⟩
          · exact .inl hstop
          · exact .inr (.inl hover)
          · exact .inr (.inr ⟨rfl, cfis, rfl, hfis, hcmd, hdata⟩)
      · rw [handleTable, if_pos hfis] at herr
        cases herr

end Slot

/-! ## Callbacks -/

/-- A callback has begun: its request is free again. -/
def State.freed (s : State) (p : PortNo) (r : Nat) : State :=
  { s.setPort p { s.port p with iobhd := (s.port p).iobhd.erase r, iofhd := (s.port p).iofhd ++ [r] } with
    finishing := true }

/-- The number of bytes done is in the header, where there was no error. -/
def State.counted (s : State) (p : PortNo) (aior : Ioreq) (err : Bool) : State :=
  { s with mem := if err then s.mem else Mem.store 4 s.mem (hdrOf (s.port p) aior.slot + 4) aior.done.toNat }

/-- The port after the FIS that ends a queued command. -/
structure Queued (h : Host) (p : PortNo) (slot : Slot) (failed : Bool) (s t : State) : Prop where
  touch : Touch h p s t
  used : t.used = s.used
  port : ∃ (x : Scratch) (errCfis : Nat → UInt8) (is : BitVec 32),
    t.port p = { (s.port p).scribble x with
      errCfis := errCfis
      is := is
      sact := if failed then (s.port p).sact else WordSet.clr slot.val (s.port p).sact
      waitforclear := (s.port p).waitforclear || (failed && (s.port p).fisArea.isSome)
      reports := (s.port p).reports ++ [.sdb slot failed] }

section Callback
variable {h : Host} {p : PortNo} {slot : Slot} {cfis r : Nat} {err : Bool} {aior : Ioreq} {s t u : State}

theorem beginCallback_eq (p : PortNo) (r : Nat) (s : State) :
    beginCallback p r s = .ok ((s.port p).ioreq r) (s.freed p r) := rfl

theorem freed_port (s : State) (p : PortNo) (r : Nat) : (s.freed p r).port p =
    { s.port p with iobhd := (s.port p).iobhd.erase r, iofhd := (s.port p).iofhd ++ [r] } := setPort_same _

theorem calm_counted (p : PortNo) (aior : Ioreq) (err : Bool) (s : State) : Calm p s (s.counted p aior err) := by
  refine ⟨{ s.scratch p with mem := (s.counted p aior err).mem }, ?_⟩
  have hport : (s.port p).scribble { s.scratch p with mem := (s.counted p aior err).mem } = s.port p := rfl
  rw [State.scribble, hport, setPort_self]
  rfl

theorem notePrdbc_ok (hok : notePrdbc p aior err s = .ok () t) : t = s.counted p aior err := by
  unfold notePrdbc at hok
  unfold State.counted
  split at hok
  · rename_i herr
    cases hok
    rw [if_pos herr]
  · rename_i herr
    obtain ⟨hdr, t', hhdr, hrest⟩ := bind_ok_iff.mp hok
    obtain ⟨rfl, rfl⟩ := cmdHdr_ok hhdr
    cases hrest
    rw [if_neg herr]

theorem notePrdbc_stop {e : Stop} (herr : notePrdbc p aior err s = .error e t) : Harmless (s.port p) e := by
  unfold notePrdbc at herr
  split at herr
  · cases herr
  · rcases bind_error_iff.mp herr with hhdr | ⟨hdr, t', hhdr, hrest⟩
    · exact (quiet_cmdHdr aior.slot).stop s e t hhdr
    · cases hrest

/-- The two task files a queued command ends with. -/
def endTfd (err : Bool) : BitVec 32 := if err then abortTfd else okTfd

theorem endTfd_error (err : Bool) : (endTfd err &&& 0x77 &&& ataSError ≠ 0 : Bool) = err := by
  cases err <;> decide

theorem sdb_ok (hok : ahciWriteFisSdb h p slot cfis (endTfd err) s = .ok () t) : Queued h p slot err s t := by
  have hrun : ahciWriteFisSdb h p slot cfis (endTfd err) s =
      ahciWriteFis h p .setdevbits (sdbFis slot (endTfd err &&& 0x77) (byteOf (endTfd err) 1))
        (s.setPort p ((s.port p).queuedDone slot (bytesAt s.mem cfis) (endTfd err &&& 0x77) (byteOf (endTfd err) 1))) :=
    rfl
  have herror : fisError (sdbFis slot (endTfd err &&& 0x77) (byteOf (endTfd err) 1)) = err := by
    refine Eq.trans ?_ (endTfd_error err)
    exact decide_eq_decide.mpr (byteOf_error _)
  rw [hrun] at hok
  have hpost := ahciWriteFis_posted (by decide) hok
  rw [herror] at hpost
  obtain ⟨is, hport⟩ := hpost.port
  rw [setPort_same] at hport
  refine ⟨.trans (touch_setPort s (.queuedDone _ slot _ (endTfd err &&& 0x77) _) rfl rfl rfl) hpost.touch, hpost.used, ?_⟩
  refine ⟨{ s.scratch p with tfd := (s.port p).tfd &&& ~~~(0x77 : BitVec 32) ||| (endTfd err &&& 0x77) },
    ((s.port p).queuedDone slot (bytesAt s.mem cfis) (endTfd err &&& 0x77) (byteOf (endTfd err) 1)).errCfis, is, ?_⟩
  have hfailed := endTfd_error err
  rw [hport]
  unfold Port.queuedDone
  dsimp only
  rw [hfailed]
  rfl

theorem sdb_stop {tfd : BitVec 32} {e : Stop} (herr : ahciWriteFisSdb h p slot cfis tfd s = .error e t) :
    Harmless (s.port p) e := by
  have hstop := ahciWriteFis_stop (s := s.setPort p ((s.port p).queuedDone slot (bytesAt s.mem cfis) (tfd &&& 0x77)
    (byteOf tfd 1))) herr
  rwa [setPort_same] at hstop

theorem answers_endTfd (err : Bool) : Answers h p slot err (ahciWriteFisD2h h p slot cfis (endTfd err)) s := by
  cases err with
  | true => exact answers_abortTfd
  | false => exact answers_okTfd

/-- The rest of a command that is not complete yet is begun. -/
def continueCommand (h : Host) (p : PortNo) (aior : Ioreq) (atapi : Bool) (c : Nat → UInt8) : AhciM Unit :=
  if atapi then atapiRead h p aior.slot aior.cfis aior.done
  else if isDsm c then ahciHandleDsmTrim h p aior.slot aior.cfis aior.done
  else ahciHandleRw h p aior.slot aior.cfis aior.done

/-- The final FIS of a command. -/
def finalFis (h : Host) (p : PortNo) (aior : Ioreq) (atapi : Bool) (c : Nat → UInt8) (err : Bool) : AhciM Unit :=
  if atapi then do
    if err then modifyPort p fun pr => { pr with senseKey := ataSenseIllegalRequest, asc := 0x21 } else pure ()
    setIreason aior.cfis
    ahciWriteFisD2h h p aior.slot aior.cfis (if err then senseTfd ataSenseIllegalRequest else okTfd)
  else if isNcq (c 2) then ahciWriteFisSdb h p aior.slot aior.cfis (endTfd err)
  else ahciWriteFisD2h h p aior.slot aior.cfis (endTfd err)

/-- What a callback does with the request it is for. -/
theorem ioreqCb_eq (h : Host) (p : PortNo) (r : Nat) (err : Bool) (s : State) :
    ioreqCb h p r err s =
      (notePrdbc p ((s.port p).ioreq r) err >>= fun _ =>
        if !err && ((s.port p).ioreq r).more then
          continueCommand h p ((s.port p).ioreq r) (s.port p).atapi (bytesAt s.mem ((s.port p).ioreq r).cfis)
        else
          finalFis h p ((s.port p).ioreq r) (s.port p).atapi (bytesAt s.mem ((s.port p).ioreq r).cfis) err >>= fun _ =>
            endCommand p ((s.port p).ioreq r).slot) (s.freed p r) := by
  show (if (s.port p).atapi then atapiIoreqCb h p r err else ataIoreqCb h p r err) s = _
  cases hatapi : (s.port p).atapi with
  | true =>
    cases err <;> rfl
  | false =>
    refine congrFun (congrArg (notePrdbc p ((s.port p).ioreq r) err >>= ·) (funext fun _ => ?_)) (s.freed p r)
    dsimp only
    split
    · rfl
    · have hfinal : ∀ aior c, finalFis h p aior false c err =
          if isNcq (c 2) then ahciWriteFisSdb h p aior.slot aior.cfis (endTfd err)
          else ahciWriteFisD2h h p aior.slot aior.cfis (endTfd err) := fun _ _ => rfl
      rw [hfinal]
      cases isNcq (bytesAt s.mem ((s.port p).ioreq r).cfis 2) <;> rfl

/-- The final FIS of a command has been written. -/
structure Reported (h : Host) (p : PortNo) (slot : Slot) (ncq failed : Bool) (s t : State) : Prop where
  queued : ncq = true → Queued h p slot failed s t
  answered : ncq = false → Answered h p slot failed s t

/-- The command of a request is taken for a queued one when it ends. -/
def endsQueued (pr : Port) (c : Nat → UInt8) : Bool := !pr.atapi && isNcq (c 2)

theorem answers_atapiFinal (cfis : Nat) (err : Bool) : Answers h p slot err (do
    if err then modifyPort p fun pr => { pr with senseKey := ataSenseIllegalRequest, asc := 0x21 } else pure ()
    setIreason cfis
    ahciWriteFisD2h h p slot cfis (if err then senseTfd ataSenseIllegalRequest else okTfd)) s := by
  cases err with
  | true =>
    refine answers_after (quiet_modifyPort
      (fun pr => ⟨zeros, pr.tfd, ataSenseIllegalRequest, 0x21, pr.xfermode, pr.multSectors⟩) fun _ => rfl) fun _ _ _ => ?_
    exact answers_after (quiet_setIreason cfis) fun _ _ _ => answers_d2h _ (by decide) (by decide)
  | false => exact answers_done

theorem finalFis_ok {pr : Port} {c : Nat → UInt8} (hok : finalFis h p aior pr.atapi c err s = .ok () t) :
    Reported h p aior.slot (endsQueued pr c) err s t := by
  unfold finalFis at hok
  unfold endsQueued
  cases hatapi : pr.atapi with
  | true =>
    rw [hatapi, if_pos rfl] at hok
    exact ⟨nofun, fun _ => (answers_atapiFinal aior.cfis err).ok () t hok⟩
  | false =>
    rw [hatapi, if_neg nofun] at hok
    split at hok
    · rename_i hncq
      refine ⟨fun _ => sdb_ok hok, fun hno => ?_⟩
      rw [hncq] at hno
      cases hno
    · rename_i hncq
      refine ⟨fun hq => absurd hq (by simpa using hncq), fun _ => (answers_endTfd err).ok () t hok⟩

theorem finalFis_stop {atapi : Bool} {c : Nat → UInt8} {e : Stop} (herr : finalFis h p aior atapi c err s = .error e t) :
    Harmless (s.port p) e := by
  unfold finalFis at herr
  split at herr
  · exact (answers_atapiFinal aior.cfis err).stop e t herr
  · split at herr
    · exact sdb_stop herr
    · exact (answers_endTfd err).stop e t herr

/-- What a callback has done: the command goes on, or it is over. -/
inductive Called (h : Host) (p : PortNo) (r : Nat) (err : Bool) (s t : State) : Prop
  | continued (hmore : err = false ∧ ((s.port p).ioreq r).more = true)
    (hrun : continueCommand h p ((s.port p).ioreq r) (s.port p).atapi (bytesAt s.mem ((s.port p).ioreq r).cfis)
      ((s.freed p r).counted p ((s.port p).ioreq r) err) = .ok () t)
  | ended {u : State} (hover : err = true ∨ ((s.port p).ioreq r).more = false)
    (hrep : Reported h p ((s.port p).ioreq r).slot
      (endsQueued (s.port p) (bytesAt s.mem ((s.port p).ioreq r).cfis)) err
      ((s.freed p r).counted p ((s.port p).ioreq r) err) u)
    (hfin : Finished h p ((s.port p).ioreq r).slot u t)

theorem ioreqCb_ok (hok : ioreqCb h p r err s = .ok () t) : Called h p r err s t := by
  rw [ioreqCb_eq] at hok
  obtain ⟨_, u, hnote, hrest⟩ := bind_ok_iff.mp hok
  obtain rfl := notePrdbc_ok hnote
  split at hrest
  · rename_i hmore
    exact .continued (by simpa using hmore) hrest
  · rename_i hmore
    obtain ⟨_, v, hfinal, hend⟩ := bind_ok_iff.mp hrest
    refine .ended ?_ (finalFis_ok hfinal) (endCommand_ok hend)
    cases err with
    | true => exact .inl rfl
    | false => exact .inr (by simpa using hmore)

theorem endCommand_stop {e : Stop} : endCommand p slot s ≠ .error e t := by
  have hrun : endCommand p slot s = (settle p slot >>= fun _ => ahciHandlePort p) s := rfl
  rw [hrun, bind_of_ok (settle_eq p slot s), handlePort_eq]
  exact nofun

/-- A callback stops on the way, or where the rest of its command cannot be begun. -/
theorem ioreqCb_stop {e : Stop} (herr : ioreqCb h p r err s = .error e t) :
    Harmless (s.port p) e ∨ (err = false ∧ ((s.port p).ioreq r).more = true) ∧
      continueCommand h p ((s.port p).ioreq r) (s.port p).atapi (bytesAt s.mem ((s.port p).ioreq r).cfis)
        ((s.freed p r).counted p ((s.port p).ioreq r) err) = .error e t := by
  have hback : ∀ {e}, Harmless ((s.freed p r).port p) e → Harmless (s.port p) e := by
    intro e he
    rwa [freed_port] at he
  rw [ioreqCb_eq] at herr
  rcases bind_error_iff.mp herr with hnote | ⟨_, u, hnote, hrest⟩
  · exact .inl (hback (notePrdbc_stop hnote))
  obtain rfl := notePrdbc_ok hnote
  split at hrest
  · rename_i hmore
    exact .inr ⟨by simpa using hmore, hrest⟩
  · rcases bind_error_iff.mp hrest with hfinal | ⟨_, v, -, hend⟩
    · exact .inl (hback ((calm_counted p _ err _).harmless (finalFis_stop hfinal)))
    · exact absurd hend endCommand_stop

end Callback

/-- The vectors for the rest of a command do not hold a sector. -/
def RestStarved (h : Host) (p : PortNo) (aior : Ioreq) (atapi : Bool) (c : Nat → UInt8) (s : State) : Prop :=
  if atapi then ∃ u, ReadBegun h p aior.slot aior.cfis s u ∧
    readStarved h (u.port p) u.mem (bytesAt s.mem aior.cfis) aior.slot aior.cfis aior.done = true
  else isDsm c = false ∧ rwStarved h (s.port p) s.mem aior.slot aior.cfis aior.done = true

theorem continueCommand_stop {h : Host} {p : PortNo} {aior : Ioreq} {atapi : Bool} {c : Nat → UInt8} {s t : State}
    {e : Stop} (herr : continueCommand h p aior atapi c s = .error e t) :
    SubmitStop p s e ∨ e = .overread ∨ e = .noData ∧ RestStarved h p aior atapi c s := by
  unfold continueCommand at herr
  unfold RestStarved
  split at herr
  · rename_i hatapi
    rw [if_pos hatapi]
    rcases atapiRead_stop herr with hstop | hdata
    · exact .inl hstop
    · exact .inr (.inr hdata)
  · rename_i hatapi
    rw [if_neg hatapi]
    split at herr
    · rcases dsmTrim_stop herr with hstop | ⟨hover, -⟩
      · exact .inl hstop
      · exact .inr (.inl hover)
    · rename_i hdsm
      rcases handleRw_stop herr with hstop | ⟨hdata, hstarved⟩
      · exact .inl hstop
      · exact .inr (.inr ⟨hdata, by simpa using hdsm, hstarved⟩)

/-! ## What no step changes -/

section Touched
variable {h : Host} {p : PortNo} {slot : Slot} {cfis r : Nat} {err : Bool} {s t u : State} {k : Kind}

theorem Trimmed.touch (ht : Trimmed h p slot s t) : Touch h p s t := by
  obtain ⟨u, hans, hfin⟩ := ht.mid
  exact hans.touch.trans hfin.touch

theorem ReadPrelude.touch {c : Nat → UInt8} (hpre : ReadPrelude h p slot c s t) : Touch h p s t := by
  unfold ReadPrelude at hpre
  split at hpre
  · exact hpre.touch
  · rw [hpre]
    exact Touch.refl h p s

theorem Effect.touch (he : Effect h p slot cfis s t k) : Touch h p s t := by
  cases he with
  | answer hans => exact hans.touch
  | rw _ hsub => exact hsub.touch
  | flush hsub => exact hsub.touch
  | trimmed htrim => exact htrim.touch
  | trim hsub => exact hsub.touch
  | read hpre _ hsub => exact hpre.touch.trans hsub.touch

theorem touch_issued (h : Host) (p : PortNo) (slot : Slot) (cmd : UInt8) (s : State) :
    Touch h p s (s.issued p slot cmd) := touch_setPort s _ rfl rfl rfl

theorem SlotDone.touch (hd : SlotDone h p slot s t) : Touch h p s t := by
  cases hd with
  | ignored _ _ heq =>
    rw [heq]
    exact Touch.refl h p s
  | command _ _ _ heff => exact (touch_issued h p slot _ s).trans heff.touch
  | control _ _ _ hctl => exact hctl.touch

theorem TrimDone.touch {done : BitVec 32} {out : Option (BitVec 32 × Option (Nat × Nat))}
    (ht : TrimDone h p slot cfis done s t out) : Touch h p s t := by
  rcases out with - | ⟨next, - | entry⟩
  · exact absurd ht id
  · exact Trimmed.touch ht
  · obtain ⟨r, hsub⟩ := ht
    exact hsub.touch

theorem continueCommand_touch {aior : Ioreq} {atapi : Bool} {c : Nat → UInt8}
    (hok : continueCommand h p aior atapi c s = .ok () t) : Touch h p s t := by
  unfold continueCommand at hok
  split at hok
  · obtain ⟨u, r, rest, hpre, -, hsub⟩ := atapiRead_ok hok
    exact hpre.touch.trans hsub.touch
  · split at hok
    · obtain ⟨buf, -, htrim⟩ := dsmTrim_ok hok
      exact htrim.touch
    · obtain ⟨r, rest, -, hsub, -⟩ := handleRw_ok hok
      exact hsub.touch

theorem Reported.touch {ncq failed : Bool} (hr : Reported h p slot ncq failed s t) : Touch h p s t := by
  cases hq : ncq with
  | true => exact (hr.queued hq).touch
  | false => exact (hr.answered hq).touch

theorem Called.touch (hc : Called h p r err s t) : Touch h p (s.freed p r) t := by
  cases hc with
  | continued _ hrun => exact (calm_counted p _ err _).touch.trans (continueCommand_touch hrun)
  | ended _ hrep hfin => exact ((calm_counted p _ err _).touch.trans hrep.touch).trans hfin.touch

end Touched

/-! ## Turns -/

/-- The slot the loop is at is noted in the command register. -/
def State.atSlot (s : State) (p : PortNo) : State := s.setPort p (s.port p).withCcs

/-- The loop goes on to the next slot. -/
def State.advanced (s : State) (p : PortNo) : State := s.setPort p { s.port p with ccs := (s.port p).ccs + 1 }

/-- What a turn of the loop of `ahci_handle_port` has done. -/
inductive Turned (h : Host) (p : PortNo) (s t : State) : Prop
  | ended (hidle : (s.port p).idle = true) (heq : t = { s with handling := none })
  | passed (hidle : (s.port p).idle = false) (hdue : (s.port p).due = false) (heq : t = s.advanced p)
  | looked {u : State} (hidle : (s.port p).idle = false) (hdue : (s.port p).due = true)
    (hslot : SlotDone h p (s.port p).ccs ((s.atSlot p).noted p) u) (heq : t = u.advanced p)

section Turn
variable {h : Host} {p : PortNo} {s t : State}

theorem handlePortTurn_eq (h : Host) (p : PortNo) (s : State) :
    handlePortTurn h p s =
      if (s.port p).idle then .ok () { s with handling := none }
      else if (s.port p).due then
        (ahciHandleSlot h p (s.port p).ccs >>= fun _ => modifyPort p fun pr => { pr with ccs := pr.ccs + 1 }) (s.atSlot p)
      else .ok () (s.advanced p) := by
  show (if (s.port p).idle then _ else _ : AhciM Unit) s = _
  split
  · rfl
  · split
    · rfl
    · rfl

theorem handlePortTurn_ok (hok : handlePortTurn h p s = .ok () t) : Turned h p s t := by
  rw [handlePortTurn_eq] at hok
  split at hok
  · rename_i hidle
    cases hok
    exact .ended hidle rfl
  · rename_i hidle
    split at hok
    · rename_i hdue
      obtain ⟨_, u, hslot, hnext⟩ := bind_ok_iff.mp hok
      cases hnext
      exact .looked (by simpa using hidle) hdue (handleSlot_ok hslot) rfl
    · rename_i hdue
      cases hok
      exact .passed (by simpa using hidle) (by simpa using hdue) rfl

theorem handlePortTurn_stop {e : Stop} (herr : handlePortTurn h p s = .error e t) :
    (s.port p).idle = false ∧ (s.port p).due = true ∧
      ∃ u, ahciHandleSlot h p (s.port p).ccs (s.atSlot p) = .error e u := by
  rw [handlePortTurn_eq] at herr
  split at herr
  · cases herr
  · rename_i hidle
    split at herr
    · rename_i hdue
      rcases bind_error_iff.mp herr with hslot | ⟨_, u, -, hnext⟩
      · exact ⟨by simpa using hidle, hdue, t, hslot⟩
      · cases hnext
    · cases herr

theorem withCcs_started (pr : Port) : pr.withCcs.cmd &&& ahciPCmdSt = pr.cmd &&& ahciPCmdSt := by
  have hshift : ∀ k : Slot, BitVec.ofNat 32 k.val <<< ahciPCmdCcsShift &&& ahciPCmdSt = 0 := by decide
  show (pr.cmd &&& ~~~ahciPCmdCcsMask ||| BitVec.ofNat 32 pr.ccs.val <<< ahciPCmdCcsShift) &&& ahciPCmdSt = _
  rw [BitVec.and_or_distrib_right, hshift, BitVec.and_assoc]
  exact BitVec.or_zero

theorem touch_atSlot (h : Host) (p : PortNo) (s : State) : Touch h p s (s.atSlot p) :=
  touch_setPort s _ rfl rfl (withCcs_started _)

theorem touch_advanced (h : Host) (p : PortNo) (s : State) : Touch h p s (s.advanced p) :=
  touch_setPort s _ rfl rfl rfl

end Turn

end Xhyve.Emul.Ahci
