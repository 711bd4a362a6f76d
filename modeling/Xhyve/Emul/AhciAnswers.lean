import Xhyve.Emul.AhciEffects

/-!
# The commands the AHCI controller answers at once

For each handler, exactly when it refuses its command.
-/

namespace Xhyve.Emul.Ahci

open Xhyve.Lib Xhyve.Lib.Fallible

/-! ## The commands answered at once -/

/-- Where the header of a slot is, if the command list is mapped. -/
def hdrOf (pr : Port) (slot : Slot) : Nat := pr.cmdLst.getD 0 + slot.val * ahciClSize

section Handlers
variable {h : Host} {p : PortNo} {slot : Slot} {cfis : Nat} {s t : State}

theorem cmdHdr_ok {hdr : Nat} (hok : cmdHdr p slot s = .ok hdr t) : t = s ∧ hdr = hdrOf (s.port p) slot := by
  unfold cmdHdr at hok
  obtain ⟨pr, t', hpr, hrest⟩ := bind_ok_iff.mp hok
  cases hpr
  unfold hdrOf
  cases hlst : (s.port p).cmdLst with
  | none =>
    rw [hlst] at hrest
    cases hrest
  | some a =>
    rw [hlst] at hrest
    cases hrest
    exact ⟨rfl, rfl⟩

/-- `ahci_handle_read_log` refuses the command. -/
def readLogRejected (pr : Port) (m : Mem) (slot : Slot) (c : Nat → UInt8) : Bool :=
  pr.atapi ∨ hdrPrdtl m (hdrOf pr slot) = 0 ∨ c 4 ≠ 0x10 ∨ c 5 ≠ 0 ∨ c 9 ≠ 0 ∨ c 12 ≠ 1 ∨ c 13 ≠ 0

theorem answers_readLog :
    Answers h p slot (readLogRejected (s.port p) s.mem slot (bytesAt s.mem cfis))
      (ahciHandleReadLog h p slot cfis) s := by
  refine answers_getPort (answers_after (quiet_cmdHdr slot) fun hdr t hhdr => answers_getMem ?_)
  obtain ⟨rfl, rfl⟩ := cmdHdr_ok hhdr
  refine answers_refuse_if (fun _ => answers_abortTfd) fun _ => ?_
  refine answers_ite (fun _ => answers_after quiet_piosetup fun _ _ _ => ?_) fun _ => ?_
  · exact answers_after (quiet_writePrdt ..) fun _ _ _ => answers_okTfd
  · exact answers_after (quiet_writePrdt ..) fun _ _ _ => answers_okTfd

/-- `handle_identify` refuses the command. -/
def identifyRejected (pr : Port) (m : Mem) (slot : Slot) : Bool := pr.atapi ∨ hdrPrdtl m (hdrOf pr slot) = 0

theorem answers_identify :
    Answers h p slot (identifyRejected (s.port p) s.mem slot) (handleIdentify h p slot cfis) s := by
  refine answers_getPort (answers_after (quiet_cmdHdr slot) fun hdr t hhdr => answers_getMem ?_)
  obtain ⟨rfl, rfl⟩ := cmdHdr_ok hhdr
  refine answers_refuse_if (fun _ => answers_abortTfd) fun _ => ?_
  refine answers_after quiet_withBctx fun _ _ _ => answers_after quiet_piosetup fun _ _ _ => ?_
  exact answers_after (quiet_writePrdt ..) fun _ _ _ => answers_okTfd

theorem answers_atapiIdentify :
    Answers h p slot (!(s.port p).atapi) (handleAtapiIdentify h p slot cfis) s := by
  refine answers_getPort ?_
  cases (s.port p).atapi with
  | true =>
    refine answers_after quiet_piosetup fun _ _ _ => ?_
    exact answers_after (quiet_writePrdt ..) fun _ _ _ => answers_okTfd
  | false => exact answers_abortTfd

theorem quiet_setTfd (tfd : BitVec 32) : Quiet p (modifyPort p fun pr => { pr with tfd := tfd }) :=
  quiet_modifyPort (fun pr => ⟨zeros, tfd, pr.senseKey, pr.asc, pr.xfermode, pr.multSectors⟩) fun _ => rfl

theorem answers_answerTfd (ok : Bool) : Answers h p slot (!ok) (answerTfd h p slot cfis ok) s := by
  refine answers_after (quiet_setTfd _) fun _ t ht => answers_getPort ?_
  cases ht
  rw [setPort_same]
  cases ok with
  | true => exact answers_d2h (ataSDsc ||| ataSReady) (by decide) (by decide)
  | false => exact answers_d2h (ataSError ||| ataSReady ||| ataEAbort <<< 8) (by decide) (by decide)

theorem answers_setfeatures :
    Answers h p slot (!featureKnown (bytesAt s.mem cfis)) (handleSetfeatures h p slot cfis) s := by
  refine answers_getMem (answers_ite (fun _ => ?_) fun _ => answers_answerTfd _)
  refine answers_after (quiet_modifyPort ?_ fun _ => ?_) fun _ _ _ => answers_answerTfd _
  · exact fun pr => ⟨zeros, pr.tfd, pr.senseKey, pr.asc, s.mem (cfis + 12) &&& 0x7, pr.multSectors⟩
  · rfl

/-- `SET MULTIPLE` refuses the number of sectors. -/
def multiRejected (n : UInt8) : Bool := n ≠ 0 ∧ (n > 128 ∨ n &&& (n - 1) ≠ 0)

theorem answers_setMulti : Answers h p slot (multiRejected (s.mem (cfis + 12))) (handleSetMulti h p slot cfis) s := by
  refine answers_getMem (answers_refuse_if (fun _ => answers_answerTfd false) fun _ => ?_)
  refine answers_after (quiet_modifyPort ?_ fun _ => ?_) fun _ _ _ => answers_answerTfd true
  · exact fun pr => ⟨zeros, pr.tfd, pr.senseKey, pr.asc, pr.xfermode, s.mem (cfis + 12)⟩
  · rfl

/-! ## Packet commands -/

theorem answers_refuse (asc : UInt8) : Answers h p slot true (atapiRefuse h p slot cfis asc) s := by
  refine answers_after (quiet_modifyPort
    (fun pr => ⟨zeros, pr.tfd, ataSenseIllegalRequest, asc, pr.xfermode, pr.multSectors⟩) fun _ => rfl) fun _ _ _ => ?_
  exact answers_after (quiet_setIreason cfis) fun _ _ _ => answers_d2h _ (by decide) (by decide)

theorem answers_done : Answers h p slot false (atapiDone h p slot cfis) s :=
  answers_after (quiet_setIreason cfis) fun _ _ _ => answers_okTfd

theorem answers_reply (buf : Nat → UInt8) (len : Nat) :
    Answers h p slot false (atapiReply h p slot cfis buf len) s :=
  answers_after (quiet_writePrdt ..) fun _ _ _ => answers_done

theorem answers_inquiry :
    Answers h p slot (s.mem (cfis + 0x40 + 1) &&& 1 ≠ 0 ∧ s.mem (cfis + 0x40 + 2) ≠ 0 : Bool)
      (atapiInquiry h p slot cfis) s := by
  refine answers_getMem (answers_refuse_if (fun _ => answers_refuse _) fun _ => ?_)
  dsimp only
  refine answers_after (quiet_setIreason cfis) fun _ _ _ => ?_
  exact answers_after (quiet_writePrdt ..) fun _ _ _ => answers_okTfd

theorem answers_readCapacity : Answers h p slot false (atapiReadCapacity h p slot cfis) s := by
  refine answers_after quiet_withBctx fun _ _ _ => answers_after (quiet_setIreason cfis) fun _ _ _ => ?_
  exact answers_after (quiet_writePrdt ..) fun _ _ _ => answers_okTfd

theorem answers_reportLuns : Answers h p slot false (atapiReportLuns h p slot cfis) s := by
  refine answers_after (quiet_setIreason cfis) fun _ _ _ => ?_
  exact answers_after (quiet_writePrdt ..) fun _ _ _ => answers_okTfd

theorem answers_requestSense : Answers h p slot false (atapiRequestSense h p slot cfis) s :=
  answers_getMem (answers_getPort (answers_reply ..))

theorem answers_startStopUnit :
    Answers h p slot (s.mem (cfis + 0x44) &&& 3 = 2 : Bool) (atapiStartStopUnit h p slot cfis) s :=
  answers_getMem (answers_refuse_if (fun _ => answers_refuse _) fun _ => answers_done)

theorem answers_getEvent :
    Answers h p slot (s.mem (cfis + 0x40 + 1) &&& 1 = 0 : Bool) (atapiGetEventStatusNotification h p slot cfis) s :=
  answers_getMem (answers_refuse_if (fun _ => answers_refuse _) fun _ => answers_reply ..)

/-- `atapi_read_toc` refuses the packet. -/
def tocRejected (acmd : Nat → UInt8) : Bool :=
  acmd 9 >>> 6 = 0 ∧ acmd 6 > 1 ∧ acmd 6 ≠ 0xaa ∨ acmd 9 >>> 6 = 3

theorem shiftRight_six_lt (x : UInt8) : x >>> 6 = 0 ∨ x >>> 6 = 1 ∨ x >>> 6 = 2 ∨ x >>> 6 = 3 := by
  have hlt : (x >>> 6).toNat < 4 := by
    have hx := x.toNat_lt
    show (x.toNat >>> 6) < 4
    rw [Nat.shiftRight_eq_div_pow]
    omega
  have hcases : (x >>> 6).toNat = 0 ∨ (x >>> 6).toNat = 1 ∨ (x >>> 6).toNat = 2 ∨ (x >>> 6).toNat = 3 := by omega
  simp only [← UInt8.toNat_inj]
  exact hcases

theorem answers_readToc :
    Answers h p slot (tocRejected (bytesAt s.mem (cfis + 0x40))) (atapiReadToc h p slot cfis) s := by
  refine answers_getMem ?_
  dsimp only
  rcases shiftRight_six_lt (bytesAt s.mem (cfis + 0x40) 9) with h0 | h1 | h2 | h3
  · rw [if_pos h0]
    have hrej : tocRejected (bytesAt s.mem (cfis + 0x40)) =
        decide (bytesAt s.mem (cfis + 0x40) 6 > 1 ∧ bytesAt s.mem (cfis + 0x40) 6 ≠ 0xaa) := by
      simp [tocRejected, h0]
    rw [hrej]
    refine answers_refuse_if (fun _ => answers_refuse _) fun _ => ?_
    exact answers_after quiet_withBctx fun _ _ _ => answers_reply ..
  · rw [h1, if_neg (by decide), if_pos rfl]
    have hrej : tocRejected (bytesAt s.mem (cfis + 0x40)) = false := by simp [tocRejected, h1]
    rw [hrej]
    exact answers_reply ..
  · rw [h2, if_neg (by decide), if_neg (by decide), if_pos rfl]
    have hrej : tocRejected (bytesAt s.mem (cfis + 0x40)) = false := by simp [tocRejected, h2]
    rw [hrej]
    exact answers_after quiet_withBctx fun _ _ _ => answers_reply ..
  · rw [h3, if_neg (by decide), if_neg (by decide), if_neg (by decide)]
    have hrej : tocRejected (bytesAt s.mem (cfis + 0x40)) = true := by simp [tocRejected, h3]
    rw [hrej]
    exact answers_refuse _

/-- `atapi_mode_sense` refuses the packet. -/
def modeSenseRejected (acmd : Nat → UInt8) : Bool :=
  ¬ (acmd 2 >>> 6 = 0 ∧ (acmd 2 &&& 0x3f = modepageRwErrorRecovery ∨ acmd 2 &&& 0x3f = modepageCdCapabilities))

theorem answers_modeSense :
    Answers h p slot (modeSenseRejected (bytesAt s.mem (cfis + 0x40))) (atapiModeSense h p slot cfis) s := by
  refine answers_getMem ?_
  dsimp only
  split
  · rename_i hc
    have hrej : modeSenseRejected (bytesAt s.mem (cfis + 0x40)) = false := by simp [modeSenseRejected, hc.1, hc.2]
    rw [hrej]
    exact answers_reply ..
  · rename_i hc
    split
    · rename_i hc'
      have hrej : modeSenseRejected (bytesAt s.mem (cfis + 0x40)) = false := by
        simp [modeSenseRejected, hc'.1, hc'.2]
      rw [hrej]
      exact answers_reply ..
    · rename_i hc'
      have hrej : modeSenseRejected (bytesAt s.mem (cfis + 0x40)) = true := by
        refine decide_eq_true fun hboth => ?_
        rcases hboth.2 with hcode | hcode
        · exact hc ⟨hboth.1, hcode⟩
        · exact hc' ⟨hboth.1, hcode⟩
      rw [hrej]
      exact answers_ite (fun _ => answers_refuse _) fun _ => answers_refuse _

/-- A packet command that reads from the disk. -/
def isAtapiRead (acmd : Nat → UInt8) : Bool := acmd 0 = read10 ∨ acmd 0 = read12

/-- A packet command that is refused. -/
def packetRejected (acmd : Nat → UInt8) : Bool :=
  if acmd 0 = testUnitReady then false
  else if acmd 0 = inquiry then acmd 1 &&& 1 ≠ 0 ∧ acmd 2 ≠ 0
  else if acmd 0 = readCapacity then false
  else if acmd 0 = preventAllow then false
  else if acmd 0 = readToc then tocRejected acmd
  else if acmd 0 = reportLuns then false
  else if acmd 0 = requestSense then false
  else if acmd 0 = startStopUnit then acmd 4 &&& 3 = 2
  else if acmd 0 = modeSense10 then modeSenseRejected acmd
  else if acmd 0 = getEventStatusNotification then acmd 1 &&& 1 = 0
  else !isAtapiRead acmd

theorem packet_read (hread : isAtapiRead (bytesAt s.mem (cfis + 0x40)) = true) :
    handlePacketCmd h p slot cfis s = atapiRead h p slot cfis 0 s := by
  unfold handlePacketCmd
  show (if s.mem (cfis + 0x40) = testUnitReady then _ else _ : AhciM Unit) s = _
  have hop : s.mem (cfis + 0x40) = read10 ∨ s.mem (cfis + 0x40) = read12 :=
    of_decide_eq_true hread
  rcases hop with hop | hop
  · rw [hop]
    rfl
  · rw [hop]
    rfl

theorem packet_answers (hread : isAtapiRead (bytesAt s.mem (cfis + 0x40)) = false) :
    Answers h p slot (packetRejected (bytesAt s.mem (cfis + 0x40))) (handlePacketCmd h p slot cfis) s := by
  refine answers_getMem ?_
  unfold packetRejected
  refine answers_cond (fun _ => answers_done) fun _ => answers_cond (fun _ => answers_inquiry) fun _ => ?_
  refine answers_cond (fun _ => answers_readCapacity) fun _ => answers_cond (fun _ => answers_done) fun _ => ?_
  refine answers_cond (fun _ => answers_readToc) fun _ => answers_cond (fun _ => answers_reportLuns) fun _ => ?_
  have hno : ¬ (s.mem (cfis + 0x40) = read10 ∨ s.mem (cfis + 0x40) = read12) := of_decide_eq_false hread
  rw [if_neg hno, hread]
  refine answers_cond (fun _ => answers_requestSense) fun _ => ?_
  refine answers_cond (fun _ => answers_startStopUnit) fun _ => ?_
  refine answers_cond (fun _ => answers_modeSense) fun _ => ?_
  exact answers_cond (fun _ => answers_getEvent) fun _ => answers_refuse _

end Handlers

end Xhyve.Emul.Ahci
