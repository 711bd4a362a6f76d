import Xhyve.Emul.AhciCoverage

/-!
# TRIM

The list of ranges is gone through over several calls, each of which ends at a range that is not empty; its request's
callback goes on behind it. Here are the requests and the end of such a command against the list.
-/

namespace Xhyve.Emul.Ahci

open Xhyve.Lib Xhyve.Lib.Fallible

/-! ## The list of ranges -/

/-- The ranges of a payload of 512 bytes from the `k`th on, without the empty ones. -/
def rangesFrom (pay : Nat → UInt8) (k : Nat) : List (Nat × Nat) :=
  ((List.range' k (64 - k)).map fun i => trimEntry pay (8 * i)).filter fun e => e.2 ≠ 0

def ranges (pay : Nat → UInt8) : List (Nat × Nat) := rangesFrom pay 0

theorem rangesFrom_end (pay : Nat → UInt8) : rangesFrom pay 64 = [] := rfl

theorem rangesFrom_step (pay : Nat → UInt8) {k : Nat} (hk : k < 64) :
    rangesFrom pay k = if (trimEntry pay (8 * k)).2 = 0 then rangesFrom pay (k + 1)
      else trimEntry pay (8 * k) :: rangesFrom pay (k + 1) := by
  have hlen : 64 - k = (64 - (k + 1)) + 1 := by omega
  unfold rangesFrom
  rw [hlen, List.range'_succ, List.map_cons, List.filter_cons]
  by_cases he : (trimEntry pay (8 * k)).2 = 0
  · rw [if_neg (by simpa using he), if_pos he]
  · rw [if_pos (by simpa using he), if_neg he]

/-- Where the `k`th range begins. -/
def entryAt (k : Nat) : BitVec 32 := BitVec.ofNat 32 (8 * k)

theorem entryAt_toNat {k : Nat} (hk : k ≤ 64) : (entryAt k).toNat = 8 * k := by
  rw [entryAt, BitVec.toNat_ofNat, Nat.mod_eq_of_lt (by omega)]

theorem entryAt_succ (k : Nat) : entryAt k + 8 = entryAt (k + 1) := by
  rw [entryAt, entryAt, Nat.mul_succ, BitVec.ofNat_add]
  rfl

theorem entryAt_inj {j k : Nat} (hj : j ≤ 64) (hk : k ≤ 64) (h : entryAt j = entryAt k) : j = k := by
  have hnat := congrArg BitVec.toNat h
  rw [entryAt_toNat hj, entryAt_toNat hk] at hnat
  omega

theorem full_le_entryAt {k : Nat} (hk : k ≤ 64) : (512 : BitVec 32) ≤ entryAt k ↔ k = 64 := by
  rw [BitVec.le_def, entryAt_toNat hk]
  show 512 ≤ 8 * k ↔ _
  omega

/-- The bytes of the buffer that are looked at. -/
theorem trimNext_congr {buf pay : Nat → UInt8} (h : ∀ i < 512, buf i = pay i) (len : BitVec 32) :
    ∀ (fuel : Nat) (done : BitVec 32), trimNext buf len fuel done = trimNext pay len fuel done := by
  intro fuel
  induction fuel with
  | zero => exact fun _ => rfl
  | succ fuel ih =>
    intro done
    unfold trimNext
    split
    · rfl
    · rename_i hin
      have hentry : trimEntry buf done.toNat = trimEntry pay done.toNat := by
        unfold trimEntry
        rw [h _ (by omega), h _ (by omega), h _ (by omega), h _ (by omega), h _ (by omega), h _ (by omega),
          h _ (by omega), h _ (by omega)]
      rw [hentry]
      dsimp only
      rw [ih]

/-- A call finds the next range that is not empty, or the end of the list. -/
theorem trimNext_ranges (pay : Nat → UInt8) :
    ∀ (fuel k : Nat), k < 64 → 64 - k ≤ fuel →
      (trimNext pay 512 fuel (entryAt k) = some (entryAt 64, none) ∧ rangesFrom pay k = []) ∨
        ∃ j e, k < j ∧ j ≤ 64 ∧ trimNext pay 512 fuel (entryAt k) = some (entryAt j, some e) ∧
          rangesFrom pay k = e :: rangesFrom pay j := by
  intro fuel
  induction fuel with
  | zero =>
    intro k hk hfuel
    omega
  | succ fuel ih =>
    intro k hk hfuel
    have hin : ¬ 512 < (entryAt k).toNat + 8 := by
      rw [entryAt_toNat hk.le]
      omega
    have hstep : trimNext pay 512 (fuel + 1) (entryAt k) =
        if (trimEntry pay (8 * k)).2 = 0 then
          if 512 ≤ entryAt (k + 1) then some (entryAt (k + 1), none) else trimNext pay 512 fuel (entryAt (k + 1))
        else some (entryAt (k + 1), some (trimEntry pay (8 * k))) := by
      conv_lhs => unfold trimNext
      rw [if_neg hin, entryAt_toNat hk.le, entryAt_succ]
    rw [hstep, rangesFrom_step pay hk]
    by_cases hempty : (trimEntry pay (8 * k)).2 = 0
    · rw [if_pos hempty, if_pos hempty]
      by_cases hlast : k + 1 = 64
      · rw [if_pos ((full_le_entryAt (by omega)).mpr hlast), hlast, rangesFrom_end]
        exact .inl ⟨rfl, rfl⟩
      · rw [if_neg (mt (full_le_entryAt (by omega)).mp hlast)]
        rcases ih (k + 1) (by omega) (by omega) with hend | ⟨j, e, hj, hle, hfound⟩
        · exact .inl hend
        · exact .inr ⟨j, e, by omega, hle, hfound⟩
    · rw [if_neg hempty, if_neg hempty]
      exact .inr ⟨k + 1, _, by omega, by omega, rfl, rfl⟩

/-! ## The calls for one command -/

/-- A TRIM of one block. -/
structure OneBlockTrim (c : Nat → UInt8) : Prop where
  cmd : c 2 = ataDataSetManagement
  count : c 12 = 1 ∧ c 13 = 0

theorem OneBlockTrim.len {c : Nat → UInt8} (hc : OneBlockTrim c) : trimLen c = 512 := by
  unfold trimLen
  rw [if_pos hc.cmd, hc.count.1, hc.count.2]
  rfl

theorem OneBlockTrim.dsm {c : Nat → UInt8} (hc : OneBlockTrim c) : isDsm c = true := decide_eq_true (.inl hc.cmd)

theorem OneBlockTrim.not_ncq {c : Nat → UInt8} (hc : OneBlockTrim c) : isNcq (c 2) = false := by
  rw [hc.cmd]
  decide

section Command
variable (h : Host) (p : PortNo) (slot : Slot) (cfis : Nat) (pay : Nat → UInt8)

/-- The command and its payload are what they were. -/
structure TrimKept (s : State) : Prop where
  disk : (s.port p).atapi = false
  table : OneBlockTrim (bytesAt s.mem cfis)
  payload : ∃ buf, readPrdt h p slot cfis s.stack s = .ok buf s ∧ ∀ i < 512, buf i = pay i

/-- The requests handed over between two states of a port, of which there is at most one. -/
def issued (a b : Port) : List Ioreq := if b.iobhd = a.iobhd then [] else (newest b).toList

/-- What the port has reported since. -/
def reported (a b : Port) : List Report := b.reports.drop a.reports.length

/-- The calls of `ahci_handle_dsm_trim` for one command, up to some callback, all of whose requests have succeeded: the
requests, last first, the reports, and whether a request is outstanding. -/
inductive TrimRun : List Ioreq → List Report → Bool → Prop
  | start {s t : State} (kept : TrimKept h p slot cfis pay s) (run : ahciHandleDsmTrim h p slot cfis 0 s = .ok () t) :
      TrimRun (issued (s.port p) (t.port p)) (reported (s.port p) (t.port p)) (!(issued (s.port p) (t.port p)).isEmpty)
  | callback {s t : State} {r : Nat} {a : Ioreq} {as : List Ioreq} {rs : List Report} (prev : TrimRun (a :: as) rs true)
      (busy : (s.port p).ioreq r = a) (kept : TrimKept h p slot cfis pay s)
      (start : TrimKept h p slot cfis pay ((s.freed p r).counted p a false))
      (run : ioreqCb h p r false s = .ok () t) :
      TrimRun (issued ((s.freed p r).port p) (t.port p) ++ a :: as) (rs ++ reported (s.port p) (t.port p))
        (!(issued ((s.freed p r).port p) (t.port p)).isEmpty)

end Command

/-- A report that ends the command of a slot. -/
def endsSlot (slot : Slot) : Report → Bool
  | .d2h q _ | .sdb q _ => q = slot
  | _ => false

/-- The request for a range, in machine words. -/
def rangeWords (h : Host) (e : Nat × Nat) : BitVec 64 × Nat :=
  (BitVec.ofNat 64 (e.1 * h.sectsz), e.2 * h.sectsz % 2 ^ 32)

/-- Offset and length of a request. -/
def Ioreq.words (a : Ioreq) : BitVec 64 × Nat := (a.brOffset, a.brResid)

section Calls
variable {h : Host} {p : PortNo} {slot : Slot} {cfis r k : Nat} {pay : Nat → UInt8} {s t u : State} {a : Ioreq}
  {as : List Ioreq} {rs : List Report} {o : Bool}

/-- One call from the `k`th range on: a request for the next range that is not empty, or the end of the command. -/
inductive TrimCall (h : Host) (p : PortNo) (slot : Slot) (cfis : Nat) (pay : Nat → UInt8) (k : Nat) (s t : State) : Prop
  | request (j : Nat) (e : Nat × Nat) (a : Ioreq) (hle : j ≤ 64) (hfound : rangesFrom pay k = e :: rangesFrom pay j)
      (hissued : issued (s.port p) (t.port p) = [a]) (hreported : reported (s.port p) (t.port p) = [])
      (hwords : a.words = rangeWords h e) (hdone : a.done = entryAt j) (hmore : a.more = decide (j ≠ 64))
      (hplace : a.slot = slot ∧ a.cfis = cfis)
  | complete (hnone : rangesFrom pay k = []) (hissued : issued (s.port p) (t.port p) = [])
      (hreported : (reported (s.port p) (t.port p)).countP (endsSlot slot) = 1)

theorem issued_submitted {accepted : Bool} (hsub : Submitted h p accepted a s t) : issued (s.port p) (t.port p) = [a] := by
  have hnew := hsub.made
  obtain ⟨r, rest, x, -, hport⟩ := hsub.port
  have hbusy : (t.port p).iobhd = r :: (s.port p).iobhd := by
    rw [hport]
    cases accepted <;> rfl
  unfold issued
  rw [if_neg (by rw [hbusy]; exact List.cons_ne_self r _), hnew]
  rfl

theorem reported_submitted (hsub : Submitted h p false a s t) : reported (s.port p) (t.port p) = [] := by
  obtain ⟨r, rest, x, -, hport⟩ := hsub.port
  have hsame : (t.port p).reports = (s.port p).reports := by
    rw [hport]
    rfl
  unfold reported
  rw [hsame, List.drop_length]

theorem settled_iobhd (pr : Port) : pr.settled.iobhd = pr.iobhd := by
  unfold Port.settled
  split <;> rfl

theorem settled_reports (pr : Port) : ∃ rs, pr.settled.reports = pr.reports ++ rs ∧ rs.countP (endsSlot slot) = 0 := by
  unfold Port.settled
  split
  · exact ⟨[.stopped], rfl, rfl⟩
  · exact ⟨[], (List.append_nil _).symm, rfl⟩

/-- The final FIS and what follows it. -/
theorem ended_port (hans : Answered h p slot false s u) (hfin : Finished h p slot u t) :
    (t.port p).iobhd = (s.port p).iobhd ∧ (reported (s.port p) (t.port p)).countP (endsSlot slot) = 1 := by
  obtain ⟨x, errCfis, is, -, hport⟩ := hans.port
  have hfport := hfin.port
  obtain ⟨rs, hreports, hends⟩ := @settled_reports slot
    ({ u.port p with pending := WordSet.clr slot.val (u.port p).pending } : Port)
  rw [← hfport] at hreports
  have hbusy : (t.port p).iobhd = (u.port p).iobhd := by
    rw [hfport, settled_iobhd]
  have hu : (u.port p).iobhd = (s.port p).iobhd ∧ (u.port p).reports = (s.port p).reports ++ [.d2h slot false] := by
    rw [hport]
    exact ⟨rfl, rfl⟩
  refine ⟨hbusy.trans hu.1, ?_⟩
  unfold reported
  have hall : (t.port p).reports = (s.port p).reports ++ ([.d2h slot false] ++ rs) := by
    rw [hreports, ← List.append_assoc]
    exact congrArg (· ++ rs) hu.2
  rw [hall, List.drop_left, List.countP_append, hends]
  simp [endsSlot]

theorem issued_same (hsame : (t.port p).iobhd = (s.port p).iobhd) : issued (s.port p) (t.port p) = [] := if_pos hsame

theorem trimCall_of_ok (hk : k < 64) (hkept : TrimKept h p slot cfis pay s)
    (hok : ahciHandleDsmTrim h p slot cfis (entryAt k) s = .ok () t) : TrimCall h p slot cfis pay k s t := by
  obtain ⟨buf, hbuf, hpay⟩ := hkept.payload
  obtain ⟨buf', hbuf', hdone⟩ := dsmTrim_ok hok
  obtain rfl : buf = buf' := by
    rw [hbuf] at hbuf'
    cases hbuf'
    rfl
  rw [hkept.table.len, trimNext_congr hpay] at hdone
  rcases trimNext_ranges pay 65 k hk (by omega) with ⟨hend, hnone⟩ | ⟨j, e, -, hle, hnext, hfound⟩
  · rw [hend] at hdone
    obtain ⟨u, hans, hfin⟩ := hdone
    obtain ⟨hbusy, hends⟩ := ended_port hans hfin
    exact .complete hnone (issued_same hbusy) hends
  · rw [hnext] at hdone
    obtain ⟨r, hsub⟩ := hdone
    have hcmd : s.mem (cfis + 2) = ataDataSetManagement := hkept.table.cmd
    rw [decide_eq_false (by simp [hcmd])] at hsub
    refine .request j e _ hle hfound (issued_submitted hsub) (reported_submitted hsub) rfl rfl ?_ ⟨rfl, rfl⟩
    show decide (trimLen (bytesAt s.mem cfis) ≠ entryAt j) = _
    rw [hkept.table.len]
    refine decide_eq_decide.mpr (not_congr ⟨fun heq => ?_, ?_⟩)
    · exact (entryAt_inj (Nat.le_refl 64) hle heq).symm
    · rintro rfl
      rfl

/-- Up to the last range, a call reads inside the buffer. -/
theorem trim_inside {e : Stop} (hk : k < 64) (hkept : TrimKept h p slot cfis pay s)
    (herr : ahciHandleDsmTrim h p slot cfis (entryAt k) s = .error e t) : e ≠ .overread := by
  rintro rfl
  obtain ⟨buf, hbuf, hpay⟩ := hkept.payload
  rcases dsmTrim_stop herr with hstop | ⟨-, buf', hbuf', hover⟩
  · rcases hstop with (hnull | ⟨huninit, -⟩) | ⟨hreq, -⟩ | ⟨hblock, -⟩
    · cases hnull
    · cases huninit
    · cases hreq
    · cases hblock
  · obtain rfl : buf = buf' := by
      rw [hbuf] at hbuf'
      cases hbuf'
      rfl
    rw [hkept.table.len, trimNext_congr hpay] at hover
    rcases trimNext_ranges pay 65 k hk (by omega) with ⟨hend, -⟩ | ⟨j, e, -, -, hnext, -⟩
    · rw [hend] at hover
      cases hover
    · rw [hnext] at hover
      cases hover

/-- How far the calls have come: the requests are those of the ranges up to the next one to be looked at, and the command
ends with the last of them. -/
def TrimProgress (h : Host) (slot : Slot) (cfis : Nat) (pay : Nat → UInt8) (as : List Ioreq) (rs : List Report) : Bool → Prop
  | true => ∃ a as' k, as = a :: as' ∧ k ≤ 64 ∧ a.done = entryAt k ∧ a.more = decide (k ≠ 64) ∧
    (a.slot = slot ∧ a.cfis = cfis) ∧ rs.countP (endsSlot slot) = 0 ∧
    (ranges pay).map (rangeWords h) = as.reverse.map Ioreq.words ++ (rangesFrom pay k).map (rangeWords h)
  | false => rs.countP (endsSlot slot) = 1 ∧ (ranges pay).map (rangeWords h) = as.reverse.map Ioreq.words

/-- A call adds to the requests before it. -/
theorem TrimCall.progress (hc : TrimCall h p slot cfis pay k s t) (hends : rs.countP (endsSlot slot) = 0)
    (hbefore : (ranges pay).map (rangeWords h) = as.reverse.map Ioreq.words ++ (rangesFrom pay k).map (rangeWords h)) :
    TrimProgress h slot cfis pay (issued (s.port p) (t.port p) ++ as) (rs ++ reported (s.port p) (t.port p))
      (!(issued (s.port p) (t.port p)).isEmpty) := by
  cases hc with
  | request j e a hle hfound hissued hreported hwords hdone hmore hplace =>
    rw [hissued, hreported, List.append_nil, List.singleton_append]
    refine ⟨a, as, j, rfl, hle, hdone, hmore, hplace, hends, ?_⟩
    rw [hbefore, hfound, List.map_cons, List.reverse_cons, List.map_append, List.map_singleton, hwords, List.append_assoc]
    rfl
  | complete hnone hissued hreported =>
    rw [hissued, List.nil_append]
    refine ⟨?_, ?_⟩
    · rw [List.countP_append, hends, hreported]
    · rw [hbefore, hnone, List.map_nil, List.append_nil]

/-- The port a callback begins with, for what follows it. -/
theorem counted_port : ((s.freed p r).counted p a false).port p = (s.freed p r).port p := rfl

theorem freed_reports : ((s.freed p r).port p).reports = (s.port p).reports := by rw [freed_port]

theorem TrimRun.progress (hrun : TrimRun h p slot cfis pay as rs o) : TrimProgress h slot cfis pay as rs o := by
  induction hrun with
  | start kept run =>
    have hprog := @TrimCall.progress h p slot cfis 0 pay _ _ [] [] (trimCall_of_ok (by decide) kept run) rfl rfl
    rw [List.append_nil, List.nil_append] at hprog
    exact hprog
  | @callback s t r a as rs prev busy kept start run ih =>
    obtain ⟨a', as', k, heq, hk, hdone, hmore, ⟨hslot, hcfis⟩, hends, hbefore⟩ := ih
    obtain ⟨rfl, rfl⟩ := List.cons.inj heq
    have hreports : ∀ t : State, reported (s.port p) (t.port p) =
        reported (((s.freed p r).counted p a false).port p) (t.port p) := by
      intro t
      rw [counted_port, reported, reported, freed_reports]
    rw [hreports]
    cases ioreqCb_ok run with
    | continued hgoes hcont =>
      rw [busy] at hgoes hcont
      have hne : k ≠ 64 := by simpa [hmore] using hgoes.2
      unfold continueCommand at hcont
      have hdsm : isDsm (bytesAt s.mem a.cfis) = true := by
        rw [hcfis]
        exact kept.table.dsm
      rw [kept.disk, if_neg nofun, hdsm, if_pos rfl, hslot, hcfis, hdone] at hcont
      exact (trimCall_of_ok (by omega) start hcont).progress hends hbefore
    | ended hover hrep hfin =>
      rw [busy] at hover hrep hfin
      have hlast : k = 64 := by simpa [hmore] using hover
      have hnot : endsQueued (s.port p) (bytesAt s.mem a.cfis) = false := by
        unfold endsQueued
        rw [hcfis, kept.table.not_ncq, Bool.and_false]
      rw [hslot] at hrep hfin
      obtain ⟨hbusy, hend⟩ := ended_port (hrep.answered hnot) hfin
      refine (TrimCall.complete ?_ (issued_same hbusy) hend : TrimCall h p slot cfis pay k _ t).progress hends hbefore
      rw [hlast, rangesFrom_end]

end Calls

/-- Every range of the payload, in bytes of the disk, fits an offset of 64 bits with a sign and a length of 32 bits. -/
def RangesFit (h : Host) (pay : Nat → UInt8) : Prop :=
  ∀ e ∈ ranges pay, e.1 * h.sectsz < 2 ^ 63 ∧ e.2 * h.sectsz < 2 ^ 32

instance (h : Host) (pay : Nat → UInt8) : Decidable (RangesFit h pay) :=
  inferInstanceAs (Decidable (∀ e ∈ ranges pay, e.1 * h.sectsz < 2 ^ 63 ∧ e.2 * h.sectsz < 2 ^ 32))

/-- Where a range is on the disk, and its length. -/
def rangeBytes (h : Host) (e : Nat × Nat) : Int × Nat := ((e.1 * h.sectsz : Nat), e.2 * h.sectsz)

/-- Offset and length that the block interface is given. -/
def wordBytes (w : BitVec 64 × Nat) : Int × Nat := (w.1.toInt, w.2)

/-- The requests are the ranges, in order and once each, and all of them when the command ends, which it does once. -/
structure TrimExact (h : Host) (slot : Slot) (pay : Nat → UInt8) (as : List Ioreq) (rs : List Report) (o : Bool) : Prop where
  requests : ∃ rest, (ranges pay).map (rangeBytes h) = as.reverse.map (fun a => (a.brOffset.toInt, a.brResid)) ++ rest ∧
    (o = false → rest = [])
  ends : rs.countP (endsSlot slot) = if o then 0 else 1

theorem wordBytes_iff (h : Host) (e : Nat × Nat) :
    wordBytes (rangeWords h e) = rangeBytes h e ↔ e.1 * h.sectsz < 2 ^ 63 ∧ e.2 * h.sectsz < 2 ^ 32 := by
  have hlen : e.2 * h.sectsz % 2 ^ 32 = e.2 * h.sectsz ↔ e.2 * h.sectsz < 2 ^ 32 :=
    ⟨fun heq => heq ▸ Nat.mod_lt _ (by decide), Nat.mod_eq_of_lt⟩
  have hoffset : (BitVec.ofNat 64 (e.1 * h.sectsz)).toInt = (e.1 * h.sectsz : Nat) ↔ e.1 * h.sectsz < 2 ^ 63 := by
    rw [BitVec.toInt_eq_toNat_cond, BitVec.toNat_ofNat]
    split <;> omega
  unfold wordBytes rangeWords rangeBytes
  rw [Prod.mk.injEq, hoffset, hlen]

/-- For a payload that is kept, the requests of all calls are its ranges in order and once each, and the command ends once,
with the last of them, exactly if every range fits the words its request is made of; no call reads beyond the buffer. -/
theorem trim_requests (h : Host) (p : PortNo) (slot : Slot) (cfis : Nat) (pay : Nat → UInt8) :
    (∀ as rs o, TrimRun h p slot cfis pay as rs o → RangesFit h pay → TrimExact h slot pay as rs o) ∧
    (∀ as rs, TrimRun h p slot cfis pay as rs false → TrimExact h slot pay as rs false → RangesFit h pay) ∧
    (∀ s t, TrimKept h p slot cfis pay s → ahciHandleDsmTrim h p slot cfis 0 s ≠ .error .overread t) ∧
    (∀ a as rs, TrimRun h p slot cfis pay (a :: as) rs true → a.more = true → ∀ s t, TrimKept h p slot cfis pay s →
      ahciHandleDsmTrim h p slot cfis a.done s ≠ .error .overread t) := by
  refine ⟨?_, ?_, ?_, ?_⟩
  · intro as rs o hrun hfit
    have hprog := hrun.progress
    have hwords : ∀ es : List (Nat × Nat), (∀ e ∈ es, e ∈ ranges pay) →
        (es.map (rangeWords h)).map wordBytes = es.map (rangeBytes h) := by
      intro es hes
      rw [List.map_map, List.map_inj_left]
      exact fun e he => (wordBytes_iff h e).mpr (hfit e (hes e he))
    have hall := hwords (ranges pay) fun _ => id
    cases o with
    | true =>
      obtain ⟨a, as', k, rfl, hk, -, -, -, hends, hbefore⟩ := hprog
      refine ⟨⟨((rangesFrom pay k).map (rangeWords h)).map wordBytes, ?_, nofun⟩, hends⟩
      rw [← hall, hbefore, List.map_append, List.map_map]
      rfl
    | false =>
      obtain ⟨hends, hbefore⟩ := hprog
      refine ⟨⟨[], ?_, fun _ => rfl⟩, hends⟩
      rw [← hall, hbefore, List.append_nil, List.map_map]
      rfl
  · intro as rs hrun hexact
    obtain ⟨-, hbefore⟩ := hrun.progress
    obtain ⟨⟨rest, hranges, hrest⟩, -⟩ := hexact
    have hmap : (ranges pay).map (rangeBytes h) = (ranges pay).map (wordBytes ∘ rangeWords h) := by
      rw [hranges, hrest rfl, List.append_nil, ← List.map_map, hbefore, List.map_map]
      rfl
    intro e he
    exact (wordBytes_iff h e).mp (List.map_inj_left.mp hmap e he).symm
  · intro s t hkept herr
    exact trim_inside (k := 0) (by decide) hkept herr rfl
  · intro a as rs hrun hmore s t hkept herr
    obtain ⟨a', as', k, heq, hk, hdone, hmore', -⟩ := hrun.progress
    obtain ⟨rfl, rfl⟩ := List.cons.inj heq
    have hne : k ≠ 64 := by simpa [hmore'] using hmore
    rw [hdone] at herr
    exact trim_inside (by omega) hkept herr rfl

/-- A command list at 0x1000 with a TRIM of one block at 0x2000, whose payload at 0x3000 has one range of 32768 sectors. -/
def trimMem : Mem := fun a =>
  if a = 0x1002 then 1
  else if a = 0x2002 then ataDataSetManagement
  else if a = 0x2003 ∨ a = 0x200c then 1
  else if a = 0x2081 then 0x30
  else if a = 0x208c then 0xff
  else if a = 0x208d then 0x01
  else if a = 0x3007 then 0x80
  else 0

def trimPayload : Nat → UInt8 := fun i => trimMem (0x3000 + i)

/-- The port of a disk with that command list. -/
def trimStart (h : Host) : State :=
  (startState h false trimMem).setPort 0 { (startState h false trimMem).port 0 with cmdLst := some 0x1000 }

def largeSectors : Host := { flatHost with sectsz := 131072 }

/-- The first call hands over one request, of 16 MiB. -/
theorem trim_requests_one : ∃ as rs, TrimRun flatHost 0 0 0x2000 trimPayload as rs true ∧
    TrimExact flatHost 0 trimPayload as rs true ∧ as.map Ioreq.words = [(0, 32768 * 512)] := by
  have hkept : TrimKept flatHost 0 0 0x2000 trimPayload (trimStart flatHost) :=
    ⟨rfl, ⟨rfl, rfl, rfl⟩, _, rfl, by decide +kernel⟩
  obtain ⟨t, ht, hwords⟩ : ∃ t, ahciHandleDsmTrim flatHost 0 0 0x2000 0 (trimStart flatHost) = .ok () t ∧
      (issued ((trimStart flatHost).port 0) (t.port 0)).map Ioreq.words = [(0, 32768 * 512)] :=
    ⟨_, rfl, by decide +kernel⟩
  have hrun := TrimRun.start hkept ht
  have hsome : (!(issued ((trimStart flatHost).port 0) (t.port 0)).isEmpty) = true := by
    cases hi : issued ((trimStart flatHost).port 0) (t.port 0) with
    | nil =>
      rw [hi] at hwords
      cases hwords
    | cons a as => rfl
  rw [hsome] at hrun
  obtain ⟨hexact, -⟩ := trim_requests flatHost 0 0 0x2000 trimPayload
  exact ⟨_, _, hrun, hexact _ _ _ hrun (by decide +kernel), hwords⟩

/-- With sectors of 128 KiB the length of 4 GiB is cut to nothing. -/
theorem trim_length_cut : ∃ as rs o, TrimRun largeSectors 0 0 0x2000 trimPayload as rs o ∧
    as.map Ioreq.words = [(0, 0)] ∧ ¬ TrimExact largeSectors 0 trimPayload as rs o := by
  have hkept : TrimKept largeSectors 0 0 0x2000 trimPayload (trimStart largeSectors) :=
    ⟨rfl, ⟨rfl, rfl, rfl⟩, _, rfl, by decide +kernel⟩
  obtain ⟨t, ht, hwords⟩ : ∃ t, ahciHandleDsmTrim largeSectors 0 0 0x2000 0 (trimStart largeSectors) = .ok () t ∧
      (issued ((trimStart largeSectors).port 0) (t.port 0)).map Ioreq.words = [(0, 0)] :=
    ⟨_, rfl, by decide +kernel⟩
  refine ⟨_, _, _, .start hkept ht, hwords, ?_⟩
  intro hexact
  obtain ⟨⟨rest, hranges, -⟩, -⟩ := hexact
  have hall : (ranges trimPayload).map (rangeBytes largeSectors) = [(0, 32768 * 131072)] := by decide +kernel
  generalize issued ((trimStart largeSectors).port 0) (t.port 0) = as at hwords hranges
  have hfirst : as.reverse.map (fun a => (a.brOffset.toInt, a.brResid)) = [(0, 0)] := by
    have hmap := congrArg (List.map wordBytes) (congrArg List.reverse hwords)
    rw [← List.map_reverse, List.map_map] at hmap
    exact hmap
  rw [hall, hfirst] at hranges
  cases hranges

/-! ## The two encodings -/

/-- A TRIM of one block, as `DATA SET MANAGEMENT`. -/
structure PlainTrim (c : Nat → UInt8) : Prop where
  cmd : c 2 = ataDataSetManagement
  trim : c 3 = ataDsmTrim ∧ c 11 = 0
  count : c 12 = 1 ∧ c 13 = 0

/-- A TRIM of one block, as `SEND FPDMA QUEUED`: the subcommand, the bit in the auxiliary field and the count where
`ahci_handle_dsm_trim` looks for it. -/
structure QueuedTrim (c : Nat → UInt8) : Prop where
  cmd : c 2 = ataSendFpdmaQueued
  subcommand : c 13 &&& 0x1f = ataSfpdmaDsm
  auxiliary : c 16 = ataDsmTrim ∧ c 17 = 0
  count : c 3 = 1 ∧ c 11 = 0

/-- The queued command in `s` is accepted and does what the other one does in `s'`. -/
structure QueuedAgrees (h : Host) (p : PortNo) (slot : Slot) (cfis : Nat) (s s' : State) : Prop where
  accepted : ∃ t, ahciHandleCmd h p slot cfis s = .ok () t ∧ .d2h slot true ∉ reported (s.port p) (t.port p)
  same : ∀ t t', ahciHandleCmd h p slot cfis s = .ok () t → ahciHandleCmd h p slot cfis s' = .ok () t' →
    (issued (s.port p) (t.port p)).map Ioreq.words = (issued (s'.port p) (t'.port p)).map Ioreq.words

section Encodings
variable {h : Host} {p : PortNo} {slot : Slot} {cfis : Nat} {s s' t : State}

theorem QueuedTrim.kind (hq : QueuedTrim (bytesAt s.mem cfis)) : cmdKind (s.port p) s.mem slot cfis = .answer true := by
  unfold cmdKind
  dsimp only
  rw [hq.cmd]
  rfl

/-- A command that is answered at once reports that, behind its issue. -/
theorem reported_answered (hans : Answered h p slot true (s.issued p slot (s.mem (cfis + 2))) t) :
    .d2h slot true ∈ reported (s.port p) (t.port p) := by
  obtain ⟨x, errCfis, is, -, hport⟩ := hans.port
  have hreports : (t.port p).reports = (s.port p).reports ++ [.issue slot (s.mem (cfis + 2)), .d2h slot true] := by
    rw [hport, State.issued, setPort_same]
    exact List.append_assoc ..
  unfold reported
  rw [hreports, List.drop_left]
  simp

/-- No table passes the two tests of the auxiliary byte. -/
theorem QueuedTrim.refused (hq : QueuedTrim (bytesAt s.mem cfis)) : ¬ QueuedAgrees h p slot cfis s s' := by
  intro hagrees
  obtain ⟨t, hok, hno⟩ := hagrees.accepted
  have heffect := handleCmd_ok hok
  rw [hq.kind] at heffect
  cases heffect with
  | answer hans => exact hno (reported_answered hans)

theorem put16_far {i v j : Nat} {buf : Nat → UInt8} (hj : j / 2 ≠ i) : put16 i v buf j = buf j := by
  unfold put16
  rw [if_neg (by omega), if_neg (by omega)]

theorem putBytes_far {i j : Nat} {bs : List UInt8} {buf : Nat → UInt8} (hj : i + bs.length ≤ j) :
    putBytes i bs buf j = buf j := by
  unfold putBytes
  rw [if_neg (by omega)]

/-- The identify data says that `SEND FPDMA QUEUED` is supported. -/
theorem identify_queued (h : Host) (pr : Port) : identifyBuf h pr 154 &&& 0x40 = 0x40 := by
  unfold identifyBuf ahciChecksum
  rw [if_neg (by decide), ataString, putBytes_far (by simp), ataString, putBytes_far (by simp), ataString,
    putBytes_far (by simp), putWords, List.foldl_append]
  simp only [List.foldl_cons, List.foldl_nil]
  repeat rw [put16_far (by decide)]
  unfold put16
  rw [if_pos (by decide), UInt8.ofNat_or]
  have hbit : ∀ y : BitVec 8, (0x40#8 ||| y) &&& 0x40#8 = 0x40#8 := by
    intro y
    ext i hi
    rw [BitVec.getElem_and, BitVec.getElem_or]
    cases (0x40#8)[i] <;> simp
  exact UInt8.eq_of_toBitVec_eq (hbit _)

end Encodings

/-- The identify data advertises the queued command, and however well-formed it is, no queued TRIM is accepted. -/
theorem queued_trim_refused (h : Host) (p : PortNo) (slot : Slot) (cfis : Nat) (s s' : State)
    (hq : QueuedTrim (bytesAt s.mem cfis)) :
    identifyBuf h (s.port p) 154 &&& 0x40 = 0x40 ∧ ¬ QueuedAgrees h p slot cfis s s' :=
  ⟨identify_queued h (s.port p), hq.refused⟩

/-- The same payload, with the queued command. -/
def queuedTrimMem : Mem := fun a =>
  if a = 0x2002 then ataSendFpdmaQueued
  else if a = 0x2010 then ataDsmTrim
  else if a = 0x200c then 0
  else trimMem a

def queuedStart : State := { trimStart flatHost with mem := queuedTrimMem }

theorem queued_trim_refused_one :
    identifyBuf flatHost (queuedStart.port 0) 154 &&& 0x40 = 0x40 ∧
      ¬ QueuedAgrees flatHost 0 0 0x2000 queuedStart (trimStart flatHost) :=
  queued_trim_refused flatHost 0 0 0x2000 queuedStart (trimStart flatHost)
    ⟨by decide, by decide, by decide, by decide⟩

/-- One payload: `DATA SET MANAGEMENT` hands its range over, `SEND FPDMA QUEUED` is aborted. -/
theorem queued_trim_aborted :
    QueuedTrim (bytesAt queuedStart.mem 0x2000) ∧ PlainTrim (bytesAt (trimStart flatHost).mem 0x2000) ∧
      (∃ t, ahciHandleCmd flatHost 0 0 0x2000 (trimStart flatHost) = .ok () t ∧
        (issued ((trimStart flatHost).port 0) (t.port 0)).map Ioreq.words = [(0, 32768 * 512)]) ∧
      (∃ t, ahciHandleCmd flatHost 0 0 0x2000 queuedStart = .ok () t ∧
        (issued (queuedStart.port 0) (t.port 0)).map Ioreq.words = []) ∧
      ¬ QueuedAgrees flatHost 0 0 0x2000 queuedStart (trimStart flatHost) := by
  have hq : QueuedTrim (bytesAt queuedStart.mem 0x2000) := ⟨by decide, by decide, by decide, by decide⟩
  exact ⟨hq, ⟨by decide, by decide, by decide⟩, ⟨_, rfl, by decide +kernel⟩, ⟨_, rfl, by decide +kernel⟩, hq.refused⟩

end Xhyve.Emul.Ahci
