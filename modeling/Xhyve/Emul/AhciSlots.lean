import Xhyve.Emul.AhciRegisters
import Xhyve.Emul.BlockIfQueues

/-!
# The requests and slots of an AHCI port

Requests go from the free list to the busy list when a command is handed to the block interface, and back when
the callback of their command runs or a stopped port cancels it. A callback that goes on with its command puts
the request back first, so that for a while a slot is pending that no busy request has: this one slot is held.
-/

namespace Xhyve.Emul.Ahci

open Xhyve.Lib Xhyve.Lib.Fallible

/-- The free and the busy list share out the requests, and the slots in flight are those of the busy ones,
with the one that a callback holds. -/
structure SlotsInv (pr : Port) (held : Option Slot) : Prop where
  partition : (pr.iofhd ++ pr.iobhd).Perm (List.range ioqsz)
  distinct : (pr.iobhd.map fun r => (pr.ioreq r).slot).Nodup
  pending : ∀ slot : Slot, pr.pending.getLsbD slot.val = true ↔
    held = some slot ∨ ∃ r ∈ pr.iobhd, (pr.ioreq r).slot = slot
  apart : ∀ slot, held = some slot → ∀ r ∈ pr.iobhd, (pr.ioreq r).slot ≠ slot

section Slots
variable {pr : Port} {held : Option Slot} {r : Nat} {rest : List Nat} {aior : Ioreq} {slot : Slot}

theorem SlotsInv.nodup (hi : SlotsInv pr held) : (pr.iofhd ++ pr.iobhd).Nodup :=
  hi.partition.nodup_iff.mpr List.nodup_range

/-- There are no more busy requests than slots. -/
theorem SlotsInv.busy_le (hi : SlotsInv pr held) : pr.iobhd.length ≤ 32 := by
  have hcard := List.Nodup.length_le_card hi.distinct
  simpa using hcard

theorem SlotsInv.free_ne_nil (hi : SlotsInv pr held) : pr.iofhd ≠ [] := by
  intro hnil
  have hlen := hi.partition.length_eq
  rw [hnil, List.nil_append, List.length_range] at hlen
  have hle := hi.busy_le
  rw [hlen] at hle
  exact absurd hle (by decide)

/-- A request from the free list is not busy. -/
theorem SlotsInv.not_busy (hi : SlotsInv pr held) (hfree : pr.iofhd = r :: rest) : r ∉ pr.iobhd := by
  intro hbusy
  have hdis := (List.nodup_append.mp hi.nodup).2.2
  exact hdis r (by rw [hfree]; exact List.mem_cons_self) r hbusy rfl

/-- Handing over a request for a slot that is held, or for one that was not in flight. -/
theorem SlotsInv.submitted (hi : SlotsInv pr held) (hfree : pr.iofhd = r :: rest) (hslot : aior.slot = slot)
    (hheld : held = some slot ∨ held = none ∧ pr.pending.getLsbD slot.val = false) :
    SlotsInv (pr.submitted r rest aior) none := by
  have hr := hi.not_busy hfree
  have hother : ∀ q ∈ pr.iobhd, (Function.update pr.ioreq r aior q) = pr.ioreq q := by
    intro q hq
    refine Function.update_of_ne ?_ aior pr.ioreq
    rintro rfl
    exact hr hq
  have hnew : ∀ q ∈ pr.iobhd, (pr.ioreq q).slot ≠ slot := by
    rcases hheld with hsome | ⟨-, hclear⟩
    · exact hi.apart slot hsome
    · intro q hq heq
      have hset := (hi.pending slot).mpr (.inr ⟨q, hq, heq⟩)
      rw [hclear] at hset
      cases hset
  have hmap : pr.iobhd.map (fun q => (Function.update pr.ioreq r aior q).slot) =
      pr.iobhd.map fun q => (pr.ioreq q).slot :=
    List.map_congr_left fun q hq => by rw [hother q hq]
  refine ⟨?_, ?_, fun k => ?_, nofun⟩
  · show (rest ++ r :: pr.iobhd).Perm _
    refine List.perm_middle.trans ?_
    rw [← List.cons_append, ← hfree]
    exact hi.partition
  · show ((r :: pr.iobhd).map fun q => (Function.update pr.ioreq r aior q).slot).Nodup
    rw [List.map_cons, hmap, Function.update_self, hslot]
    refine List.nodup_cons.mpr ⟨fun hmem => ?_, hi.distinct⟩
    obtain ⟨q, hq, heq⟩ := List.mem_map.mp hmem
    exact hnew q hq heq
  · show (WordSet.set aior.slot.val pr.pending).getLsbD k.val = true ↔ none = some k ∨
      ∃ q ∈ r :: pr.iobhd, (Function.update pr.ioreq r aior q).slot = k
    rw [WordSet.getLsbD_set aior.slot.isLt, hslot, Bool.or_eq_true, hi.pending k, decide_eq_true_eq]
    constructor
    · rintro ((hsome | ⟨q, hq, heq⟩) | hk)
      · refine .inr ⟨r, List.mem_cons_self, ?_⟩
        rw [Function.update_self, hslot]
        rcases hheld with hheld | ⟨hheld, -⟩
        · exact Option.some.inj (hheld.symm.trans hsome)
        · rw [hheld] at hsome
          cases hsome
      · exact .inr ⟨q, List.mem_cons_of_mem r hq, by rw [hother q hq, heq]⟩
      · exact .inr ⟨r, List.mem_cons_self, by rw [Function.update_self, hslot]; exact (Fin.ext hk).symm⟩
    · rintro (hno | ⟨q, hq, heq⟩)
      · cases hno
      · rcases List.mem_cons.mp hq with rfl | hq
        · rw [Function.update_self, hslot] at heq
          exact .inr (congrArg Fin.val heq.symm)
        · rw [hother q hq] at heq
          exact .inl (.inr ⟨q, hq, heq⟩)

/-- Taking a request off the busy list leaves the other busy slots. -/
theorem SlotsInv.erased (hi : SlotsInv pr none) (hbusy : r ∈ pr.iobhd) :
    (pr.iofhd ++ [r] ++ pr.iobhd.erase r).Perm (List.range ioqsz) ∧
      ((pr.iobhd.erase r).map fun q => (pr.ioreq q).slot).Nodup ∧
      ∀ k, (∃ q ∈ pr.iobhd.erase r, (pr.ioreq q).slot = k) ↔
        k ≠ (pr.ioreq r).slot ∧ ∃ q ∈ pr.iobhd, (pr.ioreq q).slot = k := by
  have hnodup := (List.nodup_append.mp hi.nodup).2.1
  refine ⟨?_, hi.distinct.sublist (List.erase_sublist.map _), fun k => ?_⟩
  · rw [List.append_assoc, List.singleton_append]
    exact ((List.perm_cons_erase hbusy).symm.append_left _).trans hi.partition
  · constructor
    · rintro ⟨q, hq, rfl⟩
      obtain ⟨hne, hq⟩ := (List.Nodup.mem_erase_iff hnodup).mp hq
      refine ⟨fun heq => hne ?_, q, hq, rfl⟩
      exact List.inj_on_of_nodup_map hi.distinct hq hbusy heq
    · rintro ⟨hne, q, hq, rfl⟩
      refine ⟨q, (List.Nodup.mem_erase_iff hnodup).mpr ⟨?_, hq⟩, rfl⟩
      rintro rfl
      exact hne rfl

/-- A callback begins, and its slot is held. -/
theorem SlotsInv.freed (hi : SlotsInv pr none) (hbusy : r ∈ pr.iobhd) :
    SlotsInv { pr with iobhd := pr.iobhd.erase r, iofhd := pr.iofhd ++ [r] } (some (pr.ioreq r).slot) := by
  obtain ⟨hpart, hdistinct, hslots⟩ := hi.erased hbusy
  refine ⟨hpart, hdistinct, fun k => ?_, ?_⟩
  · rw [hi.pending k]
    show _ ↔ some (pr.ioreq r).slot = some k ∨ ∃ q ∈ pr.iobhd.erase r, (pr.ioreq q).slot = k
    rw [hslots k]
    constructor
    · rintro (hno | hq)
      · cases hno
      · by_cases hk : k = (pr.ioreq r).slot
        · exact .inl (by rw [hk])
        · exact .inr ⟨hk, hq⟩
    · rintro (hk | ⟨-, hq⟩)
      · exact .inr ⟨r, hbusy, Option.some.inj hk⟩
      · exact .inr hq
  · intro k hk q hq heq
    cases hk
    exact ((hslots _).mp ⟨q, hq, heq⟩).1 rfl

/-- The held slot is let go of; so is one that was not in flight. -/
theorem SlotsInv.released (hi : SlotsInv pr held)
    (hheld : held = some slot ∨ held = none ∧ pr.pending.getLsbD slot.val = false) :
    SlotsInv { pr with pending := WordSet.clr slot.val pr.pending } none := by
  have hnone : ∀ q ∈ pr.iobhd, (pr.ioreq q).slot ≠ slot := by
    rcases hheld with hsome | ⟨-, hclear⟩
    · exact hi.apart slot hsome
    · intro q hq heq
      have hset := (hi.pending slot).mpr (.inr ⟨q, hq, heq⟩)
      rw [hclear] at hset
      cases hset
  refine ⟨hi.partition, hi.distinct, fun k => ?_, nofun⟩
  show (WordSet.clr slot.val pr.pending).getLsbD k.val = true ↔ _
  rw [WordSet.getLsbD_clr slot.isLt, Bool.and_eq_true, hi.pending k, decide_eq_true_eq]
  constructor
  · rintro ⟨hk | hq, hne⟩
    · rcases hheld with hheld | ⟨hheld, -⟩
      · rw [hheld] at hk
        exact absurd (congrArg Fin.val (Option.some.inj hk)).symm hne
      · rw [hheld] at hk
        cases hk
    · exact .inr hq
  · rintro (hno | ⟨q, hq, heq⟩)
    · cases hno
    · refine ⟨.inr ⟨q, hq, heq⟩, fun hk => hnone q hq ?_⟩
      rw [heq]
      exact Fin.ext hk

/-- A command is cancelled. -/
theorem SlotsInv.cancelled (hi : SlotsInv pr none) (hbusy : r ∈ pr.iobhd) (ncq : Bool) :
    SlotsInv (pr.cancelled r ncq) none := by
  have hrel := (hi.freed hbusy).released (.inl rfl)
  exact ⟨hrel.partition, hrel.distinct, hrel.pending, hrel.apart⟩

theorem SlotsInv.settled (hi : SlotsInv pr held) : SlotsInv pr.settled held := by
  unfold Port.settled
  split
  · exact ⟨hi.partition, hi.distinct, hi.pending, hi.apart⟩
  · exact hi

end Slots

/-! ## The requests along the effects of commands -/

/-- A port without a device has no requests, and its lists were never set up. -/
structure BareInv (pr : Port) : Prop where
  backed : pr.backed = false
  free : pr.iofhd = []
  busy : pr.iobhd = []
  pending : pr.pending = 0

/-- The requests of a port are in order, whether it has a device or not. -/
def Kept (pr : Port) (held : Option Slot) : Prop := pr.backed = true ∧ SlotsInv pr held ∨ BareInv pr

/-- What the requests of a port depend on is as before. -/
structure SameSlots (pr pr' : Port) : Prop where
  backed : pr'.backed = pr.backed
  free : pr'.iofhd = pr.iofhd
  busy : pr'.iobhd = pr.iobhd
  ioreq : pr'.ioreq = pr.ioreq
  pending : pr'.pending = pr.pending

/-- The slot may be taken: a callback holds it, or it is not in flight. -/
def Available (pr : Port) (held : Option Slot) (slot : Slot) : Prop :=
  held = some slot ∨ held = none ∧ pr.pending.getLsbD slot.val = false

/-- The elements in use change with the busy requests. -/
def Balanced (p : PortNo) (s t : State) : Prop :=
  t.used + (s.port p).iobhd.length = s.used + (t.port p).iobhd.length

section Kept
variable {h : Host} {p : PortNo} {slot : Slot} {cfis : Nat} {held : Option Slot} {pr pr' : Port} {s t u : State}

theorem SlotsInv.same (hi : SlotsInv pr held) (hs : SameSlots pr pr') : SlotsInv pr' held := by
  refine ⟨?_, ?_, fun k => ?_, fun k hk => ?_⟩
  · rw [hs.free, hs.busy]
    exact hi.partition
  · rw [hs.busy, hs.ioreq]
    exact hi.distinct
  · rw [hs.busy, hs.ioreq, hs.pending]
    exact hi.pending k
  · rw [hs.busy, hs.ioreq]
    exact hi.apart k hk

theorem BareInv.same (hi : BareInv pr) (hs : SameSlots pr pr') : BareInv pr' :=
  ⟨hs.backed.trans hi.backed, hs.free.trans hi.free, hs.busy.trans hi.busy, hs.pending.trans hi.pending⟩

theorem Kept.same (hk : Kept pr held) (hs : SameSlots pr pr') : Kept pr' held := by
  rcases hk with ⟨hback, hi⟩ | hb
  · exact .inl ⟨hs.backed.trans hback, hi.same hs⟩
  · exact .inr (hb.same hs)

theorem Available.same (ha : Available pr held slot) (hs : SameSlots pr pr') : Available pr' held slot := by
  unfold Available at ha ⊢
  rwa [hs.pending]

theorem SameSlots.balanced (hs : SameSlots (s.port p) (t.port p)) (hused : t.used = s.used) : Balanced p s t := by
  unfold Balanced
  rw [hs.busy, hused]

theorem Balanced.trans (h₁ : Balanced p s t) (h₂ : Balanced p t u) : Balanced p s u := by
  unfold Balanced at *
  omega

theorem Answered.sameSlots {failed : Bool} (ha : Answered h p slot failed s t) :
    SameSlots (s.port p) (t.port p) := by
  obtain ⟨x, errCfis, is, -, hport⟩ := ha.port
  rw [hport]
  exact ⟨rfl, rfl, rfl, rfl, rfl⟩

theorem Queued.sameSlots {failed : Bool} (hq : Queued h p slot failed s t) : SameSlots (s.port p) (t.port p) := by
  obtain ⟨x, errCfis, is, hport⟩ := hq.port
  rw [hport]
  exact ⟨rfl, rfl, rfl, rfl, rfl⟩

theorem Controlled.sameSlots (hc : Controlled h p slot s t) : SameSlots (s.port p) (t.port p) := by
  obtain ⟨x, reset, serr, sact, ssts, sig, -, hport⟩ := hc.port
  rw [hport]
  exact ⟨rfl, rfl, rfl, rfl, rfl⟩

theorem Calm.sameSlots (hc : Calm p s t) : SameSlots (s.port p) (t.port p) := by
  obtain ⟨x, rfl⟩ := hc
  rw [scribble_same]
  exact ⟨rfl, rfl, rfl, rfl, rfl⟩

theorem Submitted.kept {accepted : Bool} {aior : Ioreq} (hs : Submitted h p accepted aior s t)
    (hslot : aior.slot = slot) (hk : Kept (s.port p) held) (ha : Available (s.port p) held slot) :
    Kept (t.port p) none ∧ Balanced p s t := by
  obtain ⟨r, rest, x, hfree, hport⟩ := hs.port
  have hsame : SameSlots ((s.port p).submitted r rest aior) (t.port p) := by
    rw [hport]
    cases accepted <;> exact ⟨rfl, rfl, rfl, rfl, rfl⟩
  have hlen : (t.port p).iobhd.length = (s.port p).iobhd.length + 1 := by
    rw [hsame.busy]
    rfl
  rcases hk with ⟨hback, hi⟩ | hb
  · refine ⟨.inl ⟨hsame.backed.trans hback, (hi.submitted hfree hslot ha).same hsame⟩, ?_⟩
    unfold Balanced
    rw [hs.used, hlen]
    omega
  · rw [hb.free] at hfree
    cases hfree

theorem settled_sameSlots (pr : Port) : SameSlots pr pr.settled := by
  unfold Port.settled
  split
  · exact ⟨rfl, rfl, rfl, rfl, rfl⟩
  · exact ⟨rfl, rfl, rfl, rfl, rfl⟩

theorem Finished.kept (hk : Kept (s.port p) held) (ha : Available (s.port p) held slot)
    (hf : Finished h p slot s t) : Kept (t.port p) none ∧ Balanced p s t := by
  have hsame := settled_sameSlots { s.port p with pending := WordSet.clr slot.val (s.port p).pending }
  rw [← hf.port] at hsame
  have hbal : Balanced p s t := by
    unfold Balanced
    rw [hf.used, hsame.busy]
  rcases hk with ⟨hback, hi⟩ | hb
  · exact ⟨.inl ⟨hsame.backed.trans hback, (hi.released ha).same hsame⟩, hbal⟩
  · refine ⟨.inr ⟨hsame.backed.trans hb.backed, hsame.free.trans hb.free, hsame.busy.trans hb.busy, ?_⟩, hbal⟩
    refine hsame.pending.trans ?_
    show WordSet.clr slot.val (s.port p).pending = 0
    rw [hb.pending]
    exact BitVec.zero_and

theorem Trimmed.kept (hk : Kept (s.port p) held) (ha : Available (s.port p) held slot)
    (ht : Trimmed h p slot s t) : Kept (t.port p) none ∧ Balanced p s t := by
  obtain ⟨u, hans, hfin⟩ := ht.mid
  have hsame := hans.sameSlots
  obtain ⟨hkept, hbal⟩ := hfin.kept (hk.same hsame) (ha.same hsame)
  exact ⟨hkept, (hsame.balanced hans.used).trans hbal⟩

theorem ReadPrelude.sameSlots {c : Nat → UInt8} (hpre : ReadPrelude h p slot c s t) :
    SameSlots (s.port p) (t.port p) ∧ t.used = s.used := by
  unfold ReadPrelude at hpre
  split at hpre
  · exact ⟨hpre.sameSlots, hpre.used⟩
  · rw [hpre]
    exact ⟨⟨rfl, rfl, rfl, rfl, rfl⟩, rfl⟩

/-- A command that is not in flight is handled. -/
theorem Effect.kept {k : Kind} (hk : Kept (s.port p) none) (ha : Available (s.port p) none slot)
    (he : Effect h p slot cfis s t k) : Kept (t.port p) none ∧ Balanced p s t := by
  cases he with
  | answer hans => exact ⟨hk.same hans.sameSlots, hans.sameSlots.balanced hans.used⟩
  | rw _ hsub => exact hsub.kept rfl hk ha
  | flush hsub => exact hsub.kept rfl hk ha
  | trimmed htrim => exact htrim.kept hk ha
  | trim hsub => exact hsub.kept rfl hk ha
  | read hpre _ hsub =>
    obtain ⟨hsame, hused⟩ := hpre.sameSlots
    obtain ⟨hkept, hbal⟩ := hsub.kept rfl (hk.same hsame) (ha.same hsame)
    exact ⟨hkept, (hsame.balanced hused).trans hbal⟩

theorem issued_sameSlots (p : PortNo) (slot : Slot) (cmd : UInt8) (s : State) :
    SameSlots (s.port p) ((s.issued p slot cmd).port p) := by
  unfold State.issued
  rw [setPort_same]
  exact ⟨rfl, rfl, rfl, rfl, rfl⟩

theorem SlotDone.kept (hk : Kept (s.port p) none) (ha : Available (s.port p) none slot)
    (hd : SlotDone h p slot s t) : Kept (t.port p) none ∧ Balanced p s t := by
  cases hd with
  | ignored _ _ heq =>
    rw [heq]
    exact ⟨hk, rfl⟩
  | @command cfis _ _ _ heff =>
    have hsame := issued_sameSlots p slot (s.mem (cfis + 2)) s
    obtain ⟨hkept, hbal⟩ := heff.kept (hk.same hsame) (ha.same hsame)
    exact ⟨hkept, (hsame.balanced rfl).trans hbal⟩
  | control _ _ _ hctl => exact ⟨hk.same hctl.sameSlots, hctl.sameSlots.balanced hctl.used⟩

theorem TrimDone.kept {done : BitVec 32} {out : Option (BitVec 32 × Option (Nat × Nat))}
    (hk : Kept (s.port p) held) (ha : Available (s.port p) held slot)
    (ht : TrimDone h p slot cfis done s t out) : Kept (t.port p) none ∧ Balanced p s t := by
  rcases out with - | ⟨next, - | entry⟩
  · exact absurd ht id
  · exact Trimmed.kept hk ha ht
  · obtain ⟨r, hsub⟩ := ht
    exact hsub.kept rfl hk ha

/-- The rest of a command is begun under the slot the callback holds. -/
theorem continueCommand_kept {aior : Ioreq} {atapi : Bool} {c : Nat → UInt8} (hk : Kept (s.port p) held)
    (ha : Available (s.port p) held aior.slot) (hok : continueCommand h p aior atapi c s = .ok () t) :
    Kept (t.port p) none ∧ Balanced p s t := by
  unfold continueCommand at hok
  split at hok
  · obtain ⟨u, r, rest, hpre, -, hsub⟩ := atapiRead_ok hok
    obtain ⟨hsame, hused⟩ := hpre.sameSlots
    obtain ⟨hkept, hbal⟩ := hsub.kept rfl (hk.same hsame) (ha.same hsame)
    exact ⟨hkept, (hsame.balanced hused).trans hbal⟩
  · split at hok
    · obtain ⟨buf, -, htrim⟩ := dsmTrim_ok hok
      exact htrim.kept hk ha
    · obtain ⟨r, rest, -, hsub, -⟩ := handleRw_ok hok
      exact hsub.kept rfl hk ha

theorem Reported.sameSlots {ncq failed : Bool} (hr : Reported h p slot ncq failed s t) :
    SameSlots (s.port p) (t.port p) ∧ t.used = s.used := by
  cases hq : ncq with
  | true => exact ⟨(hr.queued hq).sameSlots, (hr.queued hq).used⟩
  | false => exact ⟨(hr.answered hq).sameSlots, (hr.answered hq).used⟩

/-- A callback, from where its request is free again. -/
theorem Called.kept {r : Nat} {err : Bool} (hk : Kept ((s.freed p r).port p) (some ((s.port p).ioreq r).slot))
    (hc : Called h p r err s t) : Kept (t.port p) none ∧ Balanced p (s.freed p r) t := by
  have hcalm := calm_counted p ((s.port p).ioreq r) err (s.freed p r)
  have hsame := hcalm.sameSlots
  have hbal := hsame.balanced hcalm.used
  cases hc with
  | continued _ hrun =>
    obtain ⟨hkept, hbal'⟩ := continueCommand_kept (hk.same hsame) (.inl rfl) hrun
    exact ⟨hkept, hbal.trans hbal'⟩
  | ended _ hrep hfin =>
    obtain ⟨hsame', hused⟩ := hrep.sameSlots
    obtain ⟨hkept, hbal'⟩ := hfin.kept ((hk.same hsame).same hsame') (.inl rfl)
    exact ⟨hkept, (hbal.trans (hsame'.balanced hused)).trans hbal'⟩

end Kept

/-! ## Stopping a port -/

section Stop
variable {h : Host} {p : PortNo} {s t : State}

/-- The loop of `ahci_port_stop` over requests that are all still busy. -/
theorem cancelRequests_slots {rs : List Nat} (hback : (s.port p).backed = true) (hi : SlotsInv (s.port p) none)
    (hused : (s.port p).iobhd.length ≤ s.used) (hnodup : rs.Nodup) (hbusy : ∀ r ∈ rs, r ∈ (s.port p).iobhd) (ncq : Bool) :
    Kept ((cancelRequests p rs ncq s).port p) none ∧ Balanced p s (cancelRequests p rs ncq s) := by
  induction rs generalizing s ncq with
  | nil => exact ⟨.inl ⟨hback, hi⟩, rfl⟩
  | cons r rs ih =>
    obtain ⟨hr, hrs⟩ := List.nodup_cons.mp hnodup
    have hmem : r ∈ (s.port p).iobhd := hbusy r List.mem_cons_self
    have hrest : ∀ q ∈ rs, q ∈ (s.port p).iobhd := fun q hq => hbusy q (List.mem_cons_of_mem r hq)
    unfold cancelRequests
    split
    · dsimp only
      generalize hncq : (ncq || isNcq (s.mem (((s.port p).ioreq r).cfis + 2))) = b
      have hport : ∀ used, ({ s.setPort p ((s.port p).cancelled r b) with used := used } : State).port p =
          (s.port p).cancelled r b := fun _ => setPort_same _
      have hlen : ((s.port p).iobhd.erase r).length = (s.port p).iobhd.length - 1 := List.length_erase_of_mem hmem
      have hpos : 0 < (s.port p).iobhd.length := List.length_pos_of_mem hmem
      have hstep := ih (s := { s.setPort p ((s.port p).cancelled r b) with used := s.used - 1 })
        (by rw [hport]; exact hback) (by rw [hport]; exact hi.cancelled hmem b)
        (by
          rw [hport]
          show ((s.port p).iobhd.erase r).length ≤ s.used - 1
          omega)
        hrs
        (by
          intro q hq
          rw [hport]
          refine (List.Nodup.mem_erase_iff (List.nodup_append.mp hi.nodup).2.1).mpr ⟨?_, hrest q hq⟩
          rintro rfl
          exact hr hq) b
      refine ⟨hstep.1, ?_⟩
      have hbal : Balanced p s { s.setPort p ((s.port p).cancelled r b) with used := s.used - 1 } := by
        unfold Balanced
        rw [hport]
        show s.used - 1 + _ = s.used + ((s.port p).iobhd.erase r).length
        omega
      exact hbal.trans hstep.2
    · exact ih hback hi hused hrs hrest ncq

theorem cancelRequests_kept (hk : Kept (s.port p) none)
    (hused : (s.port p).backed = true → (s.port p).iobhd.length ≤ s.used) :
    Kept ((cancelRequests p (s.port p).iobhd false s).port p) none ∧
      Balanced p s (cancelRequests p (s.port p).iobhd false s) := by
  rcases hk with ⟨hback, hi⟩ | hb
  · exact cancelRequests_slots hback hi (hused hback) (List.nodup_append.mp hi.nodup).2.1 (fun _ hq => hq) false
  · rw [hb.busy]
    exact ⟨.inr hb, rfl⟩

theorem stopped_kept (hk : Kept (s.port p) none)
    (hused : (s.port p).backed = true → (s.port p).iobhd.length ≤ s.used) :
    Kept ((s.stopped p).port p) none ∧ Balanced p s (s.stopped p) := by
  obtain ⟨hkept, hbal⟩ := cancelRequests_kept (s := s.noted p) (p := p) hk hused
  have hport : (s.stopped p).port p = ((cancelRequests p (s.port p).iobhd false (s.noted p)).port p).settled :=
    setPort_same _
  have hsame := settled_sameSlots ((cancelRequests p (s.port p).iobhd false (s.noted p)).port p)
  rw [← hport] at hsame
  exact ⟨hkept.same hsame, Balanced.trans (s := s) hbal (hsame.balanced rfl)⟩

theorem setPort_sameSlots {pr : Port} (hs : SameSlots (s.port p) pr) : SameSlots (s.port p) ((s.setPort p pr).port p) := by
  rwa [setPort_same]

theorem commanded_kept (value : BitVec 32) (hk : Kept (s.port p) none)
    (hused : (s.port p).backed = true → (s.port p).iobhd.length ≤ s.used) :
    Kept ((s.commanded h p value).port p) none ∧ Balanced p s (s.commanded h p value) := by
  have hcmd : SameSlots (s.port p) ((s.setPort p ((s.port p).withCmd value)).port p) :=
    setPort_sameSlots ⟨rfl, rfl, rfl, rfl, rfl⟩
  have hk' := hk.same hcmd
  have hbal := hcmd.balanced (s := s) (t := s.setPort p ((s.port p).withCmd value)) rfl
  generalize hu : s.setPort p ((s.port p).withCmd value) = u at hcmd hk' hbal
  have hused' : (u.port p).backed = true → (u.port p).iobhd.length ≤ u.used := by
    rw [hcmd.backed, hcmd.busy, ← hu]
    exact hused
  have hswitch : Kept ((u.switched h p value).port p) none ∧ Balanced p u (u.switched h p value) := by
    unfold State.switched
    split
    · exact stopped_kept hk' hused'
    · have hlaunch : SameSlots (u.port p) ((u.setPort p ((u.port p).launched h)).port p) :=
        setPort_sameSlots ⟨rfl, rfl, rfl, rfl, rfl⟩
      exact ⟨hk'.same hlaunch, hlaunch.balanced rfl⟩
  have hlast : SameSlots ((u.switched h p value).port p) ((s.commanded h p value).port p) := by
    unfold State.commanded
    rw [hu]
    obtain ⟨cmd, tfd, rfis, heq, -⟩ := freClo_eq h ((u.switched h p value).port p) value
    refine setPort_sameSlots ?_
    rw [heq]
    exact ⟨rfl, rfl, rfl, rfl, rfl⟩
  refine ⟨hswitch.1.same hlast, (hbal.trans hswitch.2).trans (hlast.balanced ?_)⟩
  unfold State.commanded
  rw [hu]
  rfl

theorem handled_sameSlots (p : PortNo) (s : State) : SameSlots (s.port p) ((s.handled p).port p) ∧ (s.handled p).used = s.used := by
  unfold State.handled
  split
  · exact ⟨⟨rfl, rfl, rfl, rfl, rfl⟩, rfl⟩
  · exact ⟨⟨rfl, rfl, rfl, rfl, rfl⟩, rfl⟩

theorem PortWritten.kept {value : BitVec 32} {reg : Option PortReg} (hw : PortWritten h p value s t reg)
    (hk : Kept (s.port p) none) (hused : (s.port p).backed = true → (s.port p).iobhd.length ≤ s.used) :
    Kept (t.port p) none ∧ Balanced p s t := by
  have hset : ∀ pr, SameSlots (s.port p) pr → Kept ((s.setPort p pr).port p) none ∧ Balanced p s (s.setPort p pr) :=
    fun _ hs => ⟨hk.same (setPort_sameSlots hs), (setPort_sameSlots hs).balanced rfl⟩
  cases hw with
  | plain _ _ _ _ _ _ _ heq =>
    rw [heq]
    exact hset _ ⟨rfl, rfl, rfl, rfl, rfl⟩
  | ie heq =>
    have hl := lined_evalIntr (s.setPort p { s.port p with ie := value &&& 0xFDC000FF }) h
    have hie := hset { s.port p with ie := value &&& 0xFDC000FF } ⟨rfl, rfl, rfl, rfl, rfl⟩
    rw [heq]
    unfold Balanced
    rw [hl.port, hl.used]
    exact hie
  | cmd heq =>
    obtain ⟨hkept, hbal⟩ := commanded_kept (h := h) value hk hused
    obtain ⟨hsame, hused'⟩ := handled_sameSlots p (s.commanded h p value)
    rw [heq]
    exact ⟨hkept.same hsame, hbal.trans (hsame.balanced hused')⟩
  | sctl _ hreset =>
    obtain ⟨x, ssts, sig, hport⟩ := hreset.port
    have hsame : SameSlots (s.port p) (t.port p) := by
      rw [hport, setPort_same]
      exact ⟨rfl, rfl, rfl, rfl, rfl⟩
    exact ⟨hk.same hsame, hsame.balanced hreset.used⟩
  | sact heq =>
    rw [heq]
    exact hset _ ⟨rfl, rfl, rfl, rfl, rfl⟩
  | ci heq =>
    obtain ⟨hkept, hbal⟩ := hset { s.port p with ci := (s.port p).ci ||| value } ⟨rfl, rfl, rfl, rfl, rfl⟩
    obtain ⟨hsame, hused'⟩ := handled_sameSlots p (s.setPort p { s.port p with ci := (s.port p).ci ||| value })
    rw [heq]
    exact ⟨hkept.same hsame, hbal.trans (hsame.balanced hused')⟩

end Stop

/-! ## The controller -/

/-- Only port 0 has requests, and every element in use has one, or is with the worker behind its callback. -/
structure SlotsState (s : State) (held : Option Slot) : Prop where
  backed : (s.port 0).backed = true
  slots : SlotsInv (s.port 0) held
  bare : ∀ q, q ≠ 0 → BareInv (s.port q)
  used : s.used = (s.port 0).iobhd.length + if s.finishing then 1 else 0

section State
variable {h : Host} {p : PortNo} {held : Option Slot} {s t : State}

theorem SlotsState.kept (hi : SlotsState s held) (p : PortNo) : Kept (s.port p) held := by
  by_cases hp : p = 0
  · subst hp
    exact .inl ⟨hi.backed, hi.slots⟩
  · exact .inr (hi.bare p hp)

/-- The elements in use are enough for the busy requests. -/
theorem SlotsState.enough (hi : SlotsState s held) (p : PortNo) (hback : (s.port p).backed = true) :
    (s.port p).iobhd.length ≤ s.used := by
  by_cases hp : p = 0
  · subst hp
    have hused := hi.used
    omega
  · rw [(hi.bare p hp).backed] at hback
    cases hback

/-- A change of one port. -/
theorem SlotsState.change {held' : Option Slot} (hi : SlotsState s held) (hothers : ∀ q, q ≠ p → t.port q = s.port q)
    (hback : (t.port p).backed = (s.port p).backed) (hfin : t.finishing = s.finishing) (hk : Kept (t.port p) held')
    (hbal : Balanced p s t) (hheld : p = 0 ∨ held' = held) : SlotsState t held' := by
  unfold Balanced at hbal
  have hused := hi.used
  by_cases hp : p = 0
  · subst hp
    have hback' : (t.port 0).backed = true := hback.trans hi.backed
    have hslots : SlotsInv (t.port 0) held' := by
      rcases hk with ⟨-, hs⟩ | hb
      · exact hs
      · rw [hb.backed] at hback'
        cases hback'
    refine ⟨hback', hslots, fun q hq => hothers q hq ▸ hi.bare q hq, ?_⟩
    rw [hfin]
    omega
  · have hb := hi.bare p hp
    have hzero : t.port 0 = s.port 0 := hothers 0 (Ne.symm hp)
    have hb' : BareInv (t.port p) := by
      rcases hk with ⟨hbacked, -⟩ | hb'
      · rw [hback, hb.backed] at hbacked
        cases hbacked
      · exact hb'
    have hh : held' = held := hheld.resolve_left hp
    refine ⟨hzero ▸ hi.backed, hh ▸ hzero ▸ hi.slots, fun q hq => ?_, ?_⟩
    · by_cases hqp : q = p
      · subst hqp
        exact hb'
      · rw [hothers q hqp]
        exact hi.bare q hq
    · rw [hb.busy, hb'.busy] at hbal
      rw [hzero, hfin, ← hused]
      simpa using hbal

theorem PortWritten.others {value : BitVec 32} {reg : Option PortReg} (hw : PortWritten h p value s t reg) :
    (∀ q, q ≠ p → t.port q = s.port q) ∧ (t.port p).backed = (s.port p).backed ∧ t.finishing = s.finishing := by
  obtain ⟨u, hwrote, heq | heq⟩ := hw.wrote
  · rw [heq]
    exact ⟨hwrote.others, hwrote.backed, hwrote.finishing⟩
  · have ht := touch_handlePort h p u
    rw [heq]
    exact ⟨fun q hq => (ht.others q hq).trans (hwrote.others q hq), ht.backed.trans hwrote.backed,
      ht.finishing.trans hwrote.finishing⟩

theorem SlotsState.touch {held' : Option Slot} (hi : SlotsState s held) (ht : Touch h p s t)
    (hk : Kept (t.port p) held') (hbal : Balanced p s t) (hheld : p = 0 ∨ held' = held) : SlotsState t held' :=
  hi.change ht.others ht.backed ht.finishing hk hbal hheld

/-- Nothing of interest has changed. -/
theorem SlotsState.same (hi : SlotsState s held) (hport : t.port = s.port) (hused : t.used = s.used)
    (hfin : t.finishing = s.finishing) : SlotsState t held := by
  refine ⟨?_, ?_, fun q hq => ?_, ?_⟩
  · rw [hport]
    exact hi.backed
  · rw [hport]
    exact hi.slots
  · rw [hport]
    exact hi.bare q hq
  · rw [hport, hused, hfin]
    exact hi.used

theorem SlotsState.reset (hi : SlotsState s held) (hr : HbaReset s t) : SlotsState t held := by
  have hsame : ∀ q, SameSlots (s.port q) (t.port q) := by
    intro q
    obtain ⟨x, ssts, sig, hport⟩ := hr.port q
    rw [hport]
    exact ⟨rfl, rfl, rfl, rfl, rfl⟩
  refine ⟨(hsame 0).backed.trans hi.backed, hi.slots.same (hsame 0), fun q hq => (hi.bare q hq).same (hsame q), ?_⟩
  rw [hr.used, hr.finishing, (hsame 0).busy]
  exact hi.used

theorem SlotsState.turned (hi : SlotsState s none) (ht : Turned h p s t) : SlotsState t none := by
  have hset : ∀ {s : State} {pr : Port}, SlotsState s none → SameSlots (s.port p) pr → pr.backed = (s.port p).backed →
      SlotsState (s.setPort p pr) none := by
    intro s pr hi hs hback
    refine hi.change (p := p) (fun q hq => setPort_ne pr hq) ?_ rfl ?_ ((setPort_sameSlots hs).balanced rfl) (.inr rfl)
    · rw [setPort_same, hback]
    · exact (hi.kept p).same (setPort_sameSlots hs)
  cases ht with
  | ended _ heq => exact hi.same (heq ▸ rfl) (heq ▸ rfl) (heq ▸ rfl)
  | passed _ _ heq =>
    rw [heq]
    exact hset hi ⟨rfl, rfl, rfl, rfl, rfl⟩ rfl
  | looked hidle hdue hslot heq =>
    rw [heq]
    have hat : SlotsState (s.atSlot p) none := hset hi ⟨rfl, rfl, rfl, rfl, rfl⟩ rfl
    have hnoted : SlotsState ((s.atSlot p).noted p) none := hat.same rfl rfl rfl
    have hfresh : ((s.atSlot p).port p).pending.getLsbD (s.port p).ccs.val = false := by
      unfold State.atSlot
      rw [setPort_same]
      unfold Port.due Port.fresh at hdue
      rw [BitVec.getLsbD_and, Bool.and_eq_true, BitVec.getLsbD_not, Bool.and_eq_true] at hdue
      show (s.port p).pending.getLsbD _ = false
      simpa using hdue.2.2
    obtain ⟨hkept, hbal⟩ := hslot.kept (hnoted.kept p) (.inr ⟨rfl, hfresh⟩)
    have hu := hnoted.touch hslot.touch hkept hbal (.inr rfl)
    exact hset hu ⟨rfl, rfl, rfl, rfl, rfl⟩ rfl

/-- A callback of port 0 holds the slot of its request. -/
theorem SlotsState.freed {r : Nat} (hi : SlotsState s none) (hbusy : r ∈ (s.port 0).iobhd) (hfin : s.finishing = false) :
    SlotsState (s.freed 0 r) (some ((s.port 0).ioreq r).slot) := by
  have hport : (s.freed 0 r).port 0 =
      { s.port 0 with iobhd := (s.port 0).iobhd.erase r, iofhd := (s.port 0).iofhd ++ [r] } := freed_port s 0 r
  have hused := hi.used
  rw [hfin] at hused
  refine ⟨?_, ?_, fun q hq => ?_, ?_⟩
  · rw [hport]
    exact hi.backed
  · rw [hport]
    exact hi.slots.freed hbusy
  · have hother : (s.freed 0 r).port q = s.port q := setPort_ne _ hq
    rw [hother]
    exact hi.bare q hq
  · have hlen : ((s.port 0).iobhd.erase r).length = (s.port 0).iobhd.length - 1 := List.length_erase_of_mem hbusy
    have hpos : 0 < (s.port 0).iobhd.length := List.length_pos_of_mem hbusy
    rw [hport]
    show s.used = ((s.port 0).iobhd.erase r).length + 1
    simp only [Bool.false_eq_true, if_false] at hused
    omega

theorem SlotsState.busy_port {r : Nat} (hi : SlotsState s held) (hbusy : r ∈ (s.port p).iobhd) : p = 0 := by
  by_contra hp
  rw [(hi.bare p hp).busy] at hbusy
  cases hbusy

theorem SlotsState.step {op : Op} (hi : SlotsState s none) (hs : next h s op = some t) : SlotsState t none := by
  have hbegun : SlotsState s.begun none := hi.same rfl rfl rfl
  cases next_cases hs with
  | surroundings heq => exact hi.same (heq ▸ rfl) (heq ▸ rfl) (heq ▸ rfl)
  | hostWrite _ _ hw =>
    cases hw with
    | reset _ _ hreset => exact hbegun.reset hreset
    | enable _ _ _ heq =>
      have hl := lined_evalIntr { s.begun with ghc := s.begun.ghc ||| ahciGhcIe } h
      rw [heq]
      exact hbegun.same hl.port hl.used hl.finishing
    | @status _ heq =>
      have hl := fun value : BitVec 32 => lined_evalIntr { s.begun with is := s.begun.is &&& ~~~value } h
      rw [heq]
      exact hbegun.same (hl _).port (hl _).used (hl _).finishing
    | nothing _ heq =>
      rw [heq]
      exact hbegun
  | portWrite _ _ _ hw =>
    obtain ⟨hothers, hback, hfin⟩ := hw.others
    obtain ⟨hkept, hbal⟩ := hw.kept (hbegun.kept _) (hbegun.enough _)
    exact hbegun.change hothers hback hfin hkept hbal (.inr rfl)
  | noWrite _ heq =>
    rw [heq]
    exact hbegun
  | read heq =>
    rw [heq]
    exact hi
  | turn _ hturn => exact hi.turned hturn
  | callback _ hidle hbusy hcall =>
    obtain rfl := hi.busy_port hbusy
    have hfreed := hbegun.freed hbusy hidle
    obtain ⟨hkept, hbal⟩ := hcall.kept (hfreed.kept 0)
    exact hfreed.touch hcall.touch hkept hbal (.inl rfl)
  | release hat heq =>
    have hused := hi.used
    rw [hat] at hused
    rw [heq]
    refine ⟨hi.backed, hi.slots, hi.bare, ?_⟩
    show s.used - 1 = _
    rw [hused]
    rfl

theorem slotsState_zero (atapi : Bool) (mem : Mem) : SlotsState (zeroState atapi mem) none := by
  have hzero : (zeroState atapi mem).port 0 = backedPort atapi := rfl
  refine ⟨rfl, ?_, fun q hq => ?_, rfl⟩
  · rw [hzero]
    refine ⟨List.Perm.refl _, List.nodup_nil, fun k => ?_, nofun⟩
    show (0#32).getLsbD k.val = true ↔ none = some k ∨ ∃ r ∈ ([] : List Nat), _
    simp
  · have hq' : (zeroState atapi mem).port q = zeroPort := by simp [zeroState, hq]
    rw [hq']
    exact ⟨rfl, rfl, rfl, rfl⟩

theorem slots_inductive (h : Host) : (system h).Inductive fun s => SlotsState s none where
  init s hs := by
    obtain ⟨atapi, mem, u, hreset⟩ := hs
    exact (slotsState_zero atapi mem).reset (reset_ok hreset)
  step _ _ _ hi hs := hi.step hs

/-- There is a request for every command, and an element of the block interface for every request. -/
theorem SlotsState.no_stop {e : Stop} (hi : SlotsState s held) (hstop : SubmitStop 0 s e) :
    e ≠ .noRequest ∧ e ≠ .blockErr := by
  have hle := hi.slots.busy_le
  have hused : s.used ≤ 33 := by
    rw [hi.used]
    split <;> omega
  rcases hstop with (hnull | ⟨hun, -⟩) | ⟨-, hnil⟩ | ⟨-, hfull⟩
  · rw [hnull]
    exact ⟨nofun, nofun⟩
  · rw [hun]
    exact ⟨nofun, nofun⟩
  · exact absurd hnil hi.slots.free_ne_nil
  · have hmax : blockifMaxreq = 65 := rfl
    omega

theorem SlotsState.halted {op : Op} {e : Stop} (hi : SlotsState s none) (hh : Halted h s e op)
    (hat : s.handling = none ∨ s.handling = some 0) : e ≠ .noRequest ∧ e ≠ .blockErr := by
  have hharmless : ∀ {pr : Port} {e}, Harmless pr e → e ≠ .noRequest ∧ e ≠ .blockErr := by
    rintro pr e (rfl | ⟨rfl, -⟩)
    · exact ⟨nofun, nofun⟩
    · exact ⟨nofun, nofun⟩
  have hother : ∀ {e : Stop}, e = .overread ∨ e = .noData → e ≠ .noRequest ∧ e ≠ .blockErr := by
    rintro e (rfl | rfl)
    · exact ⟨nofun, nofun⟩
    · exact ⟨nofun, nofun⟩
  cases hh with
  | write hstop =>
    rcases hstop with ⟨rfl, -⟩ | ⟨q, hq⟩
    · exact ⟨nofun, nofun⟩
    · exact hharmless hq
  | read hacc _ =>
    rw [hacc]
    exact ⟨nofun, nofun⟩
  | turn hat' hidle hdue hslot =>
    have hp : some 0 = s.handling := by
      rcases hat with hnone | hzero
      · rw [hnone] at hat'
        cases hat'
      · exact hzero.symm
    obtain rfl := Option.some.inj (hp.trans hat')
    have hatSlot : SlotsState (s.atSlot 0) none := by
      refine hi.touch (touch_atSlot h 0 s) ((hi.kept 0).same ?_) ?_ (.inr rfl)
      · exact setPort_sameSlots ⟨rfl, rfl, rfl, rfl, rfl⟩
      · exact SameSlots.balanced (setPort_sameSlots ⟨rfl, rfl, rfl, rfl, rfl⟩) rfl
    rcases handleSlot_stop hslot with hstop | hover | ⟨hdata, -⟩
    · exact hatSlot.no_stop hstop
    · exact hother (.inl hover)
    · exact hother (.inr hdata)
  | @callback p r err _ _ hidle hbusy hstop =>
    obtain rfl := hi.busy_port hbusy
    rcases hstop with hh | ⟨-, hrun⟩
    · exact hharmless hh
    · have hbegun : SlotsState s.begun none := hi.same rfl rfl rfl
      have hfreed := hbegun.freed hbusy hidle
      rcases continueCommand_stop hrun with hstop | hover | ⟨hdata, -⟩
      · have hcalm := calm_counted 0 ((s.port 0).ioreq r) err (s.begun.freed 0 r)
        have hcounted := hfreed.touch (hcalm.touch (h := h)) ((hfreed.kept 0).same hcalm.sameSlots)
          (hcalm.sameSlots.balanced hcalm.used) (.inl rfl)
        exact hcounted.no_stop hstop
      · exact hother (.inl hover)
      · exact hother (.inr hdata)

end State

/-! ## Slot accounting -/

/-- The block interface's side of it: a request is refused exactly if as many elements as there are have one. -/
theorem refused_iff_all_used {bc : BlockIf.BlockifCtxt} {req : BlockIf.Requests} (hq : BlockIf.QueueInv bc req) :
    bc.bcFreeq = [] ↔ blockifMaxreq ≤ bc.bcPendq.length + bc.bcBusyq.length := by
  have hlen := hq.once.length_eq
  have hmax : BlockIf.blockifMaxreq = blockifMaxreq := rfl
  rw [List.length_append, List.length_append, List.length_range, hmax] at hlen
  rw [← List.length_eq_zero_iff]
  omega

/-- The accounts of the port with the device. -/
structure SlotsSound (pr : Port) : Prop where
  partition : (pr.iofhd ++ pr.iobhd).Perm (List.range ioqsz)
  distinct : (pr.iobhd.map fun r => (pr.ioreq r).slot).Nodup
  pending : ∀ slot : Slot, pr.pending.getLsbD slot.val = true ↔ ∃ r ∈ pr.iobhd, (pr.ioreq r).slot = slot
  inUse : pr.iobhd.length ≤ 32

/-- In every state the requests of the port with the device are accounted for, and whatever is done next, it never
lacks a request or an element of the block interface. -/
theorem slots_accounted {h : Host} {s : State} (hr : (system h).Reachable s) :
    (s.port 0).backed = true ∧ SlotsSound (s.port 0) ∧
      ∀ op e t, admissible s op = true → (s.handling = none ∨ s.handling = some 0) →
        perform h op s = .error e t → e ≠ .noRequest ∧ e ≠ .blockErr := by
  have hi := (slots_inductive h).reachable hr
  refine ⟨hi.backed, ⟨hi.slots.partition, hi.slots.distinct, fun k => ?_, hi.slots.busy_le⟩, fun op e t hadm hat herr => ?_⟩
  · rw [hi.slots.pending k]
    simp
  · exact hi.halted (perform_stop hadm herr) hat

/-- A command list whose first entry is its own command table, which holds a flush. -/
def flushMem : Mem := fun a => if a = 0 then 0x27 else if a = 1 then 0x80 else if a = 2 then 0xe7 else 0

/-- Port 0 is started and the flush issued. -/
def flushRun : List Op := [.write 0x118 4 0x11, .turn, .write 0x138 4 0x1, .turn, .turn]

/-- The flush has the first request, under slot 0. -/
theorem slots_accounted_flush : ∃ s, (system flatHost).Reachable s ∧ (s.port 0).iobhd = [0] ∧
    (s.port 0).pending = 1 ∧ SlotsSound (s.port 0) := by
  have hrun : (System.exec (next flatHost) (startState flatHost false flushMem) flushRun).map
      (fun s => ((s.port 0).iobhd, (s.port 0).pending)) = some ([0], 1) := by decide +kernel
  obtain ⟨s, hs, hboth⟩ := Option.map_eq_some_iff.mp hrun
  obtain ⟨hbusy, hpending⟩ := Prod.mk.inj hboth
  have hr : (system flatHost).Reachable s :=
    System.exec_reachable (.init (startState_init flatHost false flushMem)) hs
  exact ⟨s, hr, hbusy, hpending, (slots_accounted hr).2.1⟩

end Xhyve.Emul.Ahci
