import Xhyve.Lib.BitWords
import Xhyve.Vmm.LapicDest

/-!
# Destinations resolve as their format says

The loop of `vlapic_calcdest` collects the active vCPUs whose registers match, or the first of
them; a physical destination below 2^31 is a vCPU's id or nobody's. The senders hand the
interrupt to the members of the set they get.
-/

namespace Xhyve.Vmm.LapicDest

open Xhyve.Lib
open Xhyve.Vmm.Ioapic (Intr intrOf)

/-! ## Logical destinations -/

theorem Configured.x2apic_eq {vcpuid : Nat} {x2apic : Bool} {r : DestRegs}
    (h : Configured vcpuid x2apic r) : r.x2apic = x2apic := by
  induction h with
  | set => cases x2apic <;> rfl
  | ldr data _ ih =>
    unfold vlapicLdrWriteHandler
    split <;> exact ih
  | dfr data _ ih =>
    unfold vlapicDfrWriteHandler
    split <;> exact ih

/-- In x2APIC mode the guest cannot leave the cluster model. -/
theorem Configured.dfr_eq {vcpuid : Nat} {r : DestRegs} (h : Configured vcpuid true r) :
    r.dfr = 0 := by
  induction h with
  | set => rfl
  | ldr data _ ih =>
    unfold vlapicLdrWriteHandler
    split <;> exact ih
  | dfr data hr ih =>
    unfold vlapicDfrWriteHandler
    rw [if_pos hr.x2apic_eq]

theorem dfrModel_eq (dfr : BitVec 32) {v : Nat} (hv : v < 16) :
    dfr &&& dfrModelMask = BitVec.ofNat 32 (v * 2 ^ 28) ↔ dfr.toNat / 2 ^ 28 = v := by
  have hmask : dfrModelMask.toNat = (2 ^ 4 - 1) <<< 28 := by decide
  have hlt := dfr.isLt
  rw [← BitVec.toNat_inj, BitVec.toNat_and, hmask, and_mask_eq, BitVec.toNat_ofNat]
  omega

/-- The bits of two fields, each masked to its low `n` bits. -/
theorem field_common (n shift : Nat) (hn : n ≤ 32) (ldr dest : BitVec 32) :
    (dest &&& BitVec.ofNat 32 (2 ^ n - 1)) &&& (ldr >>> shift) ≠ 0 ↔
      commonBit n shift ldr dest := by
  rw [and_ne_zero_iff]
  constructor
  · intro ⟨i, hd, hl⟩
    rw [BitVec.getLsbD_and, getLsbD_lowMask] at hd
    rw [BitVec.getLsbD_ushiftRight] at hl
    simp only [Bool.and_eq_true, decide_eq_true_eq] at hd
    exact ⟨i, hd.2.2, hl, hd.1⟩
  · intro ⟨i, hi, hl, hd⟩
    refine ⟨i, ?_, ?_⟩
    · rw [BitVec.getLsbD_and, getLsbD_lowMask, hd, decide_eq_true hi,
        decide_eq_true (Nat.lt_of_lt_of_le hi hn)]
      rfl
    · rw [BitVec.getLsbD_ushiftRight]
      exact hl

theorem and_and_self (x y m : BitVec 32) : (x &&& m) &&& (y &&& m) = (x &&& m) &&& y := by
  rw [BitVec.and_comm y m, ← BitVec.and_assoc, BitVec.and_assoc x m m, BitVec.and_self]

theorem xapicCluster_eq (ldr dest : BitVec 32) (hd : dest.toNat < 256) :
    ldr >>> 28 = (dest >>> 4) &&& 0xf ↔ ldr.toNat / 2 ^ 28 = dest.toNat / 2 ^ 4 := by
  have hmask : (0xf : BitVec 32).toNat = 2 ^ 4 - 1 := by decide
  rw [← BitVec.toNat_inj, BitVec.toNat_and, BitVec.toNat_ushiftRight, BitVec.toNat_ushiftRight, hmask,
    Nat.and_two_pow_sub_one_eq_mod, Nat.shiftRight_eq_div_pow, Nat.shiftRight_eq_div_pow]
  omega

theorem x2apicCluster_eq (ldr dest : BitVec 32) :
    ldr >>> 16 = dest >>> 16 ↔ ldr.toNat / 2 ^ 16 = dest.toNat / 2 ^ 16 := by
  rw [← BitVec.toNat_inj, BitVec.toNat_ushiftRight, BitVec.toNat_ushiftRight,
    Nat.shiftRight_eq_div_pow, Nat.shiftRight_eq_div_pow]

/-- The tests of `vlapic_calcdest` are those of the format, where the destination is given in the
format of the APIC's mode. -/
theorem logicalMatch_iff {vcpuid : Nat} {x2apic : Bool} {r : DestRegs}
    (h : Configured vcpuid x2apic r) (dest : BitVec 32) (hd : x2apic = false → dest.toNat < 256) :
    logicalMatch r dest x2apic = true ↔ Matches r dest := by
  have hx := h.x2apic_eq
  have hflat : r.dfr &&& dfrModelMask = dfrModelFlat ↔ flatModel r :=
    dfrModel_eq r.dfr (v := 15) (by decide)
  have hcluster : r.dfr &&& dfrModelMask = dfrModelCluster ↔ clusterModel r :=
    dfrModel_eq r.dfr (v := 0) (by decide)
  unfold logicalMatch Matches
  simp only [hx]
  by_cases hf : flatModel r
  · have hnc : ¬ clusterModel r := by
      unfold flatModel at hf
      unfold clusterModel
      omega
    rw [if_pos (hflat.mpr hf), decide_eq_true_iff]
    simp only [hf, hnc, true_and, false_and, or_false]
    exact field_common 8 24 (by decide) r.ldr dest
  · rw [if_neg (mt hflat.mp hf)]
    simp only [hf, false_and, false_or]
    by_cases hc : clusterModel r
    · rw [if_pos (hcluster.mpr hc)]
      simp only [hc, true_and]
      cases x2apic with
      | false =>
        simp only [Bool.false_eq_true, if_false]
        by_cases hid : r.ldr.toNat / 2 ^ 28 = dest.toNat / 2 ^ 4
        · rw [if_neg (not_not.mpr ((xapicCluster_eq r.ldr dest (hd rfl)).mpr hid)),
            decide_eq_true_iff, and_and_self]
          exact ⟨fun hb => ⟨hid, (field_common 4 24 (by decide) r.ldr dest).mp hb⟩,
            fun hb => (field_common 4 24 (by decide) r.ldr dest).mpr hb.2⟩
        · rw [if_pos (mt (xapicCluster_eq r.ldr dest (hd rfl)).mp hid)]
          exact iff_of_false Bool.false_ne_true fun hb => hid hb.1
      | true =>
        simp only [if_true]
        have hbits := field_common 16 0 (by decide) r.ldr dest
        rw [BitVec.ushiftRight_zero] at hbits
        by_cases hid : r.ldr.toNat / 2 ^ 16 = dest.toNat / 2 ^ 16
        · rw [if_neg (not_not.mpr ((x2apicCluster_eq r.ldr dest).mpr hid)),
            decide_eq_true_iff, and_and_self]
          exact ⟨fun hb => ⟨hid, hbits.mp hb⟩, fun hb => hbits.mpr hb.2⟩
        · rw [if_pos (mt (x2apicCluster_eq r.ldr dest).mp hid)]
          exact iff_of_false Bool.false_ne_true fun hb => hid hb.1
    · rw [if_neg (mt hcluster.mp hc)]
      exact iff_of_false Bool.false_ne_true fun hb => hc hb.1

/-! ## The set `vlapic_calcdest` computes -/

theorem logicalLoop_all (hit : Nat → Bool) {l : List Nat} (hl : ∀ i ∈ l, i < 64) (dmask : Cpuset)
    (i : Nat) :
    (logicalLoop hit false l dmask).getLsbD i =
      (dmask.getLsbD i || (decide (i ∈ l) && hit i)) := by
  induction l generalizing dmask with
  | nil => simp [logicalLoop]
  | cons j rest ih =>
    have hrest := ih fun k hk => hl k (List.mem_cons_of_mem j hk)
    unfold logicalLoop
    cases hj : hit j with
    | false =>
      simp only [Bool.false_eq_true, if_false, hrest]
      by_cases hij : i = j
      · subst hij
        simp [hj]
      · simp [hij]
    | true =>
      simp only [if_true, Bool.false_eq_true, if_false, hrest,
        WordSet.getLsbD_set (hl j List.mem_cons_self)]
      by_cases hij : i = j
      · subst hij
        simp [hj]
      · simp [hij]

/-- For lowest priority the first match is the only one. -/
theorem logicalLoop_first (hit : Nat → Bool) (l : List Nat) :
    logicalLoop hit true l 0 = match l.find? hit with
      | some i => WordSet.set i 0
      | none => 0 := by
  induction l with
  | nil => rfl
  | cons j rest ih =>
    unfold logicalLoop
    rw [List.find?_cons]
    cases hj : hit j with
    | false =>
      simp only [Bool.false_eq_true, if_false]
      exact ih
    | true => simp only [if_true]

/-- The vCPUs in a set. -/
def members (dmask : Cpuset) : Finset Nat :=
  (Finset.range vmMaxcpu).filter fun i => dmask.getLsbD i = true

theorem members_zero : members 0 = ∅ := by decide

theorem mem_members {dmask : Cpuset} {i : Nat} :
    i ∈ members dmask ↔ i < vmMaxcpu ∧ dmask.getLsbD i = true := by
  rw [members, Finset.mem_filter, Finset.mem_range]

theorem getLsbD_single {n : Nat} (hn : n < 64) (i : Nat) :
    (WordSet.set n (0 : Cpuset)).getLsbD i = decide (i = n) := by
  rw [WordSet.getLsbD_set hn]
  simp

theorem members_single {n : Nat} (hn : n < vmMaxcpu) : members (WordSet.set n 0) = {n} := by
  ext i
  rw [mem_members, getLsbD_single (Nat.lt_trans hn (by decide)), decide_eq_true_iff,
    Finset.mem_singleton]
  exact ⟨And.right, fun h => ⟨h ▸ hn, h⟩⟩

section Calcdest
variable (vm : Vm) (dest : BitVec 32)

theorem mem_matching {i : Nat} :
    i ∈ vm.matching dest ↔ vm.active.getLsbD i = true ∧ Matches (vm.lapic i) dest := by
  rw [Vm.matching, Finset.mem_filter, Vm.activeSet, Finset.mem_filter, Finset.mem_range]
  exact ⟨fun h => ⟨h.1.2, h.2⟩, fun h => ⟨⟨vm.active_lt i h.1, h.1⟩, h.2⟩⟩

theorem calcdest_logical (hd : vm.x2apic = false → dest.toNat < 256)
    (hb : dest ≠ broadcast vm.x2apic) (lowprio : Bool) :
    vlapicCalcdest vm.active vm.lapic dest false lowprio vm.x2apic =
      logicalLoop (fun i => decide (Matches (vm.lapic i) dest)) lowprio
        (WordSet.elems vm.active) 0 := by
  have hhit : (fun i => logicalMatch (vm.lapic i) dest vm.x2apic) =
      fun i => decide (Matches (vm.lapic i) dest) := by
    funext i
    rw [Bool.eq_iff_iff, decide_eq_true_iff]
    exact logicalMatch_iff (vm.configured i) dest hd
  unfold vlapicCalcdest
  rw [if_neg, if_neg Bool.false_ne_true, hhit, WordSet.visit_width]
  unfold broadcast at hb
  cases hx : vm.x2apic <;> simpa [hx] using hb

theorem members_logical (hd : vm.x2apic = false → dest.toNat < 256)
    (hb : dest ≠ broadcast vm.x2apic) :
    members (vlapicCalcdest vm.active vm.lapic dest false false vm.x2apic) = vm.matching dest := by
  ext i
  rw [calcdest_logical vm dest hd hb, mem_members, mem_matching,
    logicalLoop_all _ fun j hj => BitVec.lt_of_getLsbD (WordSet.mem_elems.mp hj)]
  have hbit : (((0 : Cpuset).getLsbD i ||
      (decide (i ∈ WordSet.elems vm.active) && decide (Matches (vm.lapic i) dest))) = true) ↔
      vm.active.getLsbD i = true ∧ Matches (vm.lapic i) dest := by
    rw [show (0 : Cpuset).getLsbD i = false from BitVec.getLsbD_zero, Bool.false_or,
      Bool.and_eq_true, decide_eq_true_iff, decide_eq_true_iff, WordSet.mem_elems]
  rw [hbit]
  exact ⟨And.right, fun h => ⟨vm.active_lt i h.1, h⟩⟩

theorem members_lowprio (hd : vm.x2apic = false → dest.toNat < 256)
    (hb : dest ≠ broadcast vm.x2apic) :
    (vm.matching dest = ∅ ∧
        members (vlapicCalcdest vm.active vm.lapic dest false true vm.x2apic) = ∅) ∨
      ∃ i ∈ vm.matching dest,
        members (vlapicCalcdest vm.active vm.lapic dest false true vm.x2apic) = {i} := by
  rw [calcdest_logical vm dest hd hb, logicalLoop_first]
  cases hfind : (WordSet.elems vm.active).find? fun i => decide (Matches (vm.lapic i) dest) with
  | none =>
    refine Or.inl ⟨?_, members_zero⟩
    apply Finset.eq_empty_of_forall_notMem
    intro i hi
    rw [mem_matching] at hi
    have hnot := List.find?_eq_none.mp hfind i (WordSet.mem_elems.mpr hi.1)
    exact hnot (decide_eq_true hi.2)
  | some i =>
    have hact := WordSet.mem_elems.mp (List.mem_of_find?_eq_some hfind)
    have hhit := List.find?_some hfind
    have hmatch : Matches (vm.lapic i) dest := of_decide_eq_true hhit
    exact Or.inr ⟨i, (mem_matching vm dest).mpr ⟨hact, hmatch⟩, members_single (vm.active_lt i hact)⟩

/-- A physical destination that fits a non-negative `int` is an id. -/
theorem members_phys (x2apicDest : Bool) (hb : dest ≠ broadcast x2apicDest)
    (hd : dest.toNat < 2 ^ 31) (lowprio : Bool) :
    members (vlapicCalcdest vm.active vm.lapic dest true lowprio x2apicDest) =
      (Finset.range vmMaxcpu).filter fun i => i = dest.toNat := by
  have hint : dest.toInt = dest.toNat := BitVec.toInt_eq_toNat_of_lt (by omega)
  have hnb : ¬ ((x2apicDest = true ∧ dest = 0xffffffff) ∨ (¬ x2apicDest = true ∧ dest = 0xff)) := by
    unfold broadcast at hb
    cases x2apicDest <;> simpa using hb
  unfold vlapicCalcdest
  rw [if_neg hnb, if_pos rfl]
  simp only [vmApicid2vcpuid, hint, BitVec.ofInt_natCast, BitVec.ofNat_toNat, BitVec.setWidth_eq]
  ext i
  rw [Finset.mem_filter, Finset.mem_range]
  by_cases hlt : dest.toNat < vmMaxcpu
  · rw [if_pos (by exact_mod_cast hlt), members_single hlt, Finset.mem_singleton]
    exact ⟨fun h => ⟨h ▸ hlt, h⟩, And.right⟩
  · rw [if_neg (by exact_mod_cast hlt), members_zero]
    refine iff_of_false (Finset.notMem_empty i) ?_
    intro ⟨hi, heq⟩
    exact hlt (heq ▸ hi)

/-- A negative one passes the check, and its bit is the shift's. -/
theorem members_negative (hb : dest ≠ 0xffffffff) (hd : 2 ^ 31 ≤ dest.toNat) (lowprio : Bool) :
    members (vlapicCalcdest vm.active vm.lapic dest true lowprio true) =
      (Finset.range vmMaxcpu).filter fun i => i = dest.toNat % 64 := by
  have hneg : dest.toInt < 0 := by
    rw [BitVec.toInt_eq_toNat_cond, if_neg (by omega)]
    have := dest.isLt
    omega
  have hself : BitVec.ofInt 32 dest.toInt = dest := BitVec.ofInt_toInt
  unfold vlapicCalcdest
  rw [if_neg (by simpa using hb), if_pos rfl]
  simp only [vmApicid2vcpuid, hself]
  rw [if_pos (by omega)]
  ext i
  have hbit : (WordSet.set dest.toNat (0 : Cpuset)) = WordSet.set (dest.toNat % 64) 0 := by
    unfold WordSet.set WordSet.bit
    rw [Nat.mod_mod]
  rw [hbit, mem_members, Finset.mem_filter, Finset.mem_range,
    getLsbD_single (Nat.mod_lt _ (by decide)), decide_eq_true_iff]

theorem resolves_negative (vcpuid : Nat) (hb : dest ≠ 0xffffffff) (hd : 2 ^ 31 ≤ dest.toNat)
    (lowprio : Bool) :
    Resolves vm vcpuid (members (vlapicCalcdest vm.active vm.lapic dest true lowprio true))
      (.field dest true lowprio true) ↔ ¬ dest.toNat % 64 < vmMaxcpu := by
  have hnobody : ((Finset.range vmMaxcpu).filter fun i => i = dest.toNat) = ∅ := by
    apply Finset.filter_eq_empty_iff.mpr
    intro i hi heq
    rw [Finset.mem_range] at hi
    have : vmMaxcpu < 2 ^ 31 := by decide
    omega
  rw [Resolves, if_neg (by exact hb), if_pos rfl, members_negative vm dest hb hd, hnobody,
    Finset.filter_eq_empty_iff]
  constructor
  · intro h hlt
    exact h (Finset.mem_range.mpr hlt) rfl
  · intro h i hi heq
    rw [Finset.mem_range, heq] at hi
    exact h hi

/-- A destination field resolves as its format says, but for negative physical ones. -/
theorem resolves_field (vcpuid : Nat) {phys lowprio x2apicDest : Bool}
    (hmode : phys = false → vm.x2apic = x2apicDest)
    (hd : x2apicDest = false → dest.toNat < 256) :
    Resolves vm vcpuid (members (vlapicCalcdest vm.active vm.lapic dest phys lowprio x2apicDest))
        (.field dest phys lowprio x2apicDest) ↔
      ¬ (x2apicDest = true ∧ phys = true ∧ 2 ^ 31 ≤ dest.toNat ∧ dest ≠ 0xffffffff ∧
        dest.toNat % 64 < vmMaxcpu) := by
  by_cases hb : dest = broadcast x2apicDest
  · apply iff_of_true
    · rw [Resolves, if_pos hb, vlapicCalcdest, if_pos]
      · rfl
      · unfold broadcast at hb
        cases x2apicDest <;> simpa using hb
    · intro ⟨hx, _, _, hne, _⟩
      subst hx
      exact hne hb
  cases phys with
  | false =>
    obtain rfl := hmode rfl
    apply iff_of_true
    · rw [Resolves, if_neg hb, if_neg Bool.false_ne_true]
      cases lowprio with
      | false => exact members_logical vm dest hd hb
      | true => exact members_lowprio vm dest hd hb
    · intro ⟨_, hphys, _⟩
      exact Bool.false_ne_true hphys
  | true =>
    by_cases hneg : 2 ^ 31 ≤ dest.toNat
    · cases x2apicDest with
      | false =>
        have := hd rfl
        omega
      | true =>
        rw [resolves_negative vm dest vcpuid hb hneg lowprio, not_iff_not]
        exact ⟨fun h => ⟨rfl, rfl, hneg, hb, h⟩, fun h => h.2.2.2.2⟩
    · apply iff_of_true
      · rw [Resolves, if_neg hb, if_pos rfl]
        exact members_phys vm dest x2apicDest hb (by omega) lowprio
      · intro ⟨_, _, hge, _⟩
        exact hneg hge

end Calcdest

/-! ## The ICR -/

/-- The value `vlapic_icrlo_write_handler` looks at. -/
def icrval (lo hi : BitVec 32) : BitVec 64 :=
  (hi.setWidth 64 <<< 32) ||| (lo &&& ~~~apicDelstatPend).setWidth 64

theorem icrval_low {lo hi : BitVec 32} {i : Nat} (hi32 : i < 32) :
    (icrval lo hi).getLsbD i = (lo.getLsbD i && decide (i ≠ 12)) := by
  have hpend : apicDelstatPend = BitVec.twoPow 32 12 := by decide
  have hi64 : i < 64 := by omega
  simp only [icrval, BitVec.getLsbD_or, BitVec.getLsbD_shiftLeft, BitVec.getLsbD_setWidth, hpend,
    BitVec.getLsbD_and, BitVec.getLsbD_not, BitVec.getLsbD_twoPow, hi32, hi64, decide_true,
    Bool.not_true, Bool.and_false, Bool.false_and, Bool.false_or, Bool.true_and]
  by_cases h12 : i = 12
  · subst h12
    simp
  · simp [h12, Ne.symm h12]

theorem icrval_high {lo hi : BitVec 32} {i : Nat} : (icrval lo hi).getLsbD (32 + i) = hi.getLsbD i := by
  have hlow : (lo &&& ~~~apicDelstatPend).getLsbD (32 + i) = false :=
    BitVec.getLsbD_of_ge _ _ (by omega)
  have hge : ¬ 32 + i < 32 := by omega
  simp only [icrval, BitVec.getLsbD_or, BitVec.getLsbD_shiftLeft, BitVec.getLsbD_setWidth, hlow, hge,
    Nat.add_sub_cancel_left, decide_false, Bool.not_false, Bool.and_true, Bool.and_false,
    Bool.or_false]
  by_cases hi32 : i < 32
  · rw [decide_eq_true (by omega : 32 + i < 64), decide_eq_true (by omega : i < 64),
      Bool.true_and, Bool.true_and]
  · rw [BitVec.getLsbD_of_ge hi i (by omega), Bool.and_false, Bool.and_false]

/-- A field of the low half that leaves the delivery status out. -/
theorem icrval_and {lo hi : BitVec 32} (mask : BitVec 32) (hmask : mask.getLsbD 12 = false) :
    icrval lo hi &&& mask.setWidth 64 = (lo &&& mask).setWidth 64 := by
  apply BitVec.eq_of_getLsbD_eq
  intro i hi64
  rw [BitVec.getLsbD_and, BitVec.getLsbD_setWidth, BitVec.getLsbD_setWidth, BitVec.getLsbD_and]
  by_cases hi32 : i < 32
  · rw [icrval_low hi32]
    by_cases h12 : i = 12
    · subst h12
      simp only [hmask, Bool.and_false]
    · simp [h12, hi64]
  · rw [BitVec.getLsbD_of_ge mask i (by omega)]
    simp

theorem setWidth_inj {x y : BitVec 32} : x.setWidth 64 = y.setWidth 64 ↔ x = y := by
  constructor
  · intro h
    have hnat := congrArg BitVec.toNat h
    rw [BitVec.toNat_setWidth_of_le (by decide), BitVec.toNat_setWidth_of_le (by decide)] at hnat
    exact BitVec.eq_of_toNat_eq hnat
  · intro h
    rw [h]

theorem icrval_field {lo hi : BitVec 32} (mask v : BitVec 32) (hmask : mask.getLsbD 12 = false) :
    icrval lo hi &&& mask.setWidth 64 = v.setWidth 64 ↔ lo &&& mask = v := by
  rw [icrval_and _ hmask, setWidth_inj]

theorem icrval_x2apicDest (lo hi : BitVec 32) : (icrval lo hi >>> 32).setWidth 32 = hi := by
  apply BitVec.eq_of_getLsbD_eq
  intro i hi32
  rw [BitVec.getLsbD_setWidth, BitVec.getLsbD_ushiftRight, icrval_high, decide_eq_true hi32,
    Bool.true_and]

theorem icrval_xapicDest (lo hi : BitVec 32) :
    (icrval lo hi >>> (32 + 24)).setWidth 32 = hi >>> 24 := by
  apply BitVec.eq_of_getLsbD_eq
  intro i hi32
  rw [BitVec.getLsbD_setWidth, BitVec.getLsbD_ushiftRight, Nat.add_assoc, icrval_high,
    BitVec.getLsbD_ushiftRight, decide_eq_true hi32, Bool.true_and]

/-- The set an ICR write is sent to. -/
def icrMask (vm : Vm) (vcpuid : Nat) (lo hi : BitVec 32) : Cpuset :=
  if lo &&& apicDestMask 32 = apicDestDestfld 32 then
    vlapicCalcdest vm.active vm.lapic (if vm.x2apic then hi else hi >>> 24)
      (lo &&& apicDestmodeLog 32 = 0) false vm.x2apic
  else if lo &&& apicDestMask 32 = apicDestSelf 32 then WordSet.set vcpuid 0
  else if lo &&& apicDestMask 32 = apicDestAlliself 32 then vm.active
  else if lo &&& apicDestMask 32 = apicDestAlleself 32 then WordSet.clr vcpuid vm.active
  else 0

/-- The shorthand has two bits. -/
theorem shorthand_cases (lo : BitVec 32) :
    lo &&& apicDestMask 32 = apicDestDestfld 32 ∨ lo &&& apicDestMask 32 = apicDestSelf 32 ∨
      lo &&& apicDestMask 32 = apicDestAlliself 32 ∨
      lo &&& apicDestMask 32 = apicDestAlleself 32 := by
  have hmask : apicDestMask 32 = BitVec.twoPow 32 18 ||| BitVec.twoPow 32 19 := by decide
  rw [hmask, BitVec.and_or_distrib_left, BitVec.and_twoPow, BitVec.and_twoPow]
  cases lo.getLsbD 18 with
  | false => cases lo.getLsbD 19 with
    | false => exact Or.inl (by decide)
    | true => exact Or.inr (Or.inr (Or.inl (by decide)))
  | true => cases lo.getLsbD 19 with
    | false => exact Or.inr (Or.inl (by decide))
    | true => exact Or.inr (Or.inr (Or.inr (by decide)))

theorem handed_visit (dmask : Cpuset) (f : Nat → Call) (hf : ∀ i, (f i).target = some i) :
    handed ((WordSet.visit 64 dmask).map f) = members dmask := by
  ext i
  rw [handed, mem_members, Finset.mem_filter, Finset.mem_range, WordSet.visit_width, List.map_map]
  have htarget : Call.target ∘ f = some := funext hf
  rw [htarget, List.mem_map]
  constructor
  · intro ⟨hlt, j, hj, heq⟩
    rw [Option.some.inj heq] at hj
    exact ⟨hlt, WordSet.mem_elems.mp hj⟩
  · intro ⟨hlt, hbit⟩
    exact ⟨hlt, i, WordSet.mem_elems.mpr hbit, rfl⟩

theorem handed_icr (vm : Vm) {vcpuid : Nat} {lo hi : BitVec 32}
    (h : Admissible vm (.icr vcpuid lo hi)) :
    handed (deliver vm (.icr vcpuid lo hi)) = members (icrMask vm vcpuid lo hi) := by
  have hfixed : icrval lo hi &&& apicDelmodeMask 64 = apicDelmodeFixed 64 ↔
      lo &&& apicDelmodeMask 32 = apicDelmodeFixed 32 :=
    icrval_field (apicDelmodeMask 32) (apicDelmodeFixed 32) (by decide)
  have hnmi : icrval lo hi &&& apicDelmodeMask 64 = apicDelmodeNmi 64 ↔
      lo &&& apicDelmodeMask 32 = apicDelmodeNmi 32 :=
    icrval_field (apicDelmodeMask 32) (apicDelmodeNmi 32) (by decide)
  have hdestfld : icrval lo hi &&& apicDestMask 64 = apicDestDestfld 64 ↔
      lo &&& apicDestMask 32 = apicDestDestfld 32 :=
    icrval_field (apicDestMask 32) (apicDestDestfld 32) (by decide)
  have hself : icrval lo hi &&& apicDestMask 64 = apicDestSelf 64 ↔
      lo &&& apicDestMask 32 = apicDestSelf 32 :=
    icrval_field (apicDestMask 32) (apicDestSelf 32) (by decide)
  have hall : icrval lo hi &&& apicDestMask 64 = apicDestAlliself 64 ↔
      lo &&& apicDestMask 32 = apicDestAlliself 32 :=
    icrval_field (apicDestMask 32) (apicDestAlliself 32) (by decide)
  have hothers : icrval lo hi &&& apicDestMask 64 = apicDestAlleself 64 ↔
      lo &&& apicDestMask 32 = apicDestAlleself 32 :=
    icrval_field (apicDestMask 32) (apicDestAlleself 32) (by decide)
  have hlog : icrval lo hi &&& apicDestmodeLog 64 = 0 ↔ lo &&& apicDestmodeLog 32 = 0 :=
    icrval_field (apicDestmodeLog 32) 0 (by decide)
  have hvec : (icrval lo hi &&& apicVectorMask 64).setWidth 32 = lo &&& apicVectorMask 32 := by
    have hmask : apicVectorMask 64 = (apicVectorMask 32).setWidth 64 := by decide
    rw [hmask, icrval_and (apicVectorMask 32) (by decide),
      BitVec.setWidth_setWidth_of_le _ (by decide), BitVec.setWidth_eq]
  have hmode : lo &&& apicDelmodeMask 32 = apicDelmodeFixed 32 ∨
      lo &&& apicDelmodeMask 32 = apicDelmodeNmi 32 := h.2.imp_left And.left
  -- A fixed vector of 16 or more is no error.
  have hlegal : ¬ (lo &&& apicDelmodeMask 32 = apicDelmodeFixed 32 ∧
      lo &&& apicVectorMask 32 < 16) := by
    intro ⟨hf, hlt⟩
    rcases h.2 with ⟨_, hge⟩ | hn
    · exact absurd (BitVec.lt_def.mp hlt) (Nat.not_lt.mpr hge)
    · rw [hf] at hn
      exact absurd hn (by decide)
  have hx := (vm.configured vcpuid).x2apic_eq
  have hdest : (if vm.x2apic = true then (icrval lo hi >>> 32).setWidth 32
      else (icrval lo hi >>> (32 + 24)).setWidth 32) = if vm.x2apic then hi else hi >>> 24 := by
    rw [icrval_x2apicDest, icrval_xapicDest]
  unfold deliver vlapicIcrloWriteHandler
  simp only [← icrval.eq_def, hx, hvec, hfixed, hnmi, hdestfld, hself, hall, hothers, hlog, hdest]
  rw [if_neg hlegal, if_pos hmode, Option.getD_some, handed_visit]
  · rfl
  · intro i
    split <;> rfl

theorem members_clr (vm : Vm) {vcpuid : Nat} (h : vcpuid < vmMaxcpu) :
    members (WordSet.clr vcpuid vm.active) = vm.activeSet.erase vcpuid := by
  ext i
  rw [mem_members, WordSet.getLsbD_clr (Nat.lt_trans h (by decide)), Finset.mem_erase, Vm.activeSet,
    Finset.mem_filter, Finset.mem_range, Bool.and_eq_true, decide_eq_true_iff]
  exact ⟨fun hi => ⟨hi.2.2, hi.1, hi.2.1⟩, fun hi => ⟨hi.2.1, hi.2.2, hi.1⟩⟩

theorem resolves_icr (vm : Vm) {vcpuid : Nat} {lo hi : BitVec 32}
    (h : Admissible vm (.icr vcpuid lo hi)) :
    Resolves vm vcpuid (members (icrMask vm vcpuid lo hi)) (addressing vm (.icr vcpuid lo hi)) ↔
      ¬ NegativeDest vm (.icr vcpuid lo hi) := by
  unfold icrMask addressing
  simp only
  by_cases hfld : lo &&& apicDestMask 32 = apicDestDestfld 32
  · rw [if_pos hfld, if_pos hfld, resolves_field vm _ vcpuid fun _ => rfl]
    · unfold NegativeDest
      rw [not_iff_not, decide_eq_true_iff]
      constructor
      · intro ⟨hx, hphys, hge, hne, hlt⟩
        rw [if_pos hx] at hge hne hlt
        exact ⟨hx, hfld, hphys, hge, hne, hlt⟩
      · intro ⟨hx, _, hphys, hge, hne, hlt⟩
        rw [if_pos hx]
        exact ⟨hx, hphys, hge, hne, hlt⟩
    · intro hx
      rw [hx, if_neg Bool.false_ne_true, BitVec.toNat_ushiftRight, Nat.shiftRight_eq_div_pow]
      have := hi.isLt
      omega
  · rw [if_neg hfld, if_neg hfld]
    apply iff_of_true
    · by_cases hself : lo &&& apicDestMask 32 = apicDestSelf 32
      · rw [if_pos hself, if_pos hself]
        exact members_single h.1
      · rw [if_neg hself, if_neg hself]
        by_cases hall : lo &&& apicDestMask 32 = apicDestAlliself 32
        · rw [if_pos hall, if_pos hall]
          rfl
        · have hothers : lo &&& apicDestMask 32 = apicDestAlleself 32 := by
            rcases shorthand_cases lo with h0 | h1 | h2 | h3
            · exact absurd h0 hfld
            · exact absurd h1 hself
            · exact absurd h2 hall
            · exact h3
          rw [if_neg hall, if_neg hall, if_pos hothers]
          exact members_clr vm h.1
    · intro hneg
      exact hfld hneg.2.1

/-! ## The I/O APIC and MSI -/

theorem resolves_intr (vm : Vm) (vcpuid : Nat) {intr : Intr} (h : AdmissibleIntr vm intr)
    (hd : intr.dest.toNat < 256) :
    Resolves vm vcpuid (handed (vlapicDeliverIntr vm.active vm.lapic intr)) (intrAddressing intr) := by
  have hmode : ¬ (intr.delmode ≠ apicDelmodeFixed 32 ∧ intr.delmode ≠ apicDelmodeLowprio 32 ∧
      intr.delmode ≠ apicDelmodeExint 32) := by
    intro ⟨hf, hl, _⟩
    rcases h.1 with hfixed | hlow
    · exact hf hfixed
    · exact hl hlow
  unfold vlapicDeliverIntr intrAddressing
  rw [if_neg hmode, handed_visit]
  · rw [resolves_field vm intr.dest vcpuid h.2 fun _ => hd]
    intro ⟨hx, _⟩
    exact Bool.false_ne_true hx
  · intro i
    split <;> rfl

theorem intrOf_dest_lt (reg : BitVec 64) : (intrOf reg).dest.toNat < 256 := by
  show (Ioapic.high reg >>> 24).toNat < 256
  rw [BitVec.toNat_ushiftRight, Nat.shiftRight_eq_div_pow]
  have := (Ioapic.high reg).isLt
  omega

theorem msiIntr_dest_lt (addr msg : BitVec 64) : (msiIntr addr msg).dest.toNat < 256 := by
  show (((addr >>> 12) &&& 0xff).setWidth 32).toNat < 256
  rw [BitVec.toNat_setWidth, BitVec.toNat_and]
  have hle : (addr >>> 12).toNat &&& (0xff : BitVec 64).toNat ≤ 0xff := Nat.and_le_right
  omega

/-- The vCPUs an interrupt is handed to are those its destination names, exactly when it is not
a physical x2APIC destination from 2^31 on whose low six bits are a vCPU's id. -/
theorem dest_resolved_iff (vm : Vm) (r : Request) (h : Admissible vm r) :
    Resolves vm r.sender (handed (deliver vm r)) (addressing vm r) ↔ ¬ NegativeDest vm r := by
  cases r with
  | icr vcpuid lo hi =>
    rw [handed_icr vm h]
    exact resolves_icr vm h
  | ioapic reg =>
    apply iff_of_true
    · exact resolves_intr vm 0 h (intrOf_dest_lt reg)
    · exact id
  | msi addr msg =>
    apply iff_of_true
    · rw [deliver, lapicIntrMsi, if_neg (not_not.mpr h.1), Option.getD_some]
      exact resolves_intr vm 0 h.2 (msiIntr_dest_lt addr msg)
    · exact id

/-- Two vCPUs in x2APIC mode. -/
def twoX2apic : Vm where
  x2apic := true
  active := 3
  lapic i := vlapicSetX2apicState i true
  active_lt := by
    intro i hi
    have hlt : i < 64 := BitVec.lt_of_getLsbD hi
    have hall : ∀ j < 64, (3 : Cpuset).getLsbD j = true → j < vmMaxcpu := by decide
    exact hall i hlt hi
  configured _ := Configured.set

theorem dest_resolved_physical :
    handed (deliver twoX2apic (.icr 0 0x30 1)) = {1} ∧
      Resolves twoX2apic 0 (handed (deliver twoX2apic (.icr 0 0x30 1)))
        (addressing twoX2apic (.icr 0 0x30 1)) :=
  ⟨by decide, (dest_resolved_iff twoX2apic (.icr 0 0x30 1)
    ⟨by decide, Or.inl ⟨by decide, by decide⟩⟩).mpr fun h => absurd h.2.2.2.1 (by decide)⟩

/-- An interrupt to the APIC ID 0x80000001, which no vCPU has, is handed to vCPU 1. -/
theorem dest_negative_delivered :
    Admissible twoX2apic (.icr 0 0x30 0x80000001) ∧
      handed (deliver twoX2apic (.icr 0 0x30 0x80000001)) = {1} ∧
      ¬ Resolves twoX2apic 0 (handed (deliver twoX2apic (.icr 0 0x30 0x80000001)))
        (addressing twoX2apic (.icr 0 0x30 0x80000001)) := by
  have hset : handed (deliver twoX2apic (.icr 0 0x30 0x80000001)) = {1} := by decide
  refine ⟨⟨by decide, Or.inl ⟨by decide, by decide⟩⟩, hset, ?_⟩
  rw [hset]
  show ¬ (({1} : Finset Nat) = (Finset.range vmMaxcpu).filter fun i => i = 0x80000001)
  decide

end Xhyve.Vmm.LapicDest
