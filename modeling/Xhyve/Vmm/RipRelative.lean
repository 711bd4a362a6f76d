import Xhyve.Vmm.DecodeCut
import Mathlib.Tactic

/-!
# RIP-relative operands

The operand of a RIP-relative instruction is counted from the instruction that follows. The decoder
knows how many bytes it has processed; `verify_gla` takes the number of bytes that were fetched, which
is the length of the instruction only where the exit reported it.
-/

namespace Xhyve.Vmm.Decode

open Lib

/-! ## The form of a RIP-relative operand -/

/-- A phase that leaves the registers and the size of the address alone. -/
def KeepsAddress (f : Vie → Option Vie) : Prop :=
  ∀ v w, f v = some w → w.baseRegister = v.baseRegister ∧ w.indexRegister = v.indexRegister ∧
    w.addrsize = v.addrsize

theorem KeepsAddress.bind {f g : Vie → Option Vie} (hf : KeepsAddress f) (hg : KeepsAddress g) :
    KeepsAddress fun v => (f v).bind g := by
  intro v w h
  obtain ⟨u, hu, hw⟩ := Option.bind_eq_some_iff.mp h
  obtain ⟨hb, hi, ha⟩ := hf v u hu
  obtain ⟨hb', hi', ha'⟩ := hg u w hw
  exact ⟨hb'.trans hb, hi'.trans hi, ha'.trans ha⟩

theorem prefixLoop_registers {fuel : Nat} {v w : Vie} {x : UInt8}
    (h : prefixLoop fuel v = some (x, w)) :
    w.baseRegister = v.baseRegister ∧ w.indexRegister = v.indexRegister := by
  induction fuel generalizing v with
  | zero => simp [prefixLoop] at h
  | succ fuel ih =>
    rw [prefixLoop] at h
    cases hp : viePeek v with
    | none => simp [hp] at h
    | some y =>
      simp only [hp] at h
      cases ha : applyPrefix y v with
      | none =>
        simp only [ha, Option.some.injEq, Prod.mk.injEq] at h
        obtain ⟨-, rfl⟩ := h
        exact ⟨rfl, rfl⟩
      | some u =>
        simp only [ha] at h
        have hu : u.baseRegister = v.baseRegister ∧ u.indexRegister = v.indexRegister := by
          unfold applyPrefix at ha
          split_ifs at ha
          · obtain rfl := Option.some.inj ha
            exact ⟨rfl, rfl⟩
          · obtain rfl := Option.some.inj ha
            exact ⟨rfl, rfl⟩
          · obtain rfl := Option.some.inj ha
            exact ⟨rfl, rfl⟩
          · obtain rfl := Option.some.inj ha
            exact ⟨rfl, rfl⟩
          · split at ha
            · obtain rfl := Option.some.inj ha
              exact ⟨rfl, rfl⟩
            · cases ha
        obtain ⟨hb, hi⟩ := ih h
        exact ⟨hb.trans hu.1, hi.trans hu.2⟩

theorem decodePrefixes_address {mode : CpuMode} {csD : Bool} {v w : Vie}
    (h : decodePrefixes mode csD v = some w) :
    w.baseRegister = v.baseRegister ∧ w.indexRegister = v.indexRegister ∧
      (mode = .mode64 → w.addrsize = 4 ∨ w.addrsize = 8) := by
  obtain ⟨⟨x, u⟩, hu, rfl⟩ := Option.map_eq_some_iff.mp h
  have hrex : (decodeRex mode x u).baseRegister = u.baseRegister ∧
      (decodeRex mode x u).indexRegister = u.indexRegister := by
    unfold decodeRex
    split
    · exact ⟨rfl, rfl⟩
    · exact ⟨rfl, rfl⟩
  obtain ⟨hb, hi⟩ := prefixLoop_registers hu
  rw [← hb, ← hi, ← hrex.1, ← hrex.2]
  simp only
  generalize decodeRex mode x u = t
  unfold decodeSizes
  by_cases hm : mode = .mode64
  · rw [if_pos hm]
    refine ⟨rfl, rfl, fun _ => ?_⟩
    simp only
    split
    · exact Or.inl rfl
    · exact Or.inr rfl
  · rw [if_neg hm]
    split
    · exact ⟨rfl, rfl, fun hno => absurd hno hm⟩
    · exact ⟨rfl, rfl, fun hno => absurd hno hm⟩

theorem opcodeByte_address : KeepsAddress opcodeByte := by
  intro v w h
  obtain ⟨x, -, hx⟩ := Option.bind_eq_some_iff.mp h
  obtain ⟨-, ⟨⟩⟩ := Option.ite_none_left_eq_some.mp hx
  exact ⟨rfl, rfl, rfl⟩

theorem escapedByte_address : KeepsAddress escapedByte := by
  intro v w h
  unfold escapedByte at h
  split at h
  · obtain rfl := Option.some.inj h
    exact ⟨rfl, rfl, rfl⟩
  · unfold decodeTwoByteOpcode at h
    split at h
    · cases h
    · obtain ⟨-, ⟨⟩⟩ := Option.ite_none_left_eq_some.mp h
      exact ⟨rfl, rfl, rfl⟩

theorem decodeOpcode_address : KeepsAddress decodeOpcode := by
  rw [decodeOpcode_eq]
  exact opcodeByte_address.bind escapedByte_address

theorem takeField_address {size : Nat} (store : List UInt8 → Vie → Vie) {v w : Vie}
    (hstore : ∀ bs u, (store bs u).baseRegister = u.baseRegister ∧
      (store bs u).indexRegister = u.indexRegister ∧ (store bs u).addrsize = u.addrsize)
    (h : ((takeBytes size v).map fun (bs, v) => store bs v) = some w) :
    w.baseRegister = v.baseRegister ∧ w.indexRegister = v.indexRegister ∧
      w.addrsize = v.addrsize := by
  obtain ⟨⟨bs, u⟩, hu, rfl⟩ := Option.map_eq_some_iff.mp h
  have hfields := hstore bs u
  rw [(takeBytes_streams hu).1] at hfields
  rw [(takeBytes_streams hu).1]
  exact hfields

theorem decodeDisplacement_address : KeepsAddress decodeDisplacement := by
  intro v w h
  unfold decodeDisplacement at h
  split at h
  · obtain rfl := Option.some.inj h
    exact ⟨rfl, rfl, rfl⟩
  · exact takeField_address (fun bs v => { v with displacement := LittleEndian.toInt bs })
      (fun _ _ => ⟨rfl, rfl, rfl⟩) h

theorem decodeImmediate_address : KeepsAddress decodeImmediate := by
  intro v w h
  unfold decodeImmediate at h
  simp only at h
  split at h
  · obtain rfl := Option.some.inj h
    exact ⟨rfl, rfl, rfl⟩
  · exact takeField_address (v := { v with immBytes := immediateSize v })
      (fun bs v => { v with immediate := LittleEndian.toInt bs }) (fun _ _ => ⟨rfl, rfl, rfl⟩) h

theorem decodeMoffset_address : KeepsAddress decodeMoffset := by
  intro v w h
  unfold decodeMoffset at h
  split at h
  · obtain rfl := Option.some.inj h
    exact ⟨rfl, rfl, rfl⟩
  · exact takeField_address
      (fun bs v => { v with displacement := asInt64 (LittleEndian.toNat bs) })
      (fun _ _ => ⟨rfl, rfl, rfl⟩) h

theorem gprMap_ne_rip (k : Nat) : gprMap[k]? ≠ some .rip := by
  intro h
  have hmem : VmReg.rip ∈ gprMap := List.mem_of_getElem? h
  exact absurd hmem (by decide)

/-- Only ModRM names RIP, in 64-bit mode, and then there is no SIB byte. -/
theorem decodeModrm_rip {mode : CpuMode} {v w : Vie} (hv : v.baseRegister = none)
    (h : decodeModrm mode v = some w) :
    w.indexRegister = v.indexRegister ∧ w.addrsize = v.addrsize ∧
      (w.baseRegister = some .rip → mode = .mode64 ∧ w.rm ≠ 4) := by
  rw [decodeModrm_eq] at h
  simp only at h
  split at h
  · obtain rfl := Option.some.inj h
    refine ⟨rfl, rfl, fun hrip => ?_⟩
    rw [hv] at hrip
    cases hrip
  · obtain ⟨x, -, hx⟩ := Option.bind_eq_some_iff.mp h
    unfold modrmByte at hx
    split_ifs at hx with h1 h2 h3
    · obtain rfl := Option.some.inj hx
      refine ⟨rfl, rfl, fun hrip => ?_⟩
      have hbase : v.baseRegister = some .rip := hrip
      rw [hv] at hbase
      cases hbase
    · obtain rfl := Option.some.inj hx
      refine ⟨rfl, rfl, fun hrip => ?_⟩
      simp only [vieAdvance, modrmAddress] at hrip
      split_ifs at hrip with h4 h5
      · exact ⟨h5, h3⟩
      · exact absurd hrip (gprMap_ne_rip _)

theorem decodeSib_rip {mode : CpuMode} {v w : Vie} (hv : v.indexRegister = none)
    (hrm : v.baseRegister = some .rip → mode = .mode64 ∧ v.rm ≠ 4)
    (h : decodeSib v = some w) :
    w.addrsize = v.addrsize ∧
      (w.baseRegister = some .rip → mode = .mode64 ∧ w.indexRegister = none) := by
  rw [decodeSib_eq] at h
  simp only at h
  split at h
  · obtain rfl := Option.some.inj h
    exact ⟨rfl, fun hrip => ⟨(hrm hrip).1, hv⟩⟩
  · rename_i hsib
    obtain ⟨x, -, hx⟩ := Option.bind_eq_some_iff.mp h
    obtain rfl := Option.some.inj hx
    refine ⟨rfl, fun hrip => ?_⟩
    simp only [vieAdvance, sibAddress] at hrip
    split_ifs at hrip with hno
    · -- a displacement alone: the base register is the one ModRM left
      have hrip' : v.baseRegister = some .rip := hrip
      exact absurd (Or.inr (hrm hrip').2) hsib
    · exact absurd hrip (gprMap_ne_rip _)

theorem decodeFields_rip {mode : CpuMode} {csD : Bool} {inst : List UInt8} {w : Vie}
    (h : decodeFields mode csD (vieInit inst) = some w) (hrip : w.baseRegister = some .rip) :
    w.indexRegister = none ∧ (w.addrsize = 4 ∨ w.addrsize = 8) := by
  obtain ⟨t, ht, hmoff⟩ := Option.bind_eq_some_iff.mp h
  obtain ⟨s, hs, himm⟩ := Option.bind_eq_some_iff.mp ht
  obtain ⟨r, hr, hdisp⟩ := Option.bind_eq_some_iff.mp hs
  obtain ⟨q, hq, hsib⟩ := Option.bind_eq_some_iff.mp hr
  obtain ⟨p, hp, hmodrm⟩ := Option.bind_eq_some_iff.mp hq
  obtain ⟨o, ho, hop⟩ := Option.bind_eq_some_iff.mp hp
  obtain ⟨hob, hoi, hoa⟩ := decodePrefixes_address ho
  obtain ⟨hpb, hpi, hpa⟩ := decodeOpcode_address o p hop
  obtain ⟨hqi, hqa, hqrip⟩ := decodeModrm_rip (hpb.trans hob) hmodrm
  obtain ⟨hra, hrrip⟩ := decodeSib_rip (hqi.trans (hpi.trans hoi)) hqrip hsib
  obtain ⟨hsb, hsi, hsa⟩ := decodeDisplacement_address r s hdisp
  obtain ⟨htb, hti, hta⟩ := decodeImmediate_address s t himm
  obtain ⟨hwb, hwi, hwa⟩ := decodeMoffset_address t w hmoff
  have hbase : r.baseRegister = some .rip := by
    rw [← hsb, ← htb, ← hwb]
    exact hrip
  obtain ⟨hmode, hindex⟩ := hrrip hbase
  constructor
  · rw [hwi, hti, hsi, hindex]
  · rw [hwa, hta, hsa, hra, hqa, hpa]
    exact hoa hmode

/-! ## The address that is verified -/

/-- The operand's address where the following instruction is `len` bytes on. -/
def ripAddress (rip len : Nat) (v : Vie) : Nat :=
  ((rip + len + v.displacement) % 2 ^ 64).toNat &&& size2mask v.addrsize

theorem ripAddress_inj {rip m n : Nat} {v : Vie} (ha : v.addrsize = 4 ∨ v.addrsize = 8)
    (hm : m ≤ vieInstSize) (hn : n ≤ vieInstSize) (h : ripAddress rip m v = ripAddress rip n v) :
    m = n := by
  have hmask : ∀ x : Nat, x &&& size2mask v.addrsize = x % 2 ^ (8 * v.addrsize) := by
    intro x
    rcases ha with ha | ha
    · rw [ha]
      exact Nat.and_two_pow_sub_one_eq_mod x 32
    · rw [ha]
      exact Nat.and_two_pow_sub_one_eq_mod x 64
  unfold vieInstSize at hm hn
  unfold ripAddress at h
  rw [hmask, hmask] at h
  rcases ha with ha | ha
  · rw [ha] at h
    omega
  · rw [ha] at h
    omega

theorem verifyGla_rip {w : Vie} (hrip : w.baseRegister = some .rip) (hindex : w.indexRegister = none)
    (regs : VmReg → Nat) (gla : Nat) :
    verifyGla (fun r => some (regs r)) gla w = true ↔
      gla = vieInvalidGla ∨ gla = ripAddress (regs .rip) w.inst.length w := by
  unfold verifyGla ripAddress
  rw [hrip, hindex]
  by_cases hinv : gla = vieInvalidGla
  · simp [hinv]
  · simp [hinv]

/-- The address `verify_gla` compares is counted from the end of the instruction, and an access of that
address is decoded. -/
structure RipExact (regs : VmReg → Nat) (mode : CpuMode) (csD : Bool) (inst : List UInt8)
    (w : Vie) : Prop where
  address : ∀ gla, verifyGla (fun r => some (regs r)) gla w = true ↔
    gla = vieInvalidGla ∨ gla = ripAddress (regs .rip) w.numProcessed w
  accepted : vmmDecodeInstruction (fun r => some (regs r)) (ripAddress (regs .rip) w.numProcessed w)
    mode csD (vieInit inst) = some { w with decoded := true }

theorem numProcessed_ne_zero {mode : CpuMode} {csD : Bool} {inst : List UInt8} {w : Vie}
    (h : decodeFields mode csD (vieInit inst) = some w) : w.numProcessed ≠ 0 := by
  intro hzero
  have hcut := (decodeFields_cuts mode csD).cut h 0 (Nat.le_of_eq hzero)
  have hempty : decodeFields mode csD ((vieInit inst).cut 0) = none := rfl
  exact Option.some_ne_none _ (hcut.symm.trans hempty)

/-- For every byte string that decodes to a RIP-relative operand and every state of the registers,
`verify_gla` counts from the end of the instruction exactly when nothing was fetched behind it. -/
theorem rip_relative_exact_iff {inst : List UInt8} (hlen : inst.length ≤ vieInstSize)
    {mode : CpuMode} {csD : Bool} {w : Vie} (h : decodeFields mode csD (vieInit inst) = some w)
    (hrip : w.baseRegister = some .rip) (regs : VmReg → Nat) :
    RipExact regs mode csD inst w ↔
      ∀ k < inst.length, decodeFields mode csD (vieInit (inst.take k)) = none := by
  obtain ⟨hindex, haddr⟩ := decodeFields_rip h hrip
  have hstream := decodeFields_streams mode csD
  have hinst : w.inst = inst := hstream.inst h
  have hbound : w.numProcessed ≤ inst.length := hstream.bound h (Nat.zero_le _)
  rw [← decodeFields_whole_iff h]
  constructor
  · -- the two addresses are the same, whichever of them the invalid one may be
    intro hexact
    have hchecked := verifyGla_rip hrip hindex regs
    rw [hinst] at hchecked
    have htrue := (hchecked (ripAddress (regs .rip) inst.length w)).mpr (Or.inr rfl)
    have hgen := (hexact.address (ripAddress (regs .rip) w.numProcessed w)).mpr (Or.inr rfl)
    have heq : ripAddress (regs .rip) w.numProcessed w = ripAddress (regs .rip) inst.length w := by
      rcases (hexact.address _).mp htrue with hinv | heq
      · rcases (hchecked _).mp hgen with hinv' | heq
        · rw [hinv, hinv']
        · exact heq
      · exact heq.symm
    exact ripAddress_inj haddr (by omega) hlen heq
  · intro hwhole
    have haddress : ∀ gla, verifyGla (fun r => some (regs r)) gla w = true ↔
        gla = vieInvalidGla ∨ gla = ripAddress (regs .rip) w.numProcessed w := by
      intro gla
      rw [verifyGla_rip hrip hindex regs, hinst, hwhole]
    refine ⟨haddress, ?_⟩
    have hgla := (haddress (ripAddress (regs .rip) w.numProcessed w)).mpr (Or.inr rfl)
    have hproc : verifyInstLength w = true := decide_eq_true (numProcessed_ne_zero h)
    rw [vmmDecodeInstruction, h, Option.bind_some, if_neg (by rw [hproc]; decide), if_neg]
    intro hno
    exact Bool.false_ne_true (hno.2.symm.trans hgla)

/-- `mov eax, [rip + 0x10]`. -/
def ripLoad : List UInt8 := [0x8B, 0x05, 0x10, 0, 0, 0]

/-- The six bytes alone, as fetched where the exit reports the length. -/
theorem rip_relative_exact_load : ∃ w, decodeFields .mode64 false (vieInit ripLoad) = some w ∧
    RipExact (fun _ => 0x1000) .mode64 false ripLoad w := by
  have hsome : (decodeFields .mode64 false (vieInit ripLoad)).isSome = true := by decide
  obtain ⟨w, hw⟩ := Option.isSome_iff_exists.mp hsome
  have hbase : (decodeFields .mode64 false (vieInit ripLoad)).map Vie.baseRegister =
      some (some .rip) := by
    decide
  rw [hw] at hbase
  have hrip : w.baseRegister = some .rip := Option.some.inj hbase
  refine ⟨w, hw, (rip_relative_exact_iff (by decide) hw hrip _).mpr ?_⟩
  decide

/-- Where the exit reports no length, fifteen bytes are fetched: the genuine access of 0x1016 is
rejected, and the check is for 0x101f. -/
theorem rip_relative_rejected :
    (decodeFields .mode64 false (vieInit (ripLoad ++ List.replicate 9 0x90))).map
      (fun w => (w.baseRegister, w.numProcessed, ripAddress 0x1000 w.numProcessed w)) =
      some (some .rip, 6, 0x1016) ∧
    vmmDecodeInstruction (fun _ => some 0x1000) 0x1016 .mode64 false
      (vieInit (ripLoad ++ List.replicate 9 0x90)) = none ∧
    vmmDecodeInstruction (fun _ => some 0x1000) 0x101f .mode64 false
      (vieInit (ripLoad ++ List.replicate 9 0x90)) ≠ none := by
  refine ⟨by decide, by decide, by decide⟩

end Xhyve.Vmm.Decode
