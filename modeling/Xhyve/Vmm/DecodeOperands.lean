import Xhyve.Vmm.RipRelative

/-!
# The operation and the operands of a decoded instruction

The opcode comes from one of the two tables, the sizes of operands and addresses are those of the mode, and the
immediate is a number of as many bytes as the opcode asks for.
-/

namespace Xhyve.Vmm.Decode

open Lib

/-- The fields that say what is done and how wide the operands are. -/
def Vie.operation (v : Vie) : VieOp × Nat × Nat := (v.op, v.opsize, v.addrsize)

/-- A phase that leaves them and the immediate alone. -/
def KeepsOperation (f : Vie → Option Vie) : Prop :=
  ∀ v w, f v = some w → w.operation = v.operation ∧ w.immediate = v.immediate

theorem takeField_operation {size : Nat} (store : List UInt8 → Vie → Vie) {v w : Vie}
    (hstore : ∀ bs u, (store bs u).operation = u.operation ∧ (store bs u).immediate = u.immediate)
    (h : ((takeBytes size v).map fun (bs, v) => store bs v) = some w) :
    w.operation = v.operation ∧ w.immediate = v.immediate := by
  obtain ⟨⟨bs, u⟩, hu, rfl⟩ := Option.map_eq_some_iff.mp h
  have hfields := hstore bs u
  rw [(takeBytes_streams hu).1] at hfields
  rw [(takeBytes_streams hu).1]
  exact hfields

theorem decodeModrm_operation (mode : CpuMode) : KeepsOperation (decodeModrm mode) := by
  intro v w h
  rw [decodeModrm_eq] at h
  simp only at h
  split at h
  · obtain rfl := Option.some.inj h
    exact ⟨rfl, rfl⟩
  · obtain ⟨x, -, hx⟩ := Option.bind_eq_some_iff.mp h
    unfold modrmByte at hx
    split_ifs at hx
    · obtain rfl := Option.some.inj hx
      exact ⟨rfl, rfl⟩
    · obtain rfl := Option.some.inj hx
      exact ⟨rfl, rfl⟩

theorem decodeSib_operation : KeepsOperation decodeSib := by
  intro v w h
  rw [decodeSib_eq] at h
  simp only at h
  split at h
  · obtain rfl := Option.some.inj h
    exact ⟨rfl, rfl⟩
  · obtain ⟨x, -, hx⟩ := Option.bind_eq_some_iff.mp h
    obtain rfl := Option.some.inj hx
    exact ⟨rfl, rfl⟩

theorem decodeDisplacement_operation : KeepsOperation decodeDisplacement := by
  intro v w h
  unfold decodeDisplacement at h
  split at h
  · obtain rfl := Option.some.inj h
    exact ⟨rfl, rfl⟩
  · exact takeField_operation (fun bs v => { v with displacement := LittleEndian.toInt bs }) (fun _ _ => ⟨rfl, rfl⟩) h

theorem decodeMoffset_operation : KeepsOperation decodeMoffset := by
  intro v w h
  unfold decodeMoffset at h
  split at h
  · obtain rfl := Option.some.inj h
    exact ⟨rfl, rfl⟩
  · have hstore : ∀ (d : Int) (u : Vie), ({ u with displacement := d } : Vie).operation = u.operation ∧
        ({ u with displacement := d } : Vie).immediate = u.immediate := fun _ _ => ⟨rfl, rfl⟩
    obtain ⟨⟨bs, u⟩, hu, rfl⟩ := Option.map_eq_some_iff.mp h
    have hfields := hstore (asInt64 (LittleEndian.toNat bs)) u
    rw [(takeBytes_streams hu).1] at hfields
    rw [(takeBytes_streams hu).1]
    exact hfields

/-- A number of `n` bytes. -/
theorem toInt_fits (bs : List UInt8) : LittleEndian.Fits bs.length (LittleEndian.toInt bs) := by
  have hpos : 0 < 256 ^ bs.length := Nat.pow_pos (by decide)
  have hlow := @Int.le_bmod (LittleEndian.toNat bs) (256 ^ bs.length) hpos
  have hhigh := @Int.bmod_lt (LittleEndian.toNat bs) (256 ^ bs.length) hpos
  unfold LittleEndian.Fits LittleEndian.toInt
  have hcast : ((256 ^ bs.length : Nat) : Int) = 256 ^ bs.length := by push_cast; rfl
  rw [hcast] at hlow hhigh
  constructor <;> omega

theorem takeBytes_length {n : Nat} {v w : Vie} {bs : List UInt8} (h : takeBytes n v = some (bs, w)) : bs.length = n := by
  induction n generalizing v w bs with
  | zero =>
    obtain ⟨rfl, -⟩ := Prod.mk.inj (Option.some.inj h)
    rfl
  | succ n ih =>
    rw [takeBytes] at h
    cases hp : viePeek v with
    | none => simp [hp] at h
    | some x =>
      simp only [hp] at h
      obtain ⟨⟨xs, u⟩, hu, hw⟩ := Option.map_eq_some_iff.mp h
      obtain ⟨rfl, -⟩ := Prod.mk.inj hw
      rw [List.length_cons, ih hu]

theorem immediateSize_eq {v w : Vie} (h : w.operation = v.operation) (himm : v.op.opFlags.imm = true ∨ v.op.opFlags.imm8 = true) :
    immediateSize w = immediateSize v := by
  obtain ⟨hop, hsize, -⟩ : w.op = v.op ∧ w.opsize = v.opsize ∧ w.addrsize = v.addrsize := by
    simpa [Vie.operation] using h
  unfold immediateSize
  rw [hop, hsize]
  rcases himm with himm | himm
  · simp [himm]
  · simp [himm]

/-- An opcode that has an immediate gets one of its size. -/
theorem decodeImmediate_fits {v w : Vie} (h : decodeImmediate v = some w) :
    w.operation = v.operation ∧ ((v.op.opFlags.imm = true ∨ v.op.opFlags.imm8 = true) →
      LittleEndian.Fits (immediateSize w) w.immediate) := by
  unfold decodeImmediate at h
  simp only at h
  split at h
  · rename_i hzero
    obtain rfl := Option.some.inj h
    refine ⟨rfl, fun himm => ?_⟩
    unfold immediateSize at hzero
    rcases himm with himm | himm <;> simp [himm] at hzero <;> split_ifs at hzero
  · obtain ⟨⟨bs, u⟩, hu, rfl⟩ := Option.map_eq_some_iff.mp h
    have hlen := takeBytes_length hu
    have hop : u.operation = v.operation := by
      rw [(takeBytes_streams hu).1]
      rfl
    refine ⟨hop, fun himm => ?_⟩
    have hop' : ({ u with immediate := LittleEndian.toInt bs } : Vie).operation = v.operation := hop
    simp only
    rw [immediateSize_eq hop' himm, ← hlen]
    exact toInt_fits bs

/-- An instruction is decoded where its fields are and the checks behind them pass. -/
theorem vmmDecodeInstruction_ok {vmGetRegister : VmReg → Option Nat} {gla : Nat} {mode : CpuMode} {csD : Bool} {v w : Vie} :
    vmmDecodeInstruction vmGetRegister gla mode csD v = some w ↔
      ∃ f, decodeFields mode csD v = some f ∧ verifyInstLength f = true ∧
        (f.op.opFlags.noGlaVerification = true ∨ verifyGla vmGetRegister gla f = true) ∧ w = { f with decoded := true } := by
  unfold vmmDecodeInstruction
  rw [Option.bind_eq_some_iff]
  refine exists_congr fun f => and_congr_right fun _ => ?_
  cases verifyInstLength f <;> cases f.op.opFlags.noGlaVerification <;> cases verifyGla vmGetRegister gla f <;>
    simp [eq_comm]

/-- What the decoder has found out. -/
structure Operation (mode : CpuMode) (w : Vie) : Prop where
  op : ∃ x, w.op = oneByteOpcodes x ∨ w.op = twoByteOpcodes x
  opsize : w.opsize = 2 ∨ w.opsize = 4 ∨ w.opsize = 8
  addrsize : if mode = .mode64 then w.addrsize = 4 ∨ w.addrsize = 8 else w.addrsize = 2 ∨ w.addrsize = 4
  immediate : (w.op.opFlags.imm = true ∨ w.op.opFlags.imm8 = true) → LittleEndian.Fits (immediateSize w) w.immediate

theorem decodeSizes_sizes (mode : CpuMode) (csD : Bool) (v : Vie) :
    ((decodeSizes mode csD v).opsize = 2 ∨ (decodeSizes mode csD v).opsize = 4 ∨ (decodeSizes mode csD v).opsize = 8) ∧
    if mode = .mode64 then (decodeSizes mode csD v).addrsize = 4 ∨ (decodeSizes mode csD v).addrsize = 8
      else (decodeSizes mode csD v).addrsize = 2 ∨ (decodeSizes mode csD v).addrsize = 4 := by
  unfold decodeSizes
  by_cases hmode : mode = .mode64
  · simp only [if_pos hmode]
    constructor
    · split_ifs <;> simp
    · split_ifs <;> simp
  · simp only [if_neg hmode]
    cases csD with
    | true =>
      constructor
      · cases v.opsizeOverride <;> simp
      · cases v.addrsizeOverride <;> simp
    | false =>
      constructor
      · cases v.opsizeOverride <;> simp
      · cases v.addrsizeOverride <;> simp

theorem decodeOpcode_table {v w : Vie} (h : decodeOpcode v = some w) :
    (∃ x, w.op = oneByteOpcodes x ∨ w.op = twoByteOpcodes x) ∧ w.opsize = v.opsize ∧ w.addrsize = v.addrsize := by
  rw [decodeOpcode_eq] at h
  obtain ⟨u, hu, hw⟩ := Option.bind_eq_some_iff.mp h
  obtain ⟨x, -, hx⟩ := Option.bind_eq_some_iff.mp hu
  obtain ⟨-, ⟨⟩⟩ := Option.ite_none_left_eq_some.mp hx
  unfold escapedByte at hw
  split at hw
  · obtain rfl := Option.some.inj hw
    exact ⟨⟨x, Or.inl rfl⟩, rfl, rfl⟩
  · unfold decodeTwoByteOpcode at hw
    split at hw
    · cases hw
    · rename_i y _
      obtain ⟨-, ⟨⟩⟩ := Option.ite_none_left_eq_some.mp hw
      exact ⟨⟨y, Or.inr rfl⟩, rfl, rfl⟩

theorem decodeFields_operation {mode : CpuMode} {csD : Bool} {inst : List UInt8} {w : Vie}
    (h : decodeFields mode csD (vieInit inst) = some w) : Operation mode w := by
  obtain ⟨t, ht, hmoff⟩ := Option.bind_eq_some_iff.mp h
  obtain ⟨s, hs, himm⟩ := Option.bind_eq_some_iff.mp ht
  obtain ⟨r, hr, hdisp⟩ := Option.bind_eq_some_iff.mp hs
  obtain ⟨q, hq, hsib⟩ := Option.bind_eq_some_iff.mp hr
  obtain ⟨p, hp, hmodrm⟩ := Option.bind_eq_some_iff.mp hq
  obtain ⟨o, ho, hop⟩ := Option.bind_eq_some_iff.mp hp
  obtain ⟨⟨x, u⟩, -, rfl⟩ := Option.map_eq_some_iff.mp ho
  obtain ⟨hopsize, haddrsize⟩ := decodeSizes_sizes mode csD (decodeRex mode x u)
  obtain ⟨htable, hps, hpa⟩ := decodeOpcode_table hop
  obtain ⟨htop, hfits⟩ := decodeImmediate_fits himm
  obtain ⟨hwop, hwimm⟩ := decodeMoffset_operation t w hmoff
  -- nothing behind the opcode changes it or the sizes
  have hsp : s.operation = p.operation := by
    rw [(decodeDisplacement_operation r s hdisp).1, (decodeSib_operation q r hsib).1,
      (decodeModrm_operation mode p q hmodrm).1]
  have hwp : w.operation = p.operation := by rw [hwop, htop, hsp]
  obtain ⟨hop', hsize', haddr'⟩ : w.op = p.op ∧ w.opsize = p.opsize ∧ w.addrsize = p.addrsize := by
    simpa [Vie.operation] using hwp
  refine ⟨?_, ?_, ?_, fun himmw => ?_⟩
  · rw [hop']
    exact htable
  · rw [hsize', hps]
    exact hopsize
  · rw [haddr', hpa]
    exact haddrsize
  · have hopt : s.op = w.op := congrArg Prod.fst (hsp.trans hwp.symm)
    rw [← hopt] at himmw
    have himmt : t.op.opFlags.imm = true ∨ t.op.opFlags.imm8 = true := by
      rw [show t.op = s.op from congrArg Prod.fst htop]
      exact himmw
    rw [hwimm, immediateSize_eq hwop himmt]
    exact hfits himmw

end Xhyve.Vmm.Decode
