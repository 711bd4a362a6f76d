import Xhyve.Emul.InoutEmulate

/-!
# The accumulator after an IN

Both paths pass the accumulator through 32 bits of the exit and write all 64 of the register back, so its upper half is
gone after an IN of one or two bytes.
-/

namespace Xhyve.Emul.Inout

open Xhyve.Vmm.Segment (size2mask)

/-- What an IN of a handler's value makes of the accumulator. -/
structure Loads (bytes : Nat) (old new : BitVec 64) (val : BitVec 32) : Prop where
  low : new.setWidth (8 * bytes) = val.setWidth (8 * bytes)
  kept : bytes ≠ 4 → new >>> (8 * bytes) = old >>> (8 * bytes)
  cleared : bytes = 4 → new >>> 32 = 0

/-- The accumulator of an exit is the low half of the register. -/
def VmExit.In {σ : Type} (x : VmExit) (m : Vcpu σ) : Prop :=
  x.inp = true ∧ x.string = false ∧ (x.bytes = 1 ∨ x.bytes = 2 ∨ x.bytes = 4) ∧ x.eax = (m.regs .rax).setWidth 32

section Values

variable {ι σ : Type} (x : VmExit) (m : Vcpu σ)

/-- The value of the handler in user space. -/
def userValue (env : Surroundings ι σ) (t : Table) : BitVec 32 :=
  (env.code (t x.port).handler m.machine true x.port x.bytes (x.eax &&& (size2mask x.bytes).setWidth 32)
    (t x.port).arg).2.1

/-- The value of the handler in the kernel part. -/
def kernelValue (handler : IoportFunc σ) (uninit : BitVec 32) : BitVec 32 :=
  (handler m.machine true x.port x.bytes uninit).2.1

end Values

section Merge

variable {b : Nat} {old : BitVec 64} {val : BitVec 32}

theorem size2mask_getLsbD (hb : b = 1 ∨ b = 2 ∨ b = 4) {i : Nat} (hi : i < 32) :
    ((size2mask b).setWidth 32).getLsbD i = decide (i < 8 * b) := by
  have hmask : (size2mask b).setWidth 32 = (BitVec.allOnes (8 * b)).setWidth 32 := by
    rcases hb with rfl | rfl | rfl <;> decide
  rw [hmask, BitVec.getLsbD_setWidth, BitVec.getLsbD_allOnes, decide_eq_true hi, Bool.true_and]

/-- Bit by bit: the handler's value, the accumulator, and nothing. -/
theorem mergeEax_getLsbD (hb : b = 1 ∨ b = 2 ∨ b = 4) {i : Nat} (hi : i < 64) :
    ((mergeEax (old.setWidth 32) val b).setWidth 64).getLsbD i =
      if i < 8 * b then val.getLsbD i else if i < 32 then old.getLsbD i else false := by
  have hb32 : 8 * b ≤ 32 := by omega
  rw [BitVec.getLsbD_setWidth, decide_eq_true hi, Bool.true_and]
  by_cases h32 : i < 32
  · rw [mergeEax, BitVec.getLsbD_or, BitVec.getLsbD_and, BitVec.getLsbD_and, BitVec.getLsbD_not, size2mask_getLsbD hb h32,
      BitVec.getLsbD_setWidth]
    by_cases hlow : i < 8 * b
    · simp [hlow, h32]
    · simp [hlow, h32]
  · rw [BitVec.getLsbD_of_ge _ _ (Nat.le_of_not_lt h32), if_neg (by omega), if_neg h32]

theorem shiftRight_eq_zero_iff (x : BitVec 64) : x >>> 32 = 0 ↔ ∀ i, 32 ≤ i → i < 64 → x.getLsbD i = false := by
  constructor
  · intro h i hi _
    have hbit := congrArg (·.getLsbD (i - 32)) h
    simpa [BitVec.getLsbD_ushiftRight, Nat.add_sub_cancel' hi] using hbit
  · intro h
    apply BitVec.eq_of_getLsbD_eq
    intro i hi
    rw [BitVec.getLsbD_ushiftRight]
    by_cases h64 : 32 + i < 64
    · rw [h (32 + i) (Nat.le_add_right ..) h64]
      simp
    · rw [BitVec.getLsbD_of_ge _ _ (Nat.le_of_not_lt h64)]
      simp

theorem loads_iff (hb : b = 1 ∨ b = 2 ∨ b = 4) :
    Loads b old ((mergeEax (old.setWidth 32) val b).setWidth 64) val ↔ b = 4 ∨ old >>> 32 = 0 := by
  constructor
  · intro h
    by_cases h4 : b = 4
    · exact .inl h4
    refine .inr ((shiftRight_eq_zero_iff old).mpr fun i h32 h64 => ?_)
    have hbit := congrArg (·.getLsbD (i - 8 * b)) (h.kept h4)
    have hsum : 8 * b + (i - 8 * b) = i := by omega
    rw [BitVec.getLsbD_ushiftRight, BitVec.getLsbD_ushiftRight, hsum, mergeEax_getLsbD hb h64, if_neg (by omega),
      if_neg (by omega)] at hbit
    exact hbit.symm
  · intro h
    constructor
    · apply BitVec.eq_of_getLsbD_eq
      intro i hi
      have h64 : i < 64 := by omega
      rw [BitVec.getLsbD_setWidth, mergeEax_getLsbD hb h64, if_pos hi, BitVec.getLsbD_setWidth]
    · intro h4
      have hzero := (shiftRight_eq_zero_iff old).mp (h.resolve_left h4)
      apply BitVec.eq_of_getLsbD_eq
      intro i hi
      rw [BitVec.getLsbD_ushiftRight, BitVec.getLsbD_ushiftRight]
      by_cases h64 : 8 * b + i < 64
      · rw [mergeEax_getLsbD hb h64, if_neg (by omega)]
        split
        · rfl
        · exact (hzero _ (by omega) h64).symm
      · rw [BitVec.getLsbD_of_ge _ _ (Nat.le_of_not_lt h64), BitVec.getLsbD_of_ge _ _ (Nat.le_of_not_lt h64)]
    · intro _
      refine (shiftRight_eq_zero_iff _).mpr fun i h32 h64 => ?_
      rw [mergeEax_getLsbD hb h64, if_neg (by omega), if_neg (by omega)]

end Merge

section Paths

variable {ι σ : Type} {x : VmExit} {m u k : Vcpu σ}

/-- What an IN through the table leaves in the accumulator. -/
theorem emulateInout_rax {env : Surroundings ι σ} {t : Table} {strict : Bool} (hx : x.In m)
    (h : emulateInout env x t strict m = some (0, u)) :
    u.regs .rax = (mergeEax ((m.regs .rax).setWidth 32) (userValue x m env t) x.bytes).setWidth 64 := by
  obtain ⟨hin, hstr, -, heax⟩ := hx
  unfold emulateInout at h
  split at h
  · cases h
  split at h
  · cases h
  split at h
  · cases h
  rw [if_neg (by rw [hstr]; decide)] at h
  have h := Option.some.inj h
  unfold emulateAccumulator at h
  dsimp only at h
  rw [Prod.mk.injEq] at h
  obtain ⟨h0, rfl⟩ := h
  rw [if_pos ⟨h0, hin⟩, Vcpu.set_self, hin, ← heax]
  rfl

theorem emulateInoutPort_rax {table : Nat → Option (IoportFunc σ)} {uninit : BitVec 32} (hx : x.In m)
    {handler : IoportFunc σ} (hport : x.port < maxIoportsKernel) (hhandler : table x.port = some handler)
    (h : emulateInoutPort x table uninit m = .done k) :
    k.regs .rax = (mergeEax ((m.regs .rax).setWidth 32) (kernelValue x m handler uninit) x.bytes).setWidth 64 := by
  obtain ⟨hin, -, -, heax⟩ := hx
  unfold emulateInoutPort at h
  rw [if_pos hport, hhandler] at h
  dsimp only at h
  rw [if_pos hin, if_pos hin] at h
  split at h
  · cases h
  · obtain rfl := Kernel.done.inj h
    rw [Vcpu.set_self, hin, ← heax]
    rfl

end Paths

/-- An IN of one or two bytes keeps the accumulator above them exactly when its upper half was clear; one of four bytes is
as it should be; and both paths do the same. -/
theorem in_loads_iff {ι σ : Type} {x : VmExit} {m : Vcpu σ} (hx : x.In m) :
    (∀ (env : Surroundings ι σ) (t : Table) (strict : Bool) (u : Vcpu σ), emulateInout env x t strict m = some (0, u) →
      (Loads x.bytes (m.regs .rax) (u.regs .rax) (userValue x m env t) ↔ x.bytes = 4 ∨ m.regs .rax >>> 32 = 0)) ∧
    (∀ (table : Nat → Option (IoportFunc σ)) (handler : IoportFunc σ) (uninit : BitVec 32) (k : Vcpu σ),
      x.port < maxIoportsKernel → table x.port = some handler → emulateInoutPort x table uninit m = .done k →
      (Loads x.bytes (m.regs .rax) (k.regs .rax) (kernelValue x m handler uninit) ↔
        x.bytes = 4 ∨ m.regs .rax >>> 32 = 0)) ∧
    ∀ (env : Surroundings ι σ) (t : Table) (strict : Bool) (u : Vcpu σ) (table : Nat → Option (IoportFunc σ))
      (handler : IoportFunc σ) (uninit : BitVec 32) (k : Vcpu σ), emulateInout env x t strict m = some (0, u) →
      x.port < maxIoportsKernel → table x.port = some handler → emulateInoutPort x table uninit m = .done k →
      userValue x m env t = kernelValue x m handler uninit → u.regs .rax = k.regs .rax := by
  refine ⟨?_, ?_, ?_⟩
  · intro env t strict u hu
    rw [emulateInout_rax hx hu]
    exact loads_iff hx.2.2.1
  · intro table handler uninit k hport hhandler hk
    rw [emulateInoutPort_rax hx hport hhandler hk]
    exact loads_iff hx.2.2.1
  · intro env t strict u table handler uninit k hu hport hhandler hk hv
    rw [emulateInout_rax hx hu, emulateInoutPort_rax hx hport hhandler hk, hv]

/-! ## An IN of one byte -/

/-- A port at which every handler reads 0xff. -/
def ones : Surroundings Unit Unit where
  code _ _ _ _ _ _ _ := (0, 0xff, ())
  copySetup _ _ _ _ := .error ()
  copyin _ _ _ := 0
  copyout _ _ _ _ := ()

def onesTable : Table := fun _ => (defaultIop 0 1).entry
def onesKernel : Nat → Option (IoportFunc Unit) := fun _ => some fun _ _ _ _ _ => (false, 0xff, ())

/-- An IN from port 0x40 into an accumulator of 0x1122334455667788. -/
def inExit (bytes : Nat) : VmExit where
  bytes := bytes
  inp := true
  string := false
  rep := false
  port := 0x40
  eax := 0x55667788
  cpuMode := .mode64
  cpl := 0
  rflags := 0
  cr0 := 0
  index := 0
  count := 0
  addrsize := 8
  segName := .es
  segDesc := ⟨0, 0, 0⟩

def inVcpu : Vcpu Unit := ⟨fun _ => 0x1122334455667788, (), [], none, false⟩

theorem in_loses_upper_half :
    (inExit 1).In inVcpu ∧
    (∃ u, emulateInout ones (inExit 1) onesTable false inVcpu = some (0, u) ∧
      ¬ Loads 1 (inVcpu.regs .rax) (u.regs .rax) (userValue (inExit 1) inVcpu ones onesTable)) ∧
    ∃ k, emulateInoutPort (inExit 1) onesKernel 0 inVcpu = .done k ∧
      ¬ Loads 1 (inVcpu.regs .rax) (k.regs .rax) 0xff := by
  refine ⟨⟨rfl, rfl, .inl rfl, by decide⟩, ⟨_, rfl, fun h => ?_⟩, _, rfl, fun h => ?_⟩
  · exact absurd (h.kept (by decide)) (by decide)
  · exact absurd (h.kept (by decide)) (by decide)

theorem in_loads_four : ∃ u, emulateInout ones (inExit 4) onesTable false inVcpu = some (0, u) ∧
    Loads 4 (inVcpu.regs .rax) (u.regs .rax) (userValue (inExit 4) inVcpu ones onesTable) := by
  have hx : (inExit 4).In inVcpu := ⟨rfl, rfl, .inr (.inr rfl), by decide⟩
  exact ⟨_, rfl, ((in_loads_iff hx).1 ones onesTable false _ rfl).mpr (.inl rfl)⟩

end Xhyve.Emul.Inout
