import Xhyve.Vmm.DecodeOperands
import Xhyve.Vmm.Emulate

/-!
# Values that are stored

Immediates are sign-extended to 64 bits and registers are 64 bits wide; a value that goes to a device has to be cut to
the size of the operand. Some of the handlers do it and some do not.
-/

namespace Xhyve.Vmm.Emulate

open Xhyve.Lib Xhyve.Lib.Fallible
open Xhyve.Vmm.PageWalk
open Xhyve.Vmm.TaskSwitch (Vm Guest Ret TaskM Iov iovLen vmCopySetup vmCopyin copyLoop copyPieces vmCopySetup_ok gla2gpa
  protRead)
open Xhyve.Vmm.Decode (Vie VmReg VieOp CpuMode OpType oneByteOpcodes twoByteOpcodes immediateSize)
open Xhyve.Vmm.Segment (SegReg size2mask size2mask_and)

variable {δ : Type}

/-! ## The callbacks a program makes -/

/-- Where a program ends or stops. -/
def finalState {α : Type} : EStateM.Result Stop (Vcpu δ) α → Vcpu δ
  | .ok _ s => s
  | .error _ s => s

/-- A program that makes no callback. -/
def Quiet {α : Type} (x : EmulM δ α) : Prop := ∀ s, (finalState (x s)).log = s.log

section Log
variable {α β : Type} {x : EmulM δ α} {f : α → EmulM δ β} {s t : Vcpu δ} {a : α} {e : Stop}

theorem final_bind_ok (h : x s = .ok a t) : finalState ((x >>= f) s) = finalState (f a t) := by
  rw [bind_of_ok h]

theorem final_bind_error (h : x s = .error e t) : finalState ((x >>= f) s) = t := by
  rw [bind_of_error h]
  rfl

/-- Quiet ends add nothing. -/
theorem log_bind_quiet (hf : ∀ a, Quiet (f a)) : (finalState ((x >>= f) s)).log = (finalState (x s)).log := by
  cases hx : x s with
  | ok a t =>
    rw [final_bind_ok hx, hf a t]
    rfl
  | error e t =>
    rw [final_bind_error hx]
    rfl

theorem Quiet.bind (hx : Quiet x) (hf : ∀ a, Quiet (f a)) : Quiet (x >>= f) := by
  intro s
  rw [log_bind_quiet hf, hx s]

theorem Quiet.ok (hx : Quiet x) (h : x s = .ok a t) : t.log = s.log := by
  have hlog := hx s
  rw [h] at hlog
  exact hlog

/-- Behind a quiet start, callbacks are those of the rest, or none where the start stops. -/
theorem log_quiet_bind (hx : Quiet x) {P : List Access → Prop} (hnone : P s.log)
    (hf : ∀ a t, x s = .ok a t → t.log = s.log → P (finalState (f a t)).log) : P (finalState ((x >>= f) s)).log := by
  cases hok : x s with
  | ok a t =>
    rw [final_bind_ok hok]
    exact hf a t hok (hx.ok hok)
  | error e t =>
    rw [final_bind_error hok]
    have hlog := hx s
    rw [hok] at hlog
    rw [show t.log = s.log from hlog]
    exact hnone

theorem quiet_pure (a : α) : Quiet (pure a : EmulM δ α) := fun _ => rfl

theorem quiet_throw : Quiet (throw e : EmulM δ α) := fun _ => rfl

theorem quiet_readRegister (reg : VmReg) : Quiet (vieReadRegister reg : EmulM δ _) := fun _ => rfl

theorem quiet_updateRegister (reg : VmReg) (val : BitVec 64) (size : Nat) :
    Quiet (vieUpdateRegister reg val size : EmulM δ _) := by
  intro s
  unfold vieUpdateRegister
  split
  · rfl
  · rfl

theorem quiet_inject (e : TaskSwitch.PendingException) : Quiet (inject e : EmulM δ α) := by
  intro s
  unfold inject
  split
  · rfl
  · rfl

theorem quiet_onGuest (x : TaskM α) : Quiet (onGuest x : EmulM δ _) := by
  intro s
  unfold onGuest
  split <;> rfl

theorem quiet_setFlags (rflags2 mask : BitVec 64) : Quiet (setFlags rflags2 mask : EmulM δ _) :=
  (quiet_readRegister .rflags).bind fun _ => quiet_updateRegister _ _ _

theorem quiet_checkGla (paging : GuestPaging) (size : Nat) (seg : SegReg) (cr0 rflags : BitVec 64)
    (gla : Except Segment.Stop (BitVec 64)) : Quiet (checkGla paging size seg cr0 rflags gla : EmulM δ _) := by
  unfold checkGla
  cases gla with
  | error e =>
    cases e with
    | fault => exact quiet_inject _
    | kassert => exact quiet_throw
  | ok gla =>
    simp only
    split
    · exact quiet_inject _
    · split
      · exact quiet_inject _
      · exact quiet_pure gla

theorem quiet_getGla (paging : GuestPaging) (opsize addrsize : Nat) (prot : Segment.Prot) (seg : SegReg) (gpr : VmReg) :
    Quiet (getGla paging opsize addrsize prot seg gpr : EmulM δ _) := by
  intro s
  exact quiet_checkGla paging opsize seg _ _ _ s

theorem quiet_vmGla2gpa (vm : Vm) (paging : GuestPaging) (gla : BitVec 64) (prot : Nat) :
    Quiet (vmGla2gpa vm paging gla prot : EmulM δ _) := by
  refine (quiet_onGuest _).bind fun gpa => Quiet.bind ?_ fun gpa => quiet_pure _
  cases gpa with
  | none => exact quiet_throw
  | some gpa => exact quiet_pure gpa

theorem quiet_advance (vie : Vie) (reg : VmReg) : Quiet (advance vie reg : EmulM δ _) :=
  (quiet_readRegister reg).bind fun _ => (quiet_readRegister .rflags).bind fun _ => quiet_updateRegister _ _ _

theorem quiet_countDown (vie : Vie) (rcx : BitVec 64) : Quiet (countDown vie rcx : EmulM δ _) := by
  unfold countDown
  split
  · refine (quiet_updateRegister _ _ _).bind fun _ => ?_
    split
    · exact fun _ => rfl
    · exact quiet_pure _
  · exact quiet_pure _

theorem memwrite_log (r : Region δ) (gpa val : BitVec 64) (size : Nat) (s : Vcpu δ) :
    (finalState (memwrite r gpa val size s)).log = s.log ++ [.write gpa size val] := by
  unfold memwrite
  simp only
  split <;> rfl

/-- A read that fails is not recorded. -/
theorem memread_cases (r : Region δ) (gpa : BitVec 64) (size : Nat) (s : Vcpu δ) :
    (∃ e, memread r gpa size s = .error e s) ∨
      ∃ val t, memread r gpa size s = .ok val t ∧ t.log = s.log ++ [.read gpa size val] := by
  unfold memread
  split
  · rename_i val dev _
    exact Or.inr ⟨val, _, rfl, rfl⟩
  · rename_i e _
    exact Or.inl ⟨_, rfl⟩

theorem efaultOnly_log : (finalState (efaultOnly x s)).log = (finalState (x s)).log := by
  unfold efaultOnly
  split <;> simp_all [finalState]

end Log

/-! ## The callbacks of each handler -/

section Handlers
variable (r : Region δ) (vm : Vm) (paging : GuestPaging) (gpa : BitVec 64) (vie : Vie) (s : Vcpu δ)

/-- A read, an operation on the value, and a write. -/
theorem readModifyWrite_log {size : Nat} (f : BitVec 64 → BitVec 64) {k : BitVec 64 → EmulM δ PUnit} (hk : ∀ o, Quiet (k o)) :
    let x := memread r gpa size >>= fun o => memwrite r gpa (f o) size >>= fun _ => k o
    (finalState (x s)).log = s.log ∨
      ∃ o, (finalState (x s)).log = s.log ++ [.read gpa size o, .write gpa size (f o)] := by
  intro x
  rcases memread_cases r gpa size s with ⟨e, hread⟩ | ⟨o, t, hread, hlog⟩
  · left
    rw [final_bind_error hread]
  · right
    refine ⟨o, ?_⟩
    rw [final_bind_ok hread, log_bind_quiet fun _ => hk o, memwrite_log, hlog, List.append_assoc]
    rfl

theorem emulateAnd_log (hop : vie.op.opByte = 0x81 ∨ vie.op.opByte = 0x83) :
    (finalState (emulateAnd r gpa vie s)).log = s.log ∨ ∃ o, (finalState (emulateAnd r gpa vie s)).log =
      s.log ++ [.read gpa vie.opsize o, .write gpa vie.opsize (o &&& immediate vie)] := by
  have hne : vie.op.opByte ≠ 0x23 := by
    rcases hop with hop | hop <;> rw [hop] <;> decide
  unfold emulateAnd
  rw [if_neg hne, if_pos hop]
  exact readModifyWrite_log r gpa s (fun o => o &&& immediate vie) fun _ => (quiet_pure _).bind fun _ => quiet_setFlags _ _

theorem emulateOr_log (hop : vie.op.opByte = 0x81 ∨ vie.op.opByte = 0x83) :
    (finalState (emulateOr r gpa vie s)).log = s.log ∨ ∃ o, (finalState (emulateOr r gpa vie s)).log =
      s.log ++ [.read gpa vie.opsize o, .write gpa vie.opsize (o ||| immediate vie)] := by
  unfold emulateOr
  rw [if_pos hop]
  exact readModifyWrite_log r gpa s (fun o => o ||| immediate vie) fun _ => (quiet_pure _).bind fun _ => quiet_setFlags _ _

theorem final_readRegister {α : Type} (reg : VmReg) (f : BitVec 64 → EmulM δ α) :
    finalState ((vieReadRegister reg >>= f) s) = finalState (f (s.regs reg) s) := rfl

theorem emulateStos_log : (finalState (emulateStos r gpa vie s)).log = s.log ∨
    (finalState (emulateStos r gpa vie s)).log = s.log ++ [.write gpa (stringSize vie) (s.regs .rax)] := by
  unfold emulateStos
  rw [final_readRegister]
  split
  · exact Or.inl rfl
  · right
    rw [final_readRegister, log_bind_quiet fun _ => (quiet_advance vie .rdi).bind fun _ => quiet_countDown vie _, memwrite_log]

/-- The pieces of a range are as long as the range. -/
theorem copyLoop_length {look : Nat → Nat → Option Nat} {prot num gla len : Nat} {g u : Guest} {iov : Iov}
    (hlook : ∀ {a n va}, look a n = some va → va = a) (h : copyLoop look vm paging prot num gla len g = .ok iov u) :
    iovLen iov = len := by
  induction num generalizing gla len g iov with
  | zero =>
    cases len with
    | zero =>
      cases h
      rfl
    | succ len => cases h
  | succ num ih =>
    rcases Nat.eq_zero_or_pos len with rfl | hlen
    · cases h
      rfl
    obtain ⟨a, t, rest, -, -, hrest, rfl⟩ := (TaskSwitch.copyLoop_cons hlook hlen).mp h
    rw [iovLen, ih hrest]
    omega

theorem valueOf_lt (bs : List UInt8) : (valueOf bs).toNat < 2 ^ (8 * bs.length) := by
  have hlt : LittleEndian.toNat bs < 256 ^ bs.length := by
    unfold LittleEndian.toNat
    have hdigits := Nat.ofDigits_lt_base_pow_length (b := 256) (l := bs.map UInt8.toNat) (by decide) fun d hd => by
      obtain ⟨b, -, rfl⟩ := List.mem_map.mp hd
      exact b.toNat_lt
    rwa [List.length_map] at hdigits
  unfold valueOf
  rw [BitVec.toNat_ofNat, Nat.pow_mul]
  exact Nat.lt_of_le_of_lt (Nat.mod_le _ _) hlt

/-- A value that is copied in has the size of the operand. -/
theorem copyin_lt {prot gla n : Nat} {g u : Guest} {iov : Iov} (m : Mem)
    (h : vmCopySetup vm paging prot 2 gla n g = .ok iov u) : (valueOf (vmCopyin m iov n)).toNat < 2 ^ (8 * n) := by
  have hlen : iovLen iov = n := copyLoop_length vm paging (fun h => (Option.some.inj h).symm) (vmCopySetup_ok.mp h).1
  have hlt := valueOf_lt (vmCopyin m iov n)
  rwa [TaskSwitch.vmCopyin_length hlen] at hlt

/-- The element at the source address, where that is system memory. -/
def SourceValue (o : BitVec 64) : Prop :=
  ∃ srcaddr t copyinfo u,
    getGla paging (stringSize vie) vie.addrsize ⟨true, false⟩ (sourceSegment vie) .rsi s = .ok srcaddr t ∧
    copySetup vm paging srcaddr (stringSize vie) protRead t = .ok (some copyinfo) u ∧
    o = valueOf (vmCopyin u.guest.mem copyinfo (stringSize vie))

theorem copySetup_some {prot n : Nat} {gla : BitVec 64} {copyinfo : Iov} {u : Vcpu δ}
    (h : copySetup vm paging gla n prot s = .ok (some copyinfo) u) :
    vmCopySetup vm paging prot 2 gla.toNat n s.guest = .ok copyinfo u.guest := by
  unfold copySetup onGuest at h
  split at h
  · rename_i heq
    cases h
    exact heq
  · cases h
  · cases h
  · cases h

theorem SourceValue.lt {o : BitVec 64} (h : SourceValue vm paging vie s o) : o.toNat < 2 ^ (8 * stringSize vie) := by
  obtain ⟨srcaddr, t, copyinfo, u, -, hsetup, rfl⟩ := h
  exact copyin_lt vm paging u.guest.mem (copySetup_some vm paging t hsetup)

/-- The callbacks of an element: the four cases of the source. -/
def MovsLog (log : List Access) : Prop :=
  log = s.log ∨
  (∃ o, SourceValue vm paging vie s o ∧ log = s.log ++ [.write gpa (stringSize vie) o]) ∨
  (∃ g o, log = s.log ++ [.read g (stringSize vie) o]) ∨
  ∃ g g' o, log = s.log ++ [.read g (stringSize vie) o, .write g' (stringSize vie) o]

theorem moveFromMmio_log (n : Nat) (copyinfo : Iov) :
    (finalState (moveFromMmio r gpa n copyinfo s)).log = s.log ∨
      ∃ o, (finalState (moveFromMmio r gpa n copyinfo s)).log = s.log ++ [.read gpa n o] := by
  unfold moveFromMmio
  rcases memread_cases r gpa n s with ⟨e, hread⟩ | ⟨o, t, hread, hlog⟩
  · left
    rw [final_bind_error hread]
  · right
    refine ⟨o, ?_⟩
    rw [final_bind_ok hread, ← hlog]
    rfl

theorem moveMmio_log (n : Nat) (srcaddr dstaddr : BitVec 64) :
    (finalState (moveMmio r vm paging n srcaddr dstaddr s)).log = s.log ∨
      ∃ g g' o, (finalState (moveMmio r vm paging n srcaddr dstaddr s)).log = s.log ++ [.read g n o, .write g' n o] := by
  unfold moveMmio
  refine log_quiet_bind (P := fun log => log = s.log ∨ ∃ g g' o, log = s.log ++ [.read g n o, .write g' n o])
    (quiet_vmGla2gpa vm paging srcaddr protRead) (Or.inl rfl) fun srcgpa t _ ht => ?_
  refine log_quiet_bind (P := fun log => log = s.log ∨ ∃ g g' o, log = s.log ++ [.read g n o, .write g' n o])
    (quiet_vmGla2gpa vm paging dstaddr protWrite) (Or.inl ht) fun dstgpa u _ hu => ?_
  have hlog : u.log = s.log := hu.trans ht
  rcases memread_cases r srcgpa n u with ⟨e, hread⟩ | ⟨o, v, hread, hv⟩
  · left
    rw [final_bind_error hread, hlog]
  · right
    refine ⟨srcgpa, dstgpa, o, ?_⟩
    rw [final_bind_ok hread, memwrite_log, hv, hlog, List.append_assoc]
    rfl

theorem moveElement_log : MovsLog vm paging gpa vie s (finalState (moveElement r vm paging gpa vie s)).log := by
  unfold moveElement
  refine log_quiet_bind (quiet_getGla _ _ _ _ _ _) (Or.inl rfl) fun srcaddr t hsrc ht => ?_
  refine log_quiet_bind (P := MovsLog vm paging gpa vie s) (quiet_onGuest _) (Or.inl ht) fun src u hsetup hu => ?_
  have hlog : u.log = s.log := hu.trans ht
  cases src with
  | some copyinfo =>
    right; left
    refine ⟨_, ⟨srcaddr, t, copyinfo, u, hsrc, hsetup, rfl⟩, ?_⟩
    rw [← hlog]
    exact memwrite_log r gpa _ _ u
  | none =>
    refine log_quiet_bind (P := MovsLog vm paging gpa vie s) (quiet_getGla _ _ _ _ _ _) (Or.inl hlog) fun dstaddr v _ hv => ?_
    refine log_quiet_bind (P := MovsLog vm paging gpa vie s) (quiet_onGuest _) (Or.inl (hv.trans hlog)) fun dst w _ hw => ?_
    have hlog' : w.log = s.log := hw.trans (hv.trans hlog)
    cases dst with
    | some copyinfo =>
      rcases moveFromMmio_log r gpa w (stringSize vie) copyinfo with hnone | ⟨o, hread⟩
      · exact Or.inl (hnone.trans hlog')
      · rw [hlog'] at hread
        exact Or.inr (Or.inr (Or.inl ⟨gpa, o, hread⟩))
    | none =>
      rcases moveMmio_log r vm paging w (stringSize vie) srcaddr dstaddr with hnone | ⟨g, g', o, hboth⟩
      · exact Or.inl (hnone.trans hlog')
      · rw [hlog'] at hboth
        exact Or.inr (Or.inr (Or.inr ⟨g, g', o, hboth⟩))

theorem emulateMovs_log : MovsLog vm paging gpa vie s (finalState (emulateMovs r vm paging gpa vie s)).log := by
  unfold emulateMovs
  rw [efaultOnly_log, final_readRegister]
  split
  · exact Or.inl rfl
  · rw [log_bind_quiet fun _ => (quiet_advance vie .rsi).bind fun _ => (quiet_advance vie .rdi).bind fun _ =>
      quiet_countDown vie _]
    exact moveElement_log r vm paging gpa vie s

end Handlers

/-! ## Stores -/

/-- Opcodes of instructions that store: the moves, group 1 and the string instructions. -/
def storeOpcodes : List UInt8 := [0x88, 0x89, 0xA3, 0xC6, 0xC7, 0x80, 0x81, 0x83, 0xA4, 0xA5, 0xAA, 0xAB]

/-- Of group 1, only `OR` and `AND`. -/
structure IsStore (vie : Vie) : Prop where
  opcode : vie.op.opByte ∈ storeOpcodes
  group1 : vie.op.opByte ∈ ([0x80, 0x81, 0x83] : List UInt8) → vie.reg &&& 7 = 1 ∨ vie.reg &&& 7 = 4

def storeSize (vie : Vie) : Nat :=
  if vie.op.opByte = 0x88 ∨ vie.op.opByte = 0xC6 ∨ vie.op.opByte = 0xA4 ∨ vie.op.opByte = 0xAA then 1 else vie.opsize

/-- What the instruction computes, in 64 bits; `o` is its operand in memory. -/
def architectural (vie : Vie) (regs : VmReg → BitVec 64) (o : BitVec 64) : BitVec 64 :=
  if vie.op.opByte = 0x88 then bytereg vie (regs (vieCalcBytereg vie).1)
  else if vie.op.opByte = 0x89 then regs (gpr vie.reg)
  else if vie.op.opByte = 0xA3 ∨ vie.op.opByte = 0xAA ∨ vie.op.opByte = 0xAB then regs .rax
  else if vie.op.opByte = 0xC6 ∨ vie.op.opByte = 0xC7 then immediate vie
  else if vie.op.opByte = 0x81 ∨ vie.op.opByte = 0x83 then
    (if vie.reg &&& 7 = 1 then o ||| immediate vie else o &&& immediate vie)
  else o

/-- The operand was read from the device or, by `MOVS`, from system memory. -/
def OperandOf (vm : Vm) (paging : GuestPaging) (vie : Vie) (s : Vcpu δ) (made : List Access) (o : BitVec 64) : Prop :=
  vie.op.opByte ∈ [0x81, 0x83, 0xA4, 0xA5] → (∃ g, .read g (storeSize vie) o ∈ made) ∨ SourceValue vm paging vie s o

/-- A value of `n` bytes, and the result cut to them. -/
def Exact (v : BitVec 64) (n : Nat) (result : BitVec 64) : Prop :=
  v.toNat < 2 ^ (8 * n) ∧ v.toNat = result.toNat % 2 ^ (8 * n)

/-- When the value that is stored is exact. -/
def StoreFits (vie : Vie) (regs : VmReg → BitVec 64) (o : BitVec 64) : Prop :=
  if vie.op.opByte = 0x88 ∨ vie.op.opByte = 0x89 ∨ vie.op.opByte = 0xA3 ∨ vie.op.opByte = 0xC7 then True
  else if vie.op.opByte = 0xC6 then 0 ≤ vie.immediate
  else if vie.op.opByte = 0xAA ∨ vie.op.opByte = 0xAB then (regs .rax).toNat < 2 ^ (8 * storeSize vie)
  else if vie.op.opByte = 0xA4 ∨ vie.op.opByte = 0xA5 then o.toNat < 2 ^ (8 * storeSize vie)
  else if vie.reg &&& 7 = 1 then o.toNat < 2 ^ (8 * storeSize vie) ∧ (vie.opsize = 8 ∨ 0 ≤ vie.immediate)
  else o.toNat < 2 ^ (8 * storeSize vie) ∨ 0 ≤ vie.immediate

section Values
variable {v result o : BitVec 64} {n : Nat} {d : Int}

theorem exact_masked (hn : n = 1 ∨ n = 2 ∨ n = 4 ∨ n = 8) : Exact (result &&& size2mask n) n result := by
  unfold Exact
  rw [size2mask_and hn]
  exact ⟨Nat.mod_lt _ (Nat.two_pow_pos _), rfl⟩

theorem exact_whole : Exact v n v ↔ v.toNat < 2 ^ (8 * n) :=
  ⟨fun h => h.1, fun h => ⟨h, (Nat.mod_eq_of_lt h).symm⟩⟩

theorem toNat_ofInt64 (hd : -(2 : Int) ^ 63 ≤ d ∧ d < 2 ^ 63) :
    ((BitVec.ofInt 64 d).toNat : Int) = if 0 ≤ d then d else d + 2 ^ 64 := by
  rw [BitVec.toNat_ofInt]
  split <;> omega

theorem fits_mono {m : Nat} (hmn : m ≤ n) (h : LittleEndian.Fits m d) : LittleEndian.Fits n d := by
  have hpow : (256 : Int) ^ m ≤ 256 ^ n := pow_le_pow_right₀ (by decide) hmn
  obtain ⟨hlow, hhigh⟩ := h
  unfold LittleEndian.Fits
  constructor <;> omega

/-- An immediate of the size of the operand: below the sign it has no bits if it is not negative, else all of them. -/
theorem ofInt_div (hn : n = 1 ∨ n = 2 ∨ n = 4 ∨ n = 8) (h : LittleEndian.Fits n d) :
    (BitVec.ofInt 64 d).toNat / 2 ^ (8 * n) = if 0 ≤ d then 0 else 2 ^ (64 - 8 * n) - 1 := by
  obtain ⟨hlow, hhigh⟩ := h
  have hd : -(2 : Int) ^ 63 ≤ d ∧ d < 2 ^ 63 := by
    rcases hn with rfl | rfl | rfl | rfl <;> constructor <;> omega
  have hval := toNat_ofInt64 hd
  generalize (BitVec.ofInt 64 d).toNat = x at hval ⊢
  by_cases hpos : 0 ≤ d
  · rw [if_pos hpos] at hval ⊢
    rcases hn with rfl | rfl | rfl | rfl <;> omega
  · rw [if_neg hpos] at hval ⊢
    rcases hn with rfl | rfl | rfl | rfl <;> omega

theorem lt_iff_div (x k : Nat) : x < 2 ^ k ↔ x / 2 ^ k = 0 := by
  rw [Nat.div_eq_zero_iff_lt (Nat.two_pow_pos k)]

theorem or_fits (hn : n = 1 ∨ n = 2 ∨ n = 4 ∨ n = 8) (h : LittleEndian.Fits n d) :
    (o ||| BitVec.ofInt 64 d).toNat < 2 ^ (8 * n) ↔ o.toNat < 2 ^ (8 * n) ∧ (n = 8 ∨ 0 ≤ d) := by
  have himm : (BitVec.ofInt 64 d).toNat < 2 ^ (8 * n) ↔ n = 8 ∨ 0 ≤ d := by
    rw [lt_iff_div, ofInt_div hn h]
    by_cases hpos : 0 ≤ d
    · simp [hpos]
    · rw [if_neg hpos]
      rcases hn with rfl | rfl | rfl | rfl <;> simp [hpos]
  rw [← himm, BitVec.toNat_or]
  constructor
  · intro hor
    exact ⟨Nat.lt_of_le_of_lt Nat.left_le_or hor, Nat.lt_of_le_of_lt Nat.right_le_or hor⟩
  · exact fun ⟨ho, hi⟩ => Nat.or_lt_two_pow ho hi

theorem and_fits (hn : n = 1 ∨ n = 2 ∨ n = 4 ∨ n = 8) (h : LittleEndian.Fits n d) :
    (o &&& BitVec.ofInt 64 d).toNat < 2 ^ (8 * n) ↔ o.toNat < 2 ^ (8 * n) ∨ 0 ≤ d := by
  have hand : (o &&& BitVec.ofInt 64 d).toNat / 2 ^ (8 * n) =
      o.toNat / 2 ^ (8 * n) &&& (BitVec.ofInt 64 d).toNat / 2 ^ (8 * n) := by
    rw [BitVec.toNat_and, Nat.and_div_two_pow]
  rw [lt_iff_div, lt_iff_div, hand, ofInt_div hn h]
  by_cases hpos : 0 ≤ d
  · simp [hpos]
  · have hlt : o.toNat / 2 ^ (8 * n) < 2 ^ (64 - 8 * n) := by
      have := o.isLt
      rcases hn with rfl | rfl | rfl | rfl <;> omega
    rw [if_neg hpos, Nat.and_two_pow_sub_one_eq_mod, Nat.mod_eq_of_lt hlt]
    simp [hpos]

end Values

section Stores
variable {r : Region δ} {vm : Vm} {paging : GuestPaging} {gpa : BitVec 64} {vie : Vie} {s : Vcpu δ} {g v : BitVec 64} {n : Nat}

/-- The byte is the one that was looked up, or 0 where there is no entry. -/
theorem ite_byte {x : UInt8} {c : Prop} [Decidable c] {t : OpType} {f : Decode.OpFlags} {op : VieOp}
    (h : op.opByte = x ∨ op.opByte = 0) :
    (if c then ⟨x, t, f⟩ else op : VieOp).opByte = x ∨ (if c then ⟨x, t, f⟩ else op : VieOp).opByte = 0 := by
  by_cases hc : c
  · rw [if_pos hc]
    exact Or.inl rfl
  · rw [if_neg hc]
    exact h

theorem oneByteOpcodes_byte (x : UInt8) : (oneByteOpcodes x).opByte = x ∨ (oneByteOpcodes x).opByte = 0 := by
  unfold oneByteOpcodes
  iterate 21 refine ite_byte ?_
  exact Or.inr rfl

theorem twoByteOpcodes_byte (x : UInt8) : (twoByteOpcodes x).opByte ∉ storeOpcodes := by
  unfold twoByteOpcodes
  split_ifs with h1 h2 h3 h4
  · rw [h1]
    decide
  · rw [h2]
    decide
  · rw [h3]
    decide
  · rw [h4]
    decide
  · decide

/-- The opcode byte of a store names its entry in the table. -/
theorem store_op (htable : ∃ x, vie.op = oneByteOpcodes x ∨ vie.op = twoByteOpcodes x) (hstore : vie.op.opByte ∈ storeOpcodes) :
    vie.op = oneByteOpcodes vie.op.opByte := by
  obtain ⟨x, hop | hop⟩ := htable
  · rcases oneByteOpcodes_byte x with hx | hx
    · rw [hop, hx]
    · rw [hop, hx] at hstore
      exact absurd hstore (by decide)
  · rw [hop] at hstore
    exact absurd hstore (twoByteOpcodes_byte x)

/-- What is known of a store that was made. -/
def StoreMade (vm : Vm) (paging : GuestPaging) (vie : Vie) (s : Vcpu δ) (made : List Access) (n : Nat) (v : BitVec 64) : Prop :=
  ∃ o, OperandOf vm paging vie s made o ∧ n = storeSize vie ∧
    (Exact v n (architectural vie s.regs o) ↔ StoreFits vie s.regs o)

/-- A handler that makes one write, of a value without an operand in memory. -/
theorem storeMade_one {log : List Access} {w : BitVec 64} {k : Nat} (hlog : log = s.log ++ [.write gpa k w])
    (hop : vie.op.opByte ∉ ([0x81, 0x83, 0xA4, 0xA5] : List UInt8)) (hsize : k = storeSize vie)
    (hexact : Exact w k (architectural vie s.regs 0) ↔ StoreFits vie s.regs 0)
    (h : .write g n v ∈ log.drop s.log.length) : StoreMade vm paging vie s (log.drop s.log.length) n v := by
  rw [hlog, List.drop_left, List.mem_singleton] at h
  cases h
  exact ⟨0, fun hmem => absurd hmem hop, hsize, hexact⟩

/-- The moves that store: the value is cut, apart from an immediate byte. -/
theorem mov_store (hop : Decode.Operation paging.cpuMode vie)
    (hb : vie.op.opByte ∈ ([0x88, 0x89, 0xA3, 0xC6, 0xC7] : List UInt8))
    (himm : vie.op.opByte = 0xC6 → LittleEndian.Fits 1 vie.immediate)
    (h : .write g n v ∈ (finalState (emulateMov r gpa vie s)).log.drop s.log.length) :
    StoreMade vm paging vie s ((finalState (emulateMov r gpa vie s)).log.drop s.log.length) n v := by
  have hopsize : vie.opsize = 1 ∨ vie.opsize = 2 ∨ vie.opsize = 4 ∨ vie.opsize = 8 := Or.inr hop.opsize
  simp only [List.mem_cons, List.not_mem_nil, or_false] at hb
  have hlog := memwrite_log r gpa
  rcases hb with hb | hb | hb | hb | hb
  · have hmade : (finalState (emulateMov r gpa vie s)).log =
        s.log ++ [.write gpa 1 (bytereg vie (s.regs (vieCalcBytereg vie).1))] := by
      unfold emulateMov
      rw [if_pos hb]
      exact hlog _ 1 s
    refine storeMade_one hmade (by rw [hb]; decide) (by simp [storeSize, hb]) ?_ h
    have hfits : StoreFits vie s.regs 0 := by simp [StoreFits, hb]
    have hresult : architectural vie s.regs 0 = bytereg vie (s.regs (vieCalcBytereg vie).1) := by simp [architectural, hb]
    have hbyte : (bytereg vie (s.regs (vieCalcBytereg vie).1)).toNat < 2 ^ (8 * 1) := by
      unfold bytereg
      rw [BitVec.toNat_and]
      exact Nat.lt_of_le_of_lt Nat.and_le_right (by decide)
    rw [hresult]
    exact iff_of_true (exact_whole.mpr hbyte) hfits
  · have hmade : (finalState (emulateMov r gpa vie s)).log =
        s.log ++ [.write gpa vie.opsize (s.regs (gpr vie.reg) &&& size2mask vie.opsize)] := by
      unfold emulateMov
      rw [if_neg (by rw [hb]; decide), if_pos hb]
      exact hlog _ vie.opsize s
    refine storeMade_one hmade (by rw [hb]; decide) (by simp [storeSize, hb]) ?_ h
    have hfits : StoreFits vie s.regs 0 := by simp [StoreFits, hb]
    have hresult : architectural vie s.regs 0 = s.regs (gpr vie.reg) := by simp [architectural, hb]
    rw [hresult]
    exact iff_of_true (exact_masked hopsize) hfits
  · have hmade : (finalState (emulateMov r gpa vie s)).log =
        s.log ++ [.write gpa vie.opsize (s.regs .rax &&& size2mask vie.opsize)] := by
      unfold emulateMov
      rw [if_neg (by rw [hb]; decide), if_neg (by rw [hb]; decide), if_neg (by rw [hb]; decide), if_neg (by rw [hb]; decide),
        if_neg (by rw [hb]; decide), if_pos hb]
      exact hlog _ vie.opsize s
    refine storeMade_one hmade (by rw [hb]; decide) (by simp [storeSize, hb]) ?_ h
    have hfits : StoreFits vie s.regs 0 := by simp [StoreFits, hb]
    have hresult : architectural vie s.regs 0 = s.regs .rax := by simp [architectural, hb]
    rw [hresult]
    exact iff_of_true (exact_masked hopsize) hfits
  · have hmade : (finalState (emulateMov r gpa vie s)).log = s.log ++ [.write gpa 1 (immediate vie)] := by
      unfold emulateMov
      rw [if_neg (by rw [hb]; decide), if_neg (by rw [hb]; decide), if_neg (by rw [hb]; decide), if_neg (by rw [hb]; decide),
        if_neg (by rw [hb]; decide), if_neg (by rw [hb]; decide), if_pos hb]
      exact hlog _ 1 s
    refine storeMade_one hmade (by rw [hb]; decide) (by simp [storeSize, hb]) ?_ h
    have hfits : StoreFits vie s.regs 0 ↔ 0 ≤ vie.immediate := by simp [StoreFits, hb]
    have hresult : architectural vie s.regs 0 = immediate vie := by simp [architectural, hb]
    have hbyte := or_fits (o := 0) (Or.inl rfl) (himm hb)
    rw [hresult, hfits, exact_whole]
    simpa [immediate] using hbyte
  · have hmade : (finalState (emulateMov r gpa vie s)).log =
        s.log ++ [.write gpa vie.opsize (immediate vie &&& size2mask vie.opsize)] := by
      unfold emulateMov
      rw [if_neg (by rw [hb]; decide), if_neg (by rw [hb]; decide), if_neg (by rw [hb]; decide), if_neg (by rw [hb]; decide),
        if_neg (by rw [hb]; decide), if_neg (by rw [hb]; decide), if_neg (by rw [hb]; decide), if_pos hb]
      exact hlog _ vie.opsize s
    refine storeMade_one hmade (by rw [hb]; decide) (by simp [storeSize, hb]) ?_ h
    have hfits : StoreFits vie s.regs 0 := by simp [StoreFits, hb]
    have hresult : architectural vie s.regs 0 = immediate vie := by simp [architectural, hb]
    rw [hresult]
    exact iff_of_true (exact_masked hopsize) hfits

/-- `OR` and `AND` with an immediate: the result is stored as it is. -/
theorem group1_store (hop : Decode.Operation paging.cpuMode vie) (hb : vie.op.opByte = 0x81 ∨ vie.op.opByte = 0x83)
    (hreg : vie.reg &&& 7 = 1 ∨ vie.reg &&& 7 = 4) (himm : LittleEndian.Fits vie.opsize vie.immediate)
    (h : .write g n v ∈ (finalState (emulateGroup1 r gpa vie s)).log.drop s.log.length) :
    StoreMade vm paging vie s ((finalState (emulateGroup1 r gpa vie s)).log.drop s.log.length) n v := by
  have hopsize : vie.opsize = 1 ∨ vie.opsize = 2 ∨ vie.opsize = 4 ∨ vie.opsize = 8 := Or.inr hop.opsize
  have hsize : storeSize vie = vie.opsize := by rcases hb with hb | hb <;> simp [storeSize, hb]
  rcases hreg with hreg | hreg
  · have hrun : emulateGroup1 r gpa vie s = emulateOr r gpa vie s := by
      unfold emulateGroup1
      rw [if_pos hreg]
    rw [hrun] at h ⊢
    rcases emulateOr_log r gpa vie s hb with hlog | ⟨o, hlog⟩
    · rw [hlog, List.drop_length] at h
      cases h
    · rw [hlog, List.drop_left] at h ⊢
      simp only [List.mem_cons, reduceCtorEq, List.not_mem_nil, or_false, false_or, Access.write.injEq] at h
      obtain ⟨rfl, rfl, rfl⟩ := h
      refine ⟨o, fun _ => Or.inl ⟨g, by simp [hsize]⟩, hsize.symm, ?_⟩
      have hresult : architectural vie s.regs o = o ||| immediate vie := by
        rcases hb with hb | hb <;> simp [architectural, hb, hreg]
      have hfits : StoreFits vie s.regs o ↔ o.toNat < 2 ^ (8 * vie.opsize) ∧ (vie.opsize = 8 ∨ 0 ≤ vie.immediate) := by
        rcases hb with hb | hb <;> simp [StoreFits, hb, hreg, hsize]
      rw [hresult, hfits, exact_whole]
      exact or_fits hopsize himm
  · have hrun : emulateGroup1 r gpa vie s = emulateAnd r gpa vie s := by
      unfold emulateGroup1
      rw [if_neg (by omega), if_pos hreg]
    rw [hrun] at h ⊢
    rcases emulateAnd_log r gpa vie s hb with hlog | ⟨o, hlog⟩
    · rw [hlog, List.drop_length] at h
      cases h
    · rw [hlog, List.drop_left] at h ⊢
      simp only [List.mem_cons, reduceCtorEq, List.not_mem_nil, or_false, false_or, Access.write.injEq] at h
      obtain ⟨rfl, rfl, rfl⟩ := h
      refine ⟨o, fun _ => Or.inl ⟨g, by simp [hsize]⟩, hsize.symm, ?_⟩
      have hresult : architectural vie s.regs o = o &&& immediate vie := by
        rcases hb with hb | hb <;> simp [architectural, hb, hreg]
      have hfits : StoreFits vie s.regs o ↔ o.toNat < 2 ^ (8 * vie.opsize) ∨ 0 ≤ vie.immediate := by
        rcases hb with hb | hb <;> simp [StoreFits, hb, hreg, hsize]
      rw [hresult, hfits, exact_whole]
      exact and_fits hopsize himm

/-- The byte forms of group 1 are not emulated. -/
theorem group1_byte_log (hb : vie.op.opByte = 0x80) (hreg : vie.reg &&& 7 = 1 ∨ vie.reg &&& 7 = 4) :
    (finalState (emulateGroup1 r gpa vie s)).log = s.log := by
  have hne : ¬ (vie.op.opByte = 0x81 ∨ vie.op.opByte = 0x83) := by
    rw [hb]
    decide
  rcases hreg with hreg | hreg
  · have hrun : emulateGroup1 r gpa vie s = emulateOr r gpa vie s := by
      unfold emulateGroup1
      rw [if_pos hreg]
    rw [hrun]
    unfold emulateOr
    rw [if_neg hne]
    rfl
  · have hrun : emulateGroup1 r gpa vie s = emulateAnd r gpa vie s := by
      unfold emulateGroup1
      rw [if_neg (by omega), if_pos hreg]
    rw [hrun]
    unfold emulateAnd
    rw [if_neg (by rw [hb]; decide), if_neg hne]
    rfl

theorem stos_store (hb : vie.op.opByte = 0xAA ∨ vie.op.opByte = 0xAB)
    (h : .write g n v ∈ (finalState (emulateStos r gpa vie s)).log.drop s.log.length) :
    StoreMade vm paging vie s ((finalState (emulateStos r gpa vie s)).log.drop s.log.length) n v := by
  have hsize : stringSize vie = storeSize vie := by rcases hb with hb | hb <;> simp [storeSize, stringSize, hb]
  rcases emulateStos_log r gpa vie s with hlog | hlog
  · rw [hlog, List.drop_length] at h
    cases h
  · refine storeMade_one hlog (by rcases hb with hb | hb <;> rw [hb] <;> decide) hsize ?_ h
    have hresult : architectural vie s.regs 0 = s.regs .rax := by rcases hb with hb | hb <;> simp [architectural, hb]
    have hfits : StoreFits vie s.regs 0 ↔ (s.regs .rax).toNat < 2 ^ (8 * storeSize vie) := by
      rcases hb with hb | hb <;> simp [StoreFits, hb]
    rw [hresult, hfits, exact_whole, hsize]

theorem movs_store (hb : vie.op.opByte = 0xA4 ∨ vie.op.opByte = 0xA5)
    (h : .write g n v ∈ (finalState (emulateMovs r vm paging gpa vie s)).log.drop s.log.length) :
    StoreMade vm paging vie s ((finalState (emulateMovs r vm paging gpa vie s)).log.drop s.log.length) n v := by
  have hsize : stringSize vie = storeSize vie := by rcases hb with hb | hb <;> simp [storeSize, stringSize, hb]
  have hresult : ∀ o, architectural vie s.regs o = o := by
    intro o
    rcases hb with hb | hb <;> simp [architectural, hb]
  have hfits : ∀ o, StoreFits vie s.regs o ↔ o.toNat < 2 ^ (8 * storeSize vie) := by
    intro o
    rcases hb with hb | hb <;> simp [StoreFits, hb]
  rcases emulateMovs_log r vm paging gpa vie s with hlog | ⟨o, hsource, hlog⟩ | ⟨g', o, hlog⟩ | ⟨g', g'', o, hlog⟩
  · rw [hlog, List.drop_length] at h
    cases h
  · rw [hlog, List.drop_left] at h ⊢
    rw [List.mem_singleton] at h
    cases h
    exact ⟨v, fun _ => Or.inr hsource, hsize, by rw [hresult, hfits, exact_whole, hsize]⟩
  · rw [hlog, List.drop_left, List.mem_singleton] at h
    cases h
  · rw [hlog, List.drop_left] at h ⊢
    simp only [List.mem_cons, reduceCtorEq, List.not_mem_nil, or_false, false_or, Access.write.injEq] at h
    obtain ⟨rfl, rfl, rfl⟩ := h
    exact ⟨v, fun _ => Or.inl ⟨g', by simp [hsize]⟩, hsize, by rw [hresult, hfits, exact_whole, hsize]⟩

end Stores

/-- Every value that a store passes to a device has the size of the operand and is what the instruction computes, cut to
that size, exactly when it fits: a byte immediate that is not negative, `OR` and `AND` of a device value that has the
size with an immediate that has no sign to extend, `STOS` of a register without higher bits, `MOVS` of a device value
that has the size; the other moves always. -/
theorem stored_values_exact (r : Region δ) (vm : Vm) (paging : GuestPaging) (gpa : BitVec 64)
    (vmGetRegister : VmReg → Option Nat) (gla : Nat) (csD : Bool) (inst : List UInt8) (vie : Vie) (s : Vcpu δ)
    (hdecode : Decode.vmmDecodeInstruction vmGetRegister gla paging.cpuMode csD (Decode.vieInit inst) = some vie)
    (hstore : IsStore vie) :
    let made := (finalState (vmmEmulateInstruction r vm paging gpa vie s)).log.drop s.log.length
    ∀ g n v, .write g n v ∈ made → StoreMade vm paging vie s made n v := by
  intro made g n v hwrite
  obtain ⟨f, hf, -, -, hvie⟩ := Decode.vmmDecodeInstruction_ok.mp hdecode
  have hoperation : Decode.Operation paging.cpuMode vie := by
    rw [hvie]
    obtain ⟨hop, hopsize, haddrsize, himm⟩ := Decode.decodeFields_operation hf
    exact ⟨hop, hopsize, haddrsize, himm⟩
  have hop := store_op hoperation.op hstore.opcode
  have hdecoded : vie.decoded = true := by rw [hvie]
  have htype : ∀ b : UInt8, vie.op.opByte = b → vie.op.opType = (oneByteOpcodes b).opType := by
    intro b hb
    rw [hop, hb]
  have hflags : ∀ b : UInt8, vie.op.opByte = b → vie.op.opFlags = (oneByteOpcodes b).opFlags := by
    intro b hb
    rw [hop, hb]
  have hclass : vie.op.opByte ∈ ([0x88, 0x89, 0xA3, 0xC6, 0xC7] : List UInt8) ∨
      vie.op.opByte = 0x80 ∨ (vie.op.opByte = 0x81 ∨ vie.op.opByte = 0x83) ∨ (vie.op.opByte = 0xA4 ∨ vie.op.opByte = 0xA5) ∨
      (vie.op.opByte = 0xAA ∨ vie.op.opByte = 0xAB) := by
    have hopcode := hstore.opcode
    simp only [storeOpcodes, List.mem_cons, List.not_mem_nil, or_false] at hopcode ⊢
    tauto
  rcases hclass with hb | hb | hb | hb | hb
  · have hmov : vie.op.opType = .mov := by
      simp only [List.mem_cons, List.not_mem_nil, or_false] at hb
      rcases hb with hb | hb | hb | hb | hb <;> exact (htype _ hb).trans (by decide)
    have hrun : vmmEmulateInstruction r vm paging gpa vie = emulateMov r gpa vie := by
      unfold vmmEmulateInstruction
      rw [hdecoded, if_neg (by decide), hmov]
    have himm : vie.op.opByte = 0xC6 → LittleEndian.Fits 1 vie.immediate := by
      intro hc6
      have hflag : vie.op.opFlags = .withImm8 := (hflags _ hc6).trans (by decide)
      have hfits := hoperation.immediate (by rw [hflag]; exact Or.inr rfl)
      unfold immediateSize at hfits
      rwa [hflag] at hfits
    have hmade : made = (finalState (emulateMov r gpa vie s)).log.drop s.log.length := by rw [← hrun]
    rw [hmade] at hwrite ⊢
    exact mov_store hoperation hb himm hwrite
  · have hgroup : vie.op.opType = .group1 := (htype _ hb).trans (by decide)
    have hrun : vmmEmulateInstruction r vm paging gpa vie = emulateGroup1 r gpa vie := by
      unfold vmmEmulateInstruction
      rw [hdecoded, if_neg (by decide), hgroup]
    have hmade : made = (finalState (emulateGroup1 r gpa vie s)).log.drop s.log.length := by rw [← hrun]
    rw [hmade, group1_byte_log hb (hstore.group1 (by rw [hb]; decide)), List.drop_length] at hwrite
    cases hwrite
  · have hgroup : vie.op.opType = .group1 := by
      rcases hb with hb | hb <;> exact (htype _ hb).trans (by decide)
    have hrun : vmmEmulateInstruction r vm paging gpa vie = emulateGroup1 r gpa vie := by
      unfold vmmEmulateInstruction
      rw [hdecoded, if_neg (by decide), hgroup]
    have himm : LittleEndian.Fits vie.opsize vie.immediate := by
      have hopsize := hoperation.opsize
      rcases hb with hb | hb
      · have hflag : vie.op.opFlags = .withImm := (hflags _ hb).trans (by decide)
        have hfits := hoperation.immediate (by rw [hflag]; exact Or.inl rfl)
        refine fits_mono ?_ hfits
        unfold immediateSize
        rw [hflag, if_pos (by decide)]
        split <;> omega
      · have hflag : vie.op.opFlags = .withImm8 := (hflags _ hb).trans (by decide)
        have hfits := hoperation.immediate (by rw [hflag]; exact Or.inr rfl)
        refine fits_mono ?_ hfits
        unfold immediateSize
        rw [hflag, if_neg (by decide), if_pos (by decide)]
        omega
    have hmade : made = (finalState (emulateGroup1 r gpa vie s)).log.drop s.log.length := by rw [← hrun]
    rw [hmade] at hwrite ⊢
    exact group1_store hoperation hb (hstore.group1 (by rcases hb with hb | hb <;> rw [hb] <;> decide)) himm hwrite
  · have hmovs : vie.op.opType = .movs := by
      rcases hb with hb | hb <;> exact (htype _ hb).trans (by decide)
    have hrun : vmmEmulateInstruction r vm paging gpa vie = emulateMovs r vm paging gpa vie := by
      unfold vmmEmulateInstruction
      rw [hdecoded, if_neg (by decide), hmovs]
    have hmade : made = (finalState (emulateMovs r vm paging gpa vie s)).log.drop s.log.length := by rw [← hrun]
    rw [hmade] at hwrite ⊢
    exact movs_store hb hwrite
  · have hstos : vie.op.opType = .stos := by
      rcases hb with hb | hb <;> exact (htype _ hb).trans (by decide)
    have hrun : vmmEmulateInstruction r vm paging gpa vie = emulateStos r gpa vie := by
      unfold vmmEmulateInstruction
      rw [hdecoded, if_neg (by decide), hstos]
    have hmade : made = (finalState (emulateStos r gpa vie s)).log.drop s.log.length := by rw [← hrun]
    rw [hmade] at hwrite ⊢
    exact stos_store hb hwrite

/-- A device that takes everything and reads as zero. -/
def nullRegion : Region Unit where
  memread _ _ _ := .ok (0, ())
  memwrite _ _ _ _ := .ok ()

/-- A 32-bit guest whose registers all hold the same value. -/
def plainVcpu (val : BitVec 64) : Vcpu Unit where
  guest := TaskSwitch.guestWith ⟨0, 0, .protectedMode, .flat⟩ []
  regs _ := val
  segs _ := ⟨0, 0xffffffff, 0xc093⟩
  nextrip := 0
  dev := ()
  log := []

/-- The decoded instruction, or nothing decoded. -/
def decodeFlat (gla : Nat) (inst : List UInt8) : Vie :=
  (Decode.vmmDecodeInstruction (fun _ => some gla) gla .protectedMode true (Decode.vieInit inst)).getD (Decode.vieInit [])

/-- `mov dword [eax], -1` stores 32 bits. -/
theorem stored_values_exact_imm32 :
    (finalState (vmmEmulateInstruction nullRegion TaskSwitch.smallRam.vm ⟨0, 0, .protectedMode, .flat⟩ 0xfec00000
      (decodeFlat 0xfec00000 [0xC7, 0x00, 0xff, 0xff, 0xff, 0xff]) (plainVcpu 0xfec00000))).log =
      [.write 0xfec00000 4 0xffffffff] ∧
    StoreMade TaskSwitch.smallRam.vm ⟨0, 0, .protectedMode, .flat⟩ (decodeFlat 0xfec00000 [0xC7, 0x00, 0xff, 0xff, 0xff, 0xff])
      (plainVcpu 0xfec00000) [.write 0xfec00000 4 0xffffffff] 4 0xffffffff := by
  have hlog : (finalState (vmmEmulateInstruction nullRegion TaskSwitch.smallRam.vm ⟨0, 0, .protectedMode, .flat⟩ 0xfec00000
      (decodeFlat 0xfec00000 [0xC7, 0x00, 0xff, 0xff, 0xff, 0xff]) (plainVcpu 0xfec00000))).log =
      [.write 0xfec00000 4 0xffffffff] := by
    decide +kernel
  refine ⟨hlog, ?_⟩
  have hexact := stored_values_exact nullRegion TaskSwitch.smallRam.vm ⟨0, 0, .protectedMode, .flat⟩ 0xfec00000
    (fun _ => some 0xfec00000) 0xfec00000 true [0xC7, 0x00, 0xff, 0xff, 0xff, 0xff]
    (decodeFlat 0xfec00000 [0xC7, 0x00, 0xff, 0xff, 0xff, 0xff]) (plainVcpu 0xfec00000) (by decide +kernel)
    ⟨by decide +kernel, by decide +kernel⟩
  simp only [hlog] at hexact
  exact hexact 0xfec00000 4 0xffffffff (by decide)

/-- `mov byte [eax], -1` stores 64 bits. -/
theorem stored_value_not_exact : ∃ v, .write 0xfec00000 1 v ∈ (finalState (vmmEmulateInstruction nullRegion
      TaskSwitch.smallRam.vm ⟨0, 0, .protectedMode, .flat⟩ 0xfec00000 (decodeFlat 0xfec00000 [0xC6, 0x00, 0xff])
      (plainVcpu 0xfec00000))).log ∧
    ¬ Exact v 1 (architectural (decodeFlat 0xfec00000 [0xC6, 0x00, 0xff]) (plainVcpu 0xfec00000).regs 0) := by
  refine ⟨0xffffffffffffffff, by decide +kernel, ?_⟩
  rintro ⟨hlt, -⟩
  exact absurd hlt (by decide)

end Xhyve.Vmm.Emulate
