import Xhyve.Lib.BitFlags
import Xhyve.Lib.Transition
import Mathlib.Tactic

/-!
# Long mode in the VMCS

Whether the guest is in long mode is recorded four times: in CR0.PG and EFER.LME, from which it
follows, in EFER.LMA, in the "IA-32e mode guest" control of the VM entry, and for CR0 in the
value the guest reads back. Writes to CR0 and to EFER exit, and each handler updates some of these.
`vmx_setreg` keeps EFER.LMA and the control equal, and `vmx_emulate_cr0_access` sets both when
paging is turned on; nothing clears them when it is turned off, and a guest's value for EFER is
stored as it is.
-/

namespace Xhyve.Vmm.LongMode

open Xhyve.Lib

abbrev Word := BitVec 64

def cr0Pe : Word := 0x00000001
def cr0Et : Word := 0x00000010
def cr0Ne : Word := 0x00000020
def cr0Nw : Word := 0x20000000
def cr0Cd : Word := 0x40000000
def cr0Pg : Word := 0x80000000
def cr4Pae : Word := 0x00000020
def eferSce : Word := 0x001
def eferLme : Word := 0x100
def eferLma : Word := 0x400
def eferNxe : Word := 0x800
def vmEntryGuestLma : Word := 0x200
def vmEntryLoadEfer : Word := 0x8000
/-- CS.L in the access rights. -/
def csL : Word := 0x2000

def cr0OnesMask : Word := cr0Ne ||| cr0Et
def cr0ZerosMask : Word := cr0Nw ||| cr0Cd
def cr4OnesMask : Word := 0x2000
def cr4ZerosMask : Word := 0

structure Vmcs where
  guestCr0 : Word
  cr0Mask : Word
  cr0Shadow : Word
  guestCr4 : Word
  cr4Shadow : Word
  guestIa32Efer : Word
  entryCtls : Word
  guestCsAccessRights : Word
deriving DecidableEq, Repr

def vmxFixCr0 (cr0 : Word) : Word := (cr0 ||| cr0OnesMask) &&& ~~~cr0ZerosMask
def vmxFixCr4 (cr4 : Word) : Word := (cr4 ||| cr4OnesMask) &&& ~~~cr4ZerosMask

/-! ## Reset -/

/-- The bits of CR0 the host owns. -/
def cr0HostMask : Word := (cr0OnesMask ||| cr0ZerosMask) ||| (cr0Pg ||| cr0Pe)

/-- `vmx_setup_cr0_shadow` and `vmx_setup_cr4_shadow`; CR4's mask is left out. -/
def vmxSetupCrShadows (v : Vmcs) : Vmcs :=
  { v with
    cr0Mask := cr0HostMask
    cr0Shadow := 0x60000010
    cr4Shadow := 0 }

inductive Reg
  | cr0 | cr4 | efer
deriving DecidableEq, Repr

/-- `vmx_setreg`, for the registers kept here. -/
def vmxSetreg (v : Vmcs) (reg : Reg) (val : Word) : Vmcs :=
  match reg with
  | .cr0 => { v with guestCr0 := vmxFixCr0 val, cr0Shadow := val }
  | .cr4 => { v with guestCr4 := vmxFixCr4 val, cr4Shadow := val }
  | .efer =>
    let v := { v with guestIa32Efer := val }
    if v.entryCtls &&& vmEntryLoadEfer ≠ 0 then
      if val &&& eferLma ≠ 0 then { v with entryCtls := v.entryCtls ||| vmEntryGuestLma }
      else { v with entryCtls := v.entryCtls &&& ~~~vmEntryGuestLma }
    else v

/-- The entry controls the host allows, `VM_ENTRY_GUEST_LMA` off, and EFER zero. -/
structure Created (v : Vmcs) : Prop where
  entryCtls : v.entryCtls &&& vmEntryGuestLma = 0
  efer : v.guestIa32Efer = 0

/-- `xh_vcpu_reset` of a vCPU whose shadows `vmx_vcpu_init` has set up. -/
def xhVcpuReset (v : Vmcs) : Vmcs :=
  let v := vmxSetreg (vmxSetreg (vmxSetupCrShadows v) .cr0 cr0Ne) .cr4 0
  { v with guestCsAccessRights := 0x0093 }

/-! ## The guest's writes -/

/-- What the guest reads from CR0. -/
def readCr0 (v : Vmcs) : Word := (v.cr0Shadow &&& v.cr0Mask) ||| (v.guestCr0 &&& ~~~v.cr0Mask)

/-- `none` for an access that is not handled. -/
def vmxEmulateCr0Access (v : Vmcs) (exitqual : Word) (regs : Nat → Word) : Option Vmcs :=
  if exitqual &&& 0xf0 ≠ 0 then none
  else
    let regval := regs ((exitqual >>> 8) &&& 0xf).toNat
    let v := { v with
      cr0Shadow := regval
      guestCr0 := (regval ||| cr0OnesMask) &&& ~~~cr0ZerosMask }
    if regval &&& cr0Pg ≠ 0 then
      if v.guestIa32Efer &&& eferLme ≠ 0 then
        some { v with
          guestIa32Efer := v.guestIa32Efer ||| eferLma
          entryCtls := v.entryCtls ||| vmEntryGuestLma }
      else some v
    else some v

/-- `vmx_wrmsr` of `MSR_EFER`. -/
def vmxWrmsrEfer (v : Vmcs) (val : Word) : Vmcs := { v with guestIa32Efer := val }

inductive CpuMode
  | real | prot | compatibility | mode64
deriving DecidableEq, Repr

inductive PagingMode
  | flat | mode32 | pae | mode64
deriving DecidableEq, Repr

def vmxCpuMode (v : Vmcs) : CpuMode :=
  if v.guestIa32Efer &&& eferLma ≠ 0 then
    if v.guestCsAccessRights &&& csL ≠ 0 then .mode64 else .compatibility
  else if v.guestCr0 &&& cr0Pe ≠ 0 then .prot
  else .real

def vmxPagingMode (v : Vmcs) : PagingMode :=
  if v.guestCr0 &&& cr0Pg = 0 then .flat
  else if v.guestCr4 &&& cr4Pae = 0 then .mode32
  else if v.guestIa32Efer &&& eferLme ≠ 0 then .mode64
  else .pae

/-! ## Runs -/

/-- The VMCS and the value the guest last gave CR0. -/
structure State where
  vmcs : Vmcs
  written : Word
deriving DecidableEq, Repr

inductive Op
  /-- A MOV to CR0 that exits, from one of the guest's registers. -/
  | movToCr0 (reg : BitVec 4) (regs : Nat → Word)
  /-- A MOV to CR0 that exits not, since no bit the host owns differs from the shadow. -/
  | movToCr0Direct (val : Word)
  | wrmsrEfer (val : Word)
  /-- The guest loads CR4 and CS. -/
  | load (cr4 cs : Word)

/-- The exit qualification of a MOV from a register to CR0. -/
def movQual (reg : BitVec 4) : Word := reg.zeroExtend 64 <<< 8

def apply (s : State) : Op → State
  | .movToCr0 reg regs =>
    match vmxEmulateCr0Access s.vmcs (movQual reg) regs with
    | some v => ⟨v, regs reg.toNat⟩
    | none => s
  | .movToCr0Direct val =>
    ⟨{ s.vmcs with
      guestCr0 := (s.vmcs.guestCr0 &&& s.vmcs.cr0Mask) ||| (val &&& ~~~s.vmcs.cr0Mask) }, val⟩
  | .wrmsrEfer val => { s with vmcs := vmxWrmsrEfer s.vmcs val }
  | .load cr4 cs =>
    { s with vmcs := { s.vmcs with guestCr4 := vmxFixCr4 cr4, guestCsAccessRights := cs } }

/-- A value the architecture accepts for CR0, written while the rest is as in `v`. -/
structure LegalCr0 (v : Vmcs) (val : Word) : Prop where
  upper : val >>> 32 = 0
  paging : val &&& cr0Pg ≠ 0 → val &&& cr0Pe ≠ 0
  caching : val &&& cr0Nw ≠ 0 → val &&& cr0Cd ≠ 0
  /-- Long mode is entered with PAE on and from a segment that is not 64-bit, -/
  enter : v.guestCr0 &&& cr0Pg = 0 → val &&& cr0Pg ≠ 0 → v.guestIa32Efer &&& eferLme ≠ 0 →
    v.guestCr4 &&& cr4Pae ≠ 0 ∧ v.guestCsAccessRights &&& csL = 0
  /-- and left from compatibility mode. -/
  leave : v.guestIa32Efer &&& eferLma ≠ 0 → val &&& cr0Pg = 0 →
    v.guestCsAccessRights &&& csL = 0

/-- A value the architecture accepts for EFER: no reserved bit, and LME left alone while paging
is on. -/
structure LegalEfer (v : Vmcs) (val : Word) : Prop where
  reserved : val &&& ~~~(eferSce ||| eferLme ||| eferLma ||| eferNxe) = 0
  lme : v.guestCr0 &&& cr0Pg ≠ 0 → val &&& eferLme = v.guestIa32Efer &&& eferLme

def Legal (s : State) : Op → Prop
  | .movToCr0 reg regs => LegalCr0 s.vmcs (regs reg.toNat)
  | .movToCr0Direct val =>
    LegalCr0 s.vmcs val ∧ val &&& s.vmcs.cr0Mask = s.vmcs.cr0Shadow &&& s.vmcs.cr0Mask
  | .wrmsrEfer val => LegalEfer s.vmcs val
  | .load .. => True

/-- What the VMCS of a guest has to satisfy. -/
structure Consistent (s : State) : Prop where
  mask : s.vmcs.cr0Mask = cr0HostMask
  lma : s.vmcs.guestIa32Efer &&& eferLma ≠ 0 ↔
    s.vmcs.guestCr0 &&& cr0Pg ≠ 0 ∧ s.vmcs.guestIa32Efer &&& eferLme ≠ 0
  entry : s.vmcs.entryCtls &&& vmEntryGuestLma ≠ 0 ↔ s.vmcs.guestIa32Efer &&& eferLma ≠ 0
  modes : s.vmcs.guestCr4 &&& cr4Pae ≠ 0 →
    ((vmxCpuMode s.vmcs = .mode64 ∨ vmxCpuMode s.vmcs = .compatibility) ↔
      vmxPagingMode s.vmcs = .mode64)
  cr0 : readCr0 s.vmcs = s.written

/-- The guest does not turn paging off in long mode, and writes to EFER the LMA bit it has. -/
def Keeps (s : State) : Op → Prop
  | .movToCr0 reg regs =>
    s.vmcs.guestIa32Efer &&& eferLma ≠ 0 → regs reg.toNat &&& cr0Pg ≠ 0
  | .movToCr0Direct _ | .load .. => True
  | .wrmsrEfer val => val &&& eferLma = s.vmcs.guestIa32Efer &&& eferLma

instance (s : State) (op : Op) : Decidable (Keeps s op) :=
  match op with
  | .movToCr0 .. => inferInstanceAs (Decidable (_ → _))
  | .movToCr0Direct _ | .load .. => inferInstanceAs (Decidable True)
  | .wrmsrEfer _ => inferInstanceAs (Decidable (_ = _))

/-! ## Bits -/

theorem cr0Pg_bit (x : Word) : x &&& cr0Pg ≠ 0 ↔ x.getLsbD 31 = true :=
  and_flag_ne_zero (k := 31) (by decide) x

theorem eferLme_bit (x : Word) : x &&& eferLme ≠ 0 ↔ x.getLsbD 8 = true :=
  and_flag_ne_zero (k := 8) (by decide) x

theorem eferLma_bit (x : Word) : x &&& eferLma ≠ 0 ↔ x.getLsbD 10 = true :=
  and_flag_ne_zero (k := 10) (by decide) x

theorem entryLma_bit (x : Word) : x &&& vmEntryGuestLma ≠ 0 ↔ x.getLsbD 9 = true :=
  and_flag_ne_zero (k := 9) (by decide) x

/-- What the host forces on CR0 lies in the bits it owns. -/
theorem fix_unowned (x : Word) :
    vmxFixCr0 x &&& ~~~cr0HostMask = x &&& ~~~cr0HostMask := by
  have hones : cr0OnesMask &&& ~~~cr0HostMask = 0#64 := by decide
  have hzeros : ~~~cr0ZerosMask &&& ~~~cr0HostMask = ~~~cr0HostMask := by decide
  unfold vmxFixCr0
  rw [BitVec.and_assoc, hzeros, BitVec.and_comm, BitVec.and_or_distrib_left,
    BitVec.and_comm _ cr0OnesMask, hones, BitVec.or_zero, BitVec.and_comm]

theorem owned_or_unowned (x m : Word) : (x &&& m) ||| (x &&& ~~~m) = x := by
  ext i hi
  simp only [BitVec.getElem_or, BitVec.getElem_and, BitVec.getElem_not]
  cases x[i] <;> cases m[i] <;> rfl

theorem fix_pg (x : Word) : (vmxFixCr0 x).getLsbD 31 = x.getLsbD 31 := by
  simp [vmxFixCr0, cr0OnesMask, cr0ZerosMask, cr0Ne, cr0Et, cr0Nw, cr0Cd]

/-! ## One step -/

/-- The modes agree as soon as EFER.LMA follows from CR0.PG and EFER.LME. -/
theorem modes_of_lma {v : Vmcs}
    (hlma : v.guestIa32Efer &&& eferLma ≠ 0 ↔
      v.guestCr0 &&& cr0Pg ≠ 0 ∧ v.guestIa32Efer &&& eferLme ≠ 0)
    (hpae : v.guestCr4 &&& cr4Pae ≠ 0) :
    (vmxCpuMode v = .mode64 ∨ vmxCpuMode v = .compatibility) ↔ vmxPagingMode v = .mode64 := by
  have hcpu : (vmxCpuMode v = .mode64 ∨ vmxCpuMode v = .compatibility) ↔
      v.guestIa32Efer &&& eferLma ≠ 0 := by
    unfold vmxCpuMode
    by_cases hl : v.guestIa32Efer &&& eferLma ≠ 0
    · refine iff_of_true ?_ hl
      rw [if_pos hl]
      split <;> simp
    · refine iff_of_false ?_ hl
      rw [if_neg hl]
      split <;> simp
  have hpaging : vmxPagingMode v = .mode64 ↔
      v.guestCr0 &&& cr0Pg ≠ 0 ∧ v.guestIa32Efer &&& eferLme ≠ 0 := by
    unfold vmxPagingMode
    by_cases hpg : v.guestCr0 &&& cr0Pg = 0
    · rw [if_pos hpg]
      exact iff_of_false (by simp) fun h => h.1 hpg
    · rw [if_neg hpg, if_neg hpae]
      by_cases hlme : v.guestIa32Efer &&& eferLme ≠ 0
      · exact iff_of_true (if_pos hlme) ⟨hpg, hlme⟩
      · rw [if_neg hlme]
        exact iff_of_false (by simp) fun h => hlme h.2
  rw [hcpu, hpaging, hlma]

/-- The four records, bit by bit. -/
theorem consistent_iff {s : State} :
    Consistent s ↔ s.vmcs.cr0Mask = cr0HostMask ∧
      (s.vmcs.guestIa32Efer.getLsbD 10 =
        (s.vmcs.guestCr0.getLsbD 31 && s.vmcs.guestIa32Efer.getLsbD 8)) ∧
      s.vmcs.entryCtls.getLsbD 9 = s.vmcs.guestIa32Efer.getLsbD 10 ∧
      readCr0 s.vmcs = s.written := by
  have hlma : (s.vmcs.guestIa32Efer &&& eferLma ≠ 0 ↔
      s.vmcs.guestCr0 &&& cr0Pg ≠ 0 ∧ s.vmcs.guestIa32Efer &&& eferLme ≠ 0) ↔
      s.vmcs.guestIa32Efer.getLsbD 10 =
        (s.vmcs.guestCr0.getLsbD 31 && s.vmcs.guestIa32Efer.getLsbD 8) := by
    rw [eferLma_bit, cr0Pg_bit, eferLme_bit, ← Bool.and_eq_true, ← Bool.eq_iff_iff]
  have hentry : (s.vmcs.entryCtls &&& vmEntryGuestLma ≠ 0 ↔
      s.vmcs.guestIa32Efer &&& eferLma ≠ 0) ↔
      s.vmcs.entryCtls.getLsbD 9 = s.vmcs.guestIa32Efer.getLsbD 10 := by
    rw [entryLma_bit, eferLma_bit, ← Bool.eq_iff_iff]
  constructor
  · intro h
    exact ⟨h.mask, hlma.mp h.lma, hentry.mp h.entry, h.cr0⟩
  · intro ⟨hm, hl, he, hc⟩
    exact ⟨hm, hlma.mpr hl, hentry.mpr he, modes_of_lma (hlma.mpr hl), hc⟩

/-- The guest reads back what it wrote: the shadow where the host owns the bit, and elsewhere the
bit itself. -/
theorem readCr0_of_write {v : Vmcs} {val : Word} (hmask : v.cr0Mask = cr0HostMask)
    (hshadow : v.cr0Shadow &&& cr0HostMask = val &&& cr0HostMask)
    (hcr0 : v.guestCr0 &&& ~~~cr0HostMask = val &&& ~~~cr0HostMask) : readCr0 v = val := by
  rw [readCr0, hmask, hshadow, hcr0, owned_or_unowned]

theorem movQual_handled (reg : BitVec 4) : movQual reg &&& 0xf0 = 0 := by
  revert reg
  decide

theorem movQual_reg (reg : BitVec 4) : ((movQual reg >>> 8) &&& 0xf).toNat = reg.toNat := by
  revert reg
  decide

/-- The VMCS after a MOV to CR0 that exits. -/
def afterCr0 (v : Vmcs) (val : Word) : Vmcs :=
  { v with
    cr0Shadow := val
    guestCr0 := vmxFixCr0 val
    guestIa32Efer := if val.getLsbD 31 && v.guestIa32Efer.getLsbD 8 then
      v.guestIa32Efer ||| eferLma else v.guestIa32Efer
    entryCtls := if val.getLsbD 31 && v.guestIa32Efer.getLsbD 8 then
      v.entryCtls ||| vmEntryGuestLma else v.entryCtls }

theorem apply_movToCr0 (s : State) (reg : BitVec 4) (regs : Nat → Word) :
    apply s (.movToCr0 reg regs) = ⟨afterCr0 s.vmcs (regs reg.toNat), regs reg.toNat⟩ := by
  have hq : ¬ movQual reg &&& 0xf0 ≠ 0 := fun h => h (movQual_handled reg)
  simp only [apply, vmxEmulateCr0Access, if_neg hq, movQual_reg, cr0Pg_bit, eferLme_bit, afterCr0]
  cases (regs reg.toNat).getLsbD 31 <;> cases s.vmcs.guestIa32Efer.getLsbD 8 <;> rfl

theorem or_lma (x : Word) : (x ||| eferLma).getLsbD 10 = true := by simp [eferLma]

theorem or_lma_lme (x : Word) : (x ||| eferLma).getLsbD 8 = x.getLsbD 8 := by simp [eferLma]

theorem or_entryLma (x : Word) : (x ||| vmEntryGuestLma).getLsbD 9 = true := by
  simp [vmEntryGuestLma]

/-- A MOV to CR0 sets the records when paging goes on, and clears none. -/
theorem consistent_movToCr0 {s : State} (h : Consistent s) (reg : BitVec 4) (regs : Nat → Word) :
    Consistent (apply s (.movToCr0 reg regs)) ↔ Keeps s (.movToCr0 reg regs) := by
  obtain ⟨hmask, hlma, hentry, -⟩ := consistent_iff.mp h
  obtain ⟨val, hval⟩ : ∃ val, val = regs reg.toNat := ⟨_, rfl⟩
  have hread : readCr0 (afterCr0 s.vmcs val) = val :=
    readCr0_of_write hmask rfl (fix_unowned val)
  have hiff : Consistent ⟨afterCr0 s.vmcs val, val⟩ ↔
      ((afterCr0 s.vmcs val).guestIa32Efer.getLsbD 10 =
        (val.getLsbD 31 && (afterCr0 s.vmcs val).guestIa32Efer.getLsbD 8)) ∧
      (afterCr0 s.vmcs val).entryCtls.getLsbD 9 = (afterCr0 s.vmcs val).guestIa32Efer.getLsbD 10 := by
    rw [consistent_iff, ← fix_pg val]
    exact ⟨fun ⟨_, hl, he, _⟩ => ⟨hl, he⟩, fun ⟨hl, he⟩ => ⟨hmask, hl, he, hread⟩⟩
  rw [apply_movToCr0, Keeps, eferLma_bit, cr0Pg_bit, ← hval, hiff]
  simp only [afterCr0]
  cases hpg : val.getLsbD 31 with
  | true =>
    cases hlme : s.vmcs.guestIa32Efer.getLsbD 8 with
    | true =>
      simp only [Bool.and_self, if_true, or_lma, or_lma_lme, or_entryLma, hlme, and_self,
        implies_true]
    | false =>
      simp only [Bool.and_false, Bool.false_eq_true, if_false, hentry, hlma, hlme, and_self,
        implies_true]
  | false =>
    simp only [Bool.false_and, Bool.false_eq_true, if_false, hentry, and_true, imp_false,
      Bool.not_eq_true]

theorem consistent_movToCr0Direct {s : State} (h : Consistent s) {val : Word}
    (hl : Legal s (.movToCr0Direct val)) : Consistent (apply s (.movToCr0Direct val)) := by
  obtain ⟨hmask, hlma, hentry, -⟩ := consistent_iff.mp h
  obtain ⟨-, hshadow⟩ := hl
  rw [hmask] at hshadow
  have hpg : (apply s (.movToCr0Direct val)).vmcs.guestCr0.getLsbD 31 =
      s.vmcs.guestCr0.getLsbD 31 := by
    simp [apply, hmask, cr0HostMask, cr0OnesMask, cr0ZerosMask, cr0Pg, cr0Pe, cr0Ne, cr0Et, cr0Nw,
      cr0Cd]
  refine consistent_iff.mpr ⟨hmask, ?_, hentry, readCr0_of_write hmask hshadow.symm ?_⟩
  · rw [hpg]
    exact hlma
  · ext i hi
    simp only [apply, hmask, BitVec.getElem_or, BitVec.getElem_and, BitVec.getElem_not]
    cases cr0HostMask[i] <;> simp

/-- A value for EFER is stored as it is, LMA included. -/
theorem consistent_wrmsrEfer {s : State} (h : Consistent s) {val : Word}
    (hl : Legal s (.wrmsrEfer val)) :
    Consistent (apply s (.wrmsrEfer val)) ↔ Keeps s (.wrmsrEfer val) := by
  obtain ⟨hmask, hlma, hentry, hread⟩ := consistent_iff.mp h
  have hlme : s.vmcs.guestCr0.getLsbD 31 = true →
      val.getLsbD 8 = s.vmcs.guestIa32Efer.getLsbD 8 := fun hpg =>
    (and_flag_eq (k := 8) (by decide) _ _).mp (hl.lme ((cr0Pg_bit _).mpr hpg))
  have hkeeps : Keeps s (.wrmsrEfer val) ↔ val.getLsbD 10 = s.vmcs.guestIa32Efer.getLsbD 10 :=
    and_flag_eq (k := 10) (by decide) _ _
  have hiff : Consistent (apply s (.wrmsrEfer val)) ↔
      (val.getLsbD 10 = (s.vmcs.guestCr0.getLsbD 31 && val.getLsbD 8)) ∧
      s.vmcs.entryCtls.getLsbD 9 = val.getLsbD 10 := by
    rw [consistent_iff]
    exact ⟨fun ⟨_, hl, he, _⟩ => ⟨hl, he⟩, fun ⟨hl, he⟩ => ⟨hmask, hl, he, hread⟩⟩
  rw [hkeeps, hiff, hentry, hlma]
  cases hpg : s.vmcs.guestCr0.getLsbD 31 with
  | true =>
    rw [hlme hpg]
    exact ⟨fun h => h.1, fun h => ⟨h, h.symm⟩⟩
  | false =>
    simp only [Bool.false_and]
    exact ⟨fun h => h.1, fun h => ⟨h, h.symm⟩⟩

theorem consistent_load {s : State} (h : Consistent s) (cr4 cs : Word) :
    Consistent (apply s (.load cr4 cs)) := by
  obtain ⟨hmask, hlma, hentry, hread⟩ := consistent_iff.mp h
  exact consistent_iff.mpr ⟨hmask, hlma, hentry, hread⟩

/-- A legal write keeps the records consistent exactly when it does not leave long mode and gives
EFER the LMA bit it has. -/
theorem consistent_apply_iff (s : State) (op : Op) (h : Consistent s) (hl : Legal s op) :
    Consistent (apply s op) ↔ Keeps s op := by
  cases op with
  | movToCr0 reg regs => exact consistent_movToCr0 h reg regs
  | movToCr0Direct val => exact iff_of_true (consistent_movToCr0Direct h hl) trivial
  | wrmsrEfer val => exact consistent_wrmsrEfer h hl
  | load cr4 cs => exact iff_of_true (consistent_load h cr4 cs) trivial

/-- The state the guest starts from. -/
def resetState (v : Vmcs) : State := ⟨xhVcpuReset v, cr0Ne⟩

theorem resetState_consistent {v : Vmcs} (h : Created v) : Consistent (resetState v) := by
  have hctl : v.entryCtls.getLsbD 9 = false := by
    have := (entryLma_bit v.entryCtls).not.mp (by simp [h.entryCtls])
    simpa using this
  have hefer : (resetState v).vmcs.guestIa32Efer = 0 := h.efer
  refine consistent_iff.mpr ⟨rfl, ?_, ?_, readCr0_of_write rfl rfl (fix_unowned cr0Ne)⟩
  · simp [hefer]
  · rw [hefer]
    exact hctl

/-! ## Runs -/

/-- In a run of legal writes from reset, the records are consistent after every step exactly when
no write turns paging off in long mode and every value for EFER has the LMA bit EFER has. -/
theorem long_mode_consistent_iff {v : Vmcs} (hv : Created v) {ops : List Op}
    (hl : System.Along apply Legal (resetState v) ops) :
    System.Along apply (fun s op => Consistent (apply s op)) (resetState v) ops ↔
      System.Along apply Keeps (resetState v) ops :=
  System.along_iff consistent_apply_iff (resetState_consistent hv) hl

/-- A fresh vCPU whose entry controls load EFER. -/
def freshVmcs : Vmcs := ⟨0, 0, 0, 0, 0, 0, vmEntryLoadEfer, 0⟩

theorem freshVmcs_created : Created freshVmcs := ⟨by decide, rfl⟩

/-- A register file that holds one value. -/
def holding (val : Word) : Nat → Word := fun _ => val

/-- The boot of a 64-bit guest: PAE on, LME set, paging on, and NXE set later. -/
def boot : List Op :=
  [.load cr4Pae 0x93, .wrmsrEfer eferLme, .movToCr0 0 (holding 0x80000021), .load cr4Pae 0x2093,
    .wrmsrEfer (eferLme ||| eferLma ||| eferNxe)]

theorem boot_legal : System.Along apply Legal (resetState freshVmcs) boot := by
  refine ⟨trivial, ⟨by decide, by decide⟩, ⟨by decide, by decide, by decide, by decide, by decide⟩,
    trivial, ⟨by decide, by decide⟩, trivial⟩

theorem long_mode_consistent_boot :
    System.Along apply (fun s op => Consistent (apply s op)) (resetState freshVmcs) boot :=
  (long_mode_consistent_iff freshVmcs_created boot_legal).mpr
    ⟨trivial, by decide, by decide, trivial, by decide, trivial⟩

/-- The guest goes back to a 32-bit segment and turns paging off. -/
def leaveLongMode : List Op := boot ++ [.load cr4Pae 0x93, .movToCr0 0 (holding 0x21)]

/-- Paging is off, and EFER.LMA and the entry control still say long mode. -/
theorem long_mode_left :
    System.Along apply Legal (resetState freshVmcs) leaveLongMode ∧
    (leaveLongMode.foldl apply (resetState freshVmcs)).vmcs.guestCr0 &&& cr0Pg = 0 ∧
    (leaveLongMode.foldl apply (resetState freshVmcs)).vmcs.guestIa32Efer &&& eferLma ≠ 0 ∧
    ¬ Consistent (leaveLongMode.foldl apply (resetState freshVmcs)) := by
  have hpg : (leaveLongMode.foldl apply (resetState freshVmcs)).vmcs.guestCr0 &&& cr0Pg = 0 := by
    decide
  have hlma : (leaveLongMode.foldl apply (resetState freshVmcs)).vmcs.guestIa32Efer &&& eferLma ≠ 0 := by
    decide
  refine ⟨?_, hpg, hlma, fun h => (h.lma.mp hlma).1 hpg⟩
  refine ⟨trivial, ⟨by decide, by decide⟩, ⟨by decide, by decide, by decide, by decide, by decide⟩,
    trivial, ⟨by decide, by decide⟩, trivial, ⟨by decide, by decide, by decide, by decide, by decide⟩,
    trivial⟩

end Xhyve.Vmm.LongMode
