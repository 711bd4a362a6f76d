import Mathlib
import Xhyve.Virtio.Registers

/-!
# The registers of a virtio device as the guest sees them

The search for a register is exact, and a register is read and written whole or not at all. So to a driver in the guest the device is
a register file, whose queue registers are those of the selected queue. The line of the function follows the ISR
register over every run.
-/

namespace Xhyve.Virtio.Registers

open Xhyve.Lib
open Xhyve.Emul.PciIrq (LintrStat)

/-! ## Finding the register -/

theorem configRegs_searchable : BinarySearch.Searchable 32 configRegs fun cr => (cr.crOffset : Int) where
  sorted := by decide
  small := by decide

theorem configRegs_window (offset : Int) :
    BinarySearch.Window configRegs (fun cr => (cr.crOffset : Int)) offset 0 (configRegs.length - 1) where
  le := Nat.zero_le _
  inside := by decide
  below _ _ hlt := absurd hlt (Nat.not_lt_zero _)
  above i h hlt := by omega

theorem toInt_ofNat_small {offset : Nat} (h : offset < 2 ^ 31) : (BitVec.ofNat 32 offset).toInt = offset := by
  rw [BitVec.toInt_eq_toNat_of_lt]
  · rw [BitVec.toNat_ofNat, Nat.mod_eq_of_lt (by omega)]
  · rw [BitVec.toNat_ofNat, Nat.mod_eq_of_lt (by omega)]
    omega

/-- The search stays in its table, and finds a register where there is one. -/
theorem findReg_exact {offset : Nat} (h : offset < 2 ^ 31) :
    (∃ cr ∈ configRegs, findReg offset = .ok (some cr) ∧ cr.crOffset = offset) ∨
      findReg offset = .ok none ∧ ∀ cr ∈ configRegs, cr.crOffset ≠ offset := by
  have hexact := BinarySearch.search_exact configRegs_searchable (fun _ => ?_)
    (configRegs_window offset) (show configRegs.length - 1 + 1 < configRegs.length + 1 + 0 by decide)
  · rw [findReg, viFindCr, toInt_ofNat_small h]
    generalize BinarySearch.search 32 configRegs (fun cr => (cr.crOffset : Int)) offset (configRegs.length + 1) 0
      (configRegs.length - 1) = r at hexact
    cases r with
    | found cr => exact Or.inl ⟨cr, hexact.1, rfl, Int.ofNat_inj.mp hexact.2⟩
    | absent => exact Or.inr ⟨rfl, fun cr hcr heq => hexact cr hcr (congrArg Int.ofNat heq)⟩
    | outside => exact hexact.elim
    | runsOn => exact hexact.elim
  · exact Int.natCast_nonneg offset

/-- The registers by name. -/
inductive Reg
  | hostcap | guestcap | pfn | qnum | qsel | qnotify | status | isr | cfgvec | qvec
deriving DecidableEq, Repr

instance : Fintype Reg where
  elems := {.hostcap, .guestcap, .pfn, .qnum, .qsel, .qnotify, .status, .isr, .cfgvec, .qvec}
  complete r := by
    cases r
    all_goals decide

def Reg.cr : Reg → ConfigReg
  | .hostcap => ⟨vtcfgRHostcap, 4, true, "HOSTCAP"⟩
  | .guestcap => ⟨vtcfgRGuestcap, 4, false, "GUESTCAP"⟩
  | .pfn => ⟨vtcfgRPfn, 4, false, "PFN"⟩
  | .qnum => ⟨vtcfgRQnum, 2, true, "QNUM"⟩
  | .qsel => ⟨vtcfgRQsel, 2, false, "QSEL"⟩
  | .qnotify => ⟨vtcfgRQnotify, 2, false, "QNOTIFY"⟩
  | .status => ⟨vtcfgRStatus, 1, false, "STATUS"⟩
  | .isr => ⟨vtcfgRIsr, 1, false, "ISR"⟩
  | .cfgvec => ⟨vtcfgRCfgvec, 2, false, "CFGVEC"⟩
  | .qvec => ⟨vtcfgRQvec, 2, false, "QVEC"⟩

theorem mem_configRegs {cr : ConfigReg} : cr ∈ configRegs ↔ ∃ r : Reg, r.cr = cr := by
  constructor
  · have hall : ∀ cr ∈ configRegs, ∃ r : Reg, r.cr = cr := by decide
    exact hall cr
  · have hall : ∀ r : Reg, r.cr ∈ configRegs := by decide
    rintro ⟨r, rfl⟩
    exact hall r

theorem cr_offset_inj {r r' : Reg} (h : r.cr.crOffset = r'.cr.crOffset) : r = r' := by
  have hinj : ∀ r r' : Reg, r.cr.crOffset = r'.cr.crOffset → r = r' := by decide
  exact hinj r r' h

theorem cr_offset_small (r : Reg) : r.cr.crOffset < 2 ^ 31 := by
  have hsmall : ∀ r : Reg, r.cr.crOffset < 2 ^ 31 := by decide
  exact hsmall r

theorem findReg_reg (r : Reg) : findReg r.cr.crOffset = .ok (some r.cr) := by
  rcases findReg_exact (cr_offset_small r) with ⟨cr, hcr, hfind, hoff⟩ | ⟨-, hnone⟩
  · obtain ⟨r', rfl⟩ := mem_configRegs.mp hcr
    rw [hfind, cr_offset_inj hoff]
  · exact absurd rfl (hnone r.cr (mem_configRegs.mpr ⟨r, rfl⟩))

/-! ## What the guest sees -/

structure QueueRegs where
  pfn : BitVec 32
  qnum : UInt16
  qvec : BitVec 16
deriving DecidableEq

/-- The registers as a driver in the guest sees them; a queue that does not exist is `none`. -/
structure RegFile where
  guestcap : BitVec 32
  qsel : Nat
  status : BitVec 8
  isr : BitVec 8
  cfgvec : BitVec 16
  queue : Nat → Option QueueRegs

namespace RegFile

def selected (f : RegFile) : Option QueueRegs := f.queue f.qsel

def read (hvCaps : BitVec 64) (f : RegFile) : Reg → BitVec 32
  | .hostcap => hvCaps.setWidth 32
  | .guestcap => f.guestcap
  | .pfn => (f.selected.map (·.pfn)).getD 0xffffffff
  | .qnum => (f.selected.map (·.qnum.toBitVec.setWidth 32)).getD 0
  | .qsel => BitVec.ofNat 32 f.qsel
  | .qnotify => 0
  | .status => f.status.setWidth 32
  | .isr => f.isr.setWidth 32
  | .cfgvec => f.cfgvec.setWidth 32
  | .qvec => (f.selected.map (·.qvec.setWidth 32)).getD 0xffff

/-- Reading the ISR register acknowledges the interrupt. -/
def afterRead (f : RegFile) (r : Reg) : RegFile := if r = .isr then { f with isr := 0 } else f

def reset (f : RegFile) : RegFile where
  guestcap := 0
  qsel := 0
  status := f.status
  isr := 0
  cfgvec := virtioMsiNoVector
  queue q := (f.queue q).map fun regs => { regs with pfn := 0, qvec := virtioMsiNoVector }

/-- Changes the queue that is selected, if there is one. -/
def modify (f : RegFile) (g : QueueRegs → QueueRegs) : RegFile :=
  { f with queue := Function.update f.queue f.qsel (f.selected.map g) }

def write (hvCaps : BitVec 64) (f : RegFile) (value : BitVec 64) : Reg → RegFile
  | .guestcap => { f with guestcap := (value &&& hvCaps).setWidth 32 }
  | .pfn => f.modify fun regs => { regs with pfn := value.setWidth 32 }
  | .qsel => { f with qsel := value.toNat }
  | .status =>
    let f := { f with status := value.setWidth 8 }
    if value = 0 then f.reset else f
  | .cfgvec => { f with cfgvec := value.setWidth 16 }
  | .qvec => f.modify fun regs => { regs with qvec := value.setWidth 16 }
  | .hostcap | .qnum | .qnotify | .isr => f

end RegFile

section Device
variable {δ : Type} (vc : VirtioConsts δ) (ram : GuestRam)

def queueRegs (vq : Vqueue) : QueueRegs := ⟨vq.vqPfn, vq.vqQsize, vq.vqMsixIdx⟩

def view (vs : VirtioSoftc δ) : RegFile where
  guestcap := vs.vsNegotiatedCaps
  qsel := vs.vsCurq.toNat
  status := vs.vsStatus
  isr := vs.vsIsr
  cfgvec := vs.vsMsixCfgIdx
  queue q := if q < vc.vcNvq then some (queueRegs (vs.vsQueues q)) else none

/-- What holds throughout a run. -/
structure Inv (vs : VirtioSoftc δ) : Prop where
  /-- No feature is negotiated that the device does not have. -/
  caps : vs.vsNegotiatedCaps &&& vc.vcHvCaps.setWidth 32 = vs.vsNegotiatedCaps
  curq : 0 ≤ vs.vsCurq ∧ vs.vsCurq < 2 ^ 16
  /-- The line is asserted while the ISR register has something for the guest, and interrupts are permitted. -/
  line : vs.pi.lintr = if vs.vsIsr = 0 then .idle else if vs.pi.permitted then .asserted else .pending
  /-- A queue without an address is not in use. -/
  queues : ∀ q, q < vc.vcNvq → (vs.vsQueues q).vqFlags = 0 ∧ (vs.vsQueues q).vqPfn = 0 ∨ (vs.vsQueues q).vqFlags = vqAlloc

variable {vc ram} {vs vs' : VirtioSoftc δ}

theorem curQueue_ok (h : 0 ≤ vs.vsCurq) : curQueue vs = .ok vs.vsCurq.toNat := if_pos h

/-- The queue that is selected, in the device and for the guest. -/
theorem selected_eq (h : 0 ≤ vs.vsCurq) :
    (view vc vs).selected = if vs.vsCurq < vc.vcNvq then some (queueRegs (vs.vsQueues vs.vsCurq.toNat)) else none := by
  have hiff : vs.vsCurq.toNat < vc.vcNvq ↔ vs.vsCurq < vc.vcNvq := by omega
  simp only [RegFile.selected, view, hiff]

theorem readReg_view (h : 0 ≤ vs.vsCurq) (r : Reg) :
    ∃ rd, readReg vc vs r.cr.crOffset r.cr.crSize = .ok rd ∧ rd.diag = none ∧
      rd.value = (view vc vs).read vc.vcHvCaps r ∧ view vc rd.vs = (view vc vs).afterRead r ∧
      (rd.vs = vs ∨ rd.vs = { vs with vsIsr := 0, pi := if vs.vsIsr ≠ 0 then pciLintrDeassert vs.pi else vs.pi }) := by
  have hsel := @selected_eq _ vc vs h
  cases r with
  | hostcap => exact ⟨_, rfl, rfl, rfl, rfl, Or.inl rfl⟩
  | guestcap => exact ⟨_, rfl, rfl, rfl, rfl, Or.inl rfl⟩
  | pfn =>
    by_cases hq : vs.vsCurq < vc.vcNvq
    · refine ⟨⟨(vs.vsQueues vs.vsCurq.toNat).vqPfn, vs, none⟩, ?_, rfl, ?_, rfl, Or.inl rfl⟩
      · show (if vs.vsCurq < vc.vcNvq then _ else _) = _
        rw [if_pos hq, curQueue_ok h]
        rfl
      · simp only [RegFile.read, hsel, if_pos hq]
        rfl
    · refine ⟨⟨ones 4, vs, none⟩, ?_, rfl, ?_, rfl, Or.inl rfl⟩
      · show (if vs.vsCurq < vc.vcNvq then _ else _) = _
        rw [if_neg hq]
        rfl
      · simp only [RegFile.read, hsel, if_neg hq]
        rfl
  | qnum =>
    by_cases hq : vs.vsCurq < vc.vcNvq
    · refine ⟨⟨(vs.vsQueues vs.vsCurq.toNat).vqQsize.toBitVec.setWidth 32, vs, none⟩, ?_, rfl, ?_, rfl, Or.inl rfl⟩
      · show (if vs.vsCurq < vc.vcNvq then _ else _) = _
        rw [if_pos hq, curQueue_ok h]
        rfl
      · simp only [RegFile.read, hsel, if_pos hq]
        rfl
    · refine ⟨⟨0, vs, none⟩, ?_, rfl, ?_, rfl, Or.inl rfl⟩
      · show (if vs.vsCurq < vc.vcNvq then _ else _) = _
        rw [if_neg hq]
      · simp only [RegFile.read, hsel, if_neg hq]
        rfl
  | qsel =>
    refine ⟨_, rfl, rfl, ?_, rfl, Or.inl rfl⟩
    show BitVec.ofInt 32 vs.vsCurq = BitVec.ofNat 32 vs.vsCurq.toNat
    rw [← BitVec.ofInt_natCast, Int.toNat_of_nonneg h]
  | qnotify => exact ⟨_, rfl, rfl, rfl, rfl, Or.inl rfl⟩
  | status => exact ⟨_, rfl, rfl, rfl, rfl, Or.inl rfl⟩
  | isr => exact ⟨_, rfl, rfl, rfl, rfl, Or.inr rfl⟩
  | cfgvec => exact ⟨_, rfl, rfl, rfl, rfl, Or.inl rfl⟩
  | qvec =>
    by_cases hq : vs.vsCurq < vc.vcNvq
    · refine ⟨⟨(vs.vsQueues vs.vsCurq.toNat).vqMsixIdx.setWidth 32, vs, none⟩, ?_, rfl, ?_, rfl, Or.inl rfl⟩
      · show (if vs.vsCurq < vc.vcNvq then _ else _) = _
        rw [if_pos hq, curQueue_ok h]
        rfl
      · simp only [RegFile.read, hsel, if_pos hq]
        rfl
    · refine ⟨⟨virtioMsiNoVector.setWidth 32, vs, none⟩, ?_, rfl, ?_, rfl, Or.inl rfl⟩
      · show (if vs.vsCurq < vc.vcNvq then _ else _) = _
        rw [if_neg hq]
      · simp only [RegFile.read, hsel, if_neg hq]
        rfl

theorem int_of_small {value : BitVec 64} (h : value.toNat < 2 ^ 16) : (value.setWidth 32).toInt = value.toNat := by
  have hnat : (value.setWidth 32).toNat = value.toNat := by
    rw [BitVec.toNat_setWidth]
    exact Nat.mod_eq_of_lt (by omega)
  rw [BitVec.toInt_eq_toNat_of_lt (by omega), hnat]

theorem view_setQueue (h : 0 ≤ vs.vsCurq) (hq : vs.vsCurq < vc.vcNvq) {vq : Vqueue} {g : QueueRegs → QueueRegs}
    (hg : queueRegs vq = g (queueRegs (vs.vsQueues vs.vsCurq.toNat))) :
    view vc (setQueue vs vs.vsCurq.toNat vq) = (view vc vs).modify g := by
  have hsel := @selected_eq _ vc vs h
  rw [if_pos hq] at hsel
  simp only [RegFile.modify, hsel, Option.map_some, ← hg]
  have hqueue : (view vc (setQueue vs vs.vsCurq.toNat vq)).queue =
      Function.update (view vc vs).queue vs.vsCurq.toNat (some (queueRegs vq)) := by
    funext q
    by_cases hqq : q = vs.vsCurq.toNat
    · subst hqq
      have hlt : vs.vsCurq.toNat < vc.vcNvq := by omega
      simp only [view, setQueue, Function.update_self, if_pos hlt]
    · simp only [view, setQueue, Function.update_of_ne hqq]
  exact congrArg (fun queue => ({ view vc vs with queue := queue } : RegFile)) hqueue

/-- Without a queue that is selected there is nothing to change. -/
theorem view_modify_none (h : 0 ≤ vs.vsCurq) (hq : ¬ vs.vsCurq < vc.vcNvq) (g : QueueRegs → QueueRegs) :
    (view vc vs).modify g = view vc vs := by
  have hsel := @selected_eq _ vc vs h
  rw [if_neg hq] at hsel
  have hnone : (view vc vs).queue (view vc vs).qsel = none := hsel
  simp only [RegFile.modify, hsel, Option.map_none]
  rw [← hnone, Function.update_eq_self]

theorem view_reset (vs : VirtioSoftc δ) : view vc (deviceReset vc vs) = (view vc vs).reset := by
  have hqueue : (view vc (deviceReset vc vs)).queue = (view vc vs).reset.queue := by
    funext q
    by_cases hq : q < vc.vcNvq
    · simp only [view, RegFile.reset, deviceReset, viResetDev, if_pos hq, Option.map_some, queueRegs, resetQueue]
    · simp only [view, RegFile.reset, if_neg hq, Option.map_none]
  exact congrArg (fun queue => ({ (view vc vs).reset with queue := queue } : RegFile)) hqueue

/-- What a write to a register leaves of the rest of the device. -/
structure WroteReg (vc : VirtioConsts δ) (vs : VirtioSoftc δ) (value : BitVec 64) (r : Reg) (vs' : VirtioSoftc δ) : Prop where
  view : view vc vs' = (view vc vs).write vc.vcHvCaps value r
  pi : vs'.pi = vs.pi ∧ vs'.vsIsr = vs.vsIsr ∨
    vs'.pi = (if vs.vsIsr ≠ 0 then pciLintrDeassert vs.pi else vs.pi) ∧ vs'.vsIsr = 0
  queues : ∀ q, q < vc.vcNvq → (vs'.vsQueues q).vqFlags = 0 ∧ (vs'.vsQueues q).vqPfn = 0 ∨
    (vs'.vsQueues q).vqFlags = vqAlloc ∨
    (vs'.vsQueues q).vqFlags = (vs.vsQueues q).vqFlags ∧ (vs'.vsQueues q).vqPfn = (vs.vsQueues q).vqPfn
  curq : 0 ≤ vs'.vsCurq ∧ vs'.vsCurq < 2 ^ 16
  caps : vs'.vsNegotiatedCaps = vs.vsNegotiatedCaps ∨ vs'.vsNegotiatedCaps = 0 ∨
    vs'.vsNegotiatedCaps = (value &&& vc.vcHvCaps).setWidth 32

theorem WroteReg.same (h : 0 ≤ vs.vsCurq ∧ vs.vsCurq < 2 ^ 16) {value : BitVec 64} {r : Reg}
    (hview : Registers.view vc vs = (Registers.view vc vs).write vc.vcHvCaps value r) : WroteReg vc vs value r vs where
  view := hview
  pi := Or.inl ⟨rfl, rfl⟩
  queues _ _ := Or.inr (Or.inr ⟨rfl, rfl⟩)
  curq := h
  caps := Or.inl rfl

theorem writeReg_view (h : 0 ≤ vs.vsCurq ∧ vs.vsCurq < 2 ^ 16) (r : Reg) (hro : r.cr.crRo = false) {value : BitVec 64}
    (hvalue : value.toNat < 2 ^ (8 * r.cr.crSize)) :
    ∃ w, writeReg vc ram vs r.cr r.cr.crOffset value = .ok w ∧ WroteReg vc vs value r w.vs := by
  cases r with
  | hostcap | qnum => cases hro
  | isr => exact ⟨.plain vs, rfl, .same h rfl⟩
  | guestcap =>
    refine ⟨_, rfl, rfl, Or.inl ⟨rfl, rfl⟩, fun _ _ => Or.inr (Or.inr ⟨rfl, rfl⟩), h, Or.inr (Or.inr rfl)⟩
  | cfgvec =>
    refine ⟨_, rfl, rfl, Or.inl ⟨rfl, rfl⟩, fun _ _ => Or.inr (Or.inr ⟨rfl, rfl⟩), h, Or.inl rfl⟩
  | qsel =>
    have hsmall : value.toNat < 2 ^ 16 := hvalue
    have hint := int_of_small hsmall
    refine ⟨_, rfl, ?_, Or.inl ⟨rfl, rfl⟩, fun _ _ => Or.inr (Or.inr ⟨rfl, rfl⟩), ?_, Or.inl rfl⟩
    · simp only [Written.plain, view, RegFile.write, hint, Int.toNat_natCast]
    · show 0 ≤ (value.setWidth 32).toInt ∧ (value.setWidth 32).toInt < 2 ^ 16
      omega
  | qnotify =>
    show ∃ w, (if value.toNat ≥ vc.vcNvq then _ else _) = _ ∧ _
    by_cases hn : value.toNat ≥ vc.vcNvq
    · rw [if_pos hn]
      exact ⟨_, rfl, .same h rfl⟩
    · rw [if_neg hn]
      cases vc.vcQnotify with
      | none => exact ⟨_, rfl, .same h rfl⟩
      | some notify =>
        exact ⟨_, rfl, rfl, Or.inl ⟨rfl, rfl⟩, fun _ _ => Or.inr (Or.inr ⟨rfl, rfl⟩), h, Or.inl rfl⟩
  | status =>
    by_cases hzero : value = 0
    · refine ⟨.plain (deviceReset vc { vs with vsStatus := value.setWidth 8 }), ?_, ?_, Or.inr ⟨rfl, rfl⟩, fun q hq => ?_,
        ⟨le_refl _, (by decide : (0 : Int) < 2 ^ 16)⟩, Or.inr (Or.inl rfl)⟩
      · show Except.ok (Written.plain (if value = 0 then _ else _)) = _
        rw [if_pos hzero]
      · simp only [Written.plain, view_reset, RegFile.write, if_pos hzero]
        rfl
      · left
        simp only [Written.plain, deviceReset, viResetDev, if_pos hq, resetQueue, and_self]
    · refine ⟨.plain { vs with vsStatus := value.setWidth 8 }, ?_, ?_, Or.inl ⟨rfl, rfl⟩,
        fun _ _ => Or.inr (Or.inr ⟨rfl, rfl⟩), h, Or.inl rfl⟩
      · show Except.ok (Written.plain (if value = 0 then _ else _)) = _
        rw [if_neg hzero]
      · simp only [Written.plain, RegFile.write, if_neg hzero]
        rfl
  | pfn =>
    show ∃ w, (if vs.vsCurq ≥ vc.vcNvq then _ else _) = _ ∧ _
    by_cases hq : vs.vsCurq < vc.vcNvq
    · rw [if_neg (not_le.mpr hq), curQueue_ok h.1]
      refine ⟨_, rfl, view_setQueue h.1 hq rfl, Or.inl ⟨rfl, rfl⟩, fun q _ => ?_, h, Or.inl rfl⟩
      right
      by_cases hqq : q = vs.vsCurq.toNat
      · left
        simp only [Written.plain, setQueue, hqq, Function.update_self]
        rfl
      · right
        simp only [Written.plain, setQueue, Function.update_of_ne hqq, and_self]
    · rw [if_pos (not_lt.mp hq)]
      exact ⟨_, rfl, .same h (view_modify_none h.1 hq _).symm⟩
  | qvec =>
    show ∃ w, (if vs.vsCurq ≥ vc.vcNvq then _ else _) = _ ∧ _
    by_cases hq : vs.vsCurq < vc.vcNvq
    · rw [if_neg (not_le.mpr hq), curQueue_ok h.1]
      refine ⟨_, rfl, view_setQueue h.1 hq rfl, Or.inl ⟨rfl, rfl⟩, fun q _ => ?_, h, Or.inl rfl⟩
      right
      right
      by_cases hqq : q = vs.vsCurq.toNat
      · simp only [Written.plain, setQueue, hqq, Function.update_self, and_self]
      · simp only [Written.plain, setQueue, Function.update_of_ne hqq, and_self]
    · rw [if_pos (not_lt.mp hq)]
      exact ⟨_, rfl, .same h (view_modify_none h.1 hq _).symm⟩

/-! ## Accesses -/

/-- A read of the ISR register. -/
def acknowledge (vs : VirtioSoftc δ) : VirtioSoftc δ :=
  { vs with vsIsr := 0, pi := if vs.vsIsr ≠ 0 then pciLintrDeassert vs.pi else vs.pi }

theorem readGeneral_reg (r : Reg) :
    readGeneral vc vs r.cr.crOffset r.cr.crSize = readReg vc vs r.cr.crOffset r.cr.crSize := by
  simp only [readGeneral, findReg_reg, bind, Except.bind, ne_eq, not_true_eq_false, if_false]

theorem writeGeneral_reg (r : Reg) (value : BitVec 64) :
    writeGeneral vc ram vs r.cr.crOffset r.cr.crSize value =
      if r.cr.crRo then .ok ⟨vs, badWrite r.cr r.cr.crSize⟩ else writeReg vc ram vs r.cr r.cr.crOffset value := by
  simp only [writeGeneral, findReg_reg, bind, Except.bind, ne_eq, not_true_eq_false, false_or]
  rfl

/-- A read that is no register's, -/
theorem readGeneral_other {offset size : Nat} (hoff : offset < 2 ^ 31)
    (hno : ∀ r : Reg, ¬ (r.cr.crOffset = offset ∧ r.cr.crSize = size)) :
    ∃ diag, readGeneral vc vs offset size = .ok ⟨ones size, vs, some diag⟩ := by
  rcases findReg_exact hoff with ⟨cr, hcr, hfind, heq⟩ | ⟨hfind, -⟩
  · obtain ⟨r, rfl⟩ := mem_configRegs.mp hcr
    have hsize : r.cr.crSize ≠ size := fun hs => hno r ⟨heq, hs⟩
    refine ⟨.readBadSize r.cr.crName size, ?_⟩
    simp only [readGeneral, hfind, bind, Except.bind, if_pos hsize]
    rfl
  · refine ⟨.readBadOffset offset size, ?_⟩
    simp only [readGeneral, hfind, bind, Except.bind]
    rfl

/-- and a write. -/
theorem writeGeneral_other {offset size : Nat} (hoff : offset < 2 ^ 31)
    (hno : ∀ r : Reg, ¬ (r.cr.crOffset = offset ∧ r.cr.crSize = size)) (value : BitVec 64) :
    ∃ diag diags, writeGeneral vc ram vs offset size value = .ok ⟨vs, diag :: diags⟩ := by
  rcases findReg_exact hoff with ⟨cr, hcr, hfind, heq⟩ | ⟨hfind, -⟩
  · obtain ⟨r, rfl⟩ := mem_configRegs.mp hcr
    have hsize : r.cr.crSize ≠ size := fun hs => hno r ⟨heq, hs⟩
    refine ⟨.writeBadSize r.cr.crName size, if r.cr.crRo then [.writeReadOnly r.cr.crName] else [], ?_⟩
    simp only [writeGeneral, hfind, bind, Except.bind, if_pos (Or.inl hsize : r.cr.crSize ≠ size ∨ r.cr.crRo = true),
      badWrite, if_pos hsize]
    rfl
  · refine ⟨.writeBadOffset offset size, [], ?_⟩
    simp only [writeGeneral, hfind, bind, Except.bind]
    rfl

theorem readGeneral_total (h : 0 ≤ vs.vsCurq) {offset size : Nat} (hoff : offset < 2 ^ 31) :
    ∃ rd, readGeneral vc vs offset size = .ok rd ∧ (rd.vs = vs ∨ rd.vs = acknowledge vs) := by
  by_cases hreg : ∃ r : Reg, r.cr.crOffset = offset ∧ r.cr.crSize = size
  · obtain ⟨r, rfl, rfl⟩ := hreg
    obtain ⟨rd, hrd, -, -, -, hvs⟩ := @readReg_view _ vc vs h r
    exact ⟨rd, (readGeneral_reg r).trans hrd, hvs⟩
  · obtain ⟨diag, hread⟩ := @readGeneral_other _ vc vs _ size hoff (not_exists.mp hreg)
    exact ⟨_, hread, Or.inl rfl⟩

theorem writeGeneral_total (h : 0 ≤ vs.vsCurq ∧ vs.vsCurq < 2 ^ 16) {offset size : Nat} (hoff : offset < 2 ^ 31)
    {value : BitVec 64} (hvalue : value.toNat < 2 ^ (8 * size)) :
    ∃ w, writeGeneral vc ram vs offset size value = .ok w ∧ (w.vs = vs ∨ ∃ r, WroteReg vc vs value r w.vs) := by
  by_cases hreg : ∃ r : Reg, r.cr.crOffset = offset ∧ r.cr.crSize = size
  · obtain ⟨r, rfl, rfl⟩ := hreg
    rw [writeGeneral_reg]
    cases hro : r.cr.crRo with
    | true => exact ⟨_, rfl, Or.inl rfl⟩
    | false =>
      obtain ⟨w, hw, hwrote⟩ := @writeReg_view _ vc ram vs h r hro value hvalue
      exact ⟨w, hw, Or.inr ⟨r, hwrote⟩⟩
  · obtain ⟨diag, diags, hwrite⟩ := @writeGeneral_other _ vc ram vs _ size hoff (not_exists.mp hreg) value
    exact ⟨_, hwrite, Or.inl rfl⟩

/-! ## What a step keeps -/

theorem Inv.line_cleared (h : Inv vc vs) : (if vs.vsIsr ≠ 0 then pciLintrDeassert vs.pi else vs.pi).lintr = .idle := by
  by_cases hisr : vs.vsIsr = 0
  · rw [if_neg (not_not.mpr hisr), h.line, if_pos hisr]
  · rw [if_pos hisr]
    rfl

theorem Inv.acknowledge (h : Inv vc vs) : Inv vc (acknowledge vs) where
  caps := h.caps
  curq := h.curq
  line := h.line_cleared
  queues := h.queues

theorem Inv.wrote (h : Inv vc vs) {value : BitVec 64} {r : Reg} (hw : WroteReg vc vs value r vs') : Inv vc vs' where
  caps := by
    rcases hw.caps with heq | heq | heq
    · rw [heq]
      exact h.caps
    · rw [heq]
      exact BitVec.zero_and
    · rw [heq, BitVec.setWidth_and, BitVec.and_assoc, BitVec.and_self]
  curq := hw.curq
  line := by
    rcases hw.pi with ⟨hpi, hisr⟩ | ⟨hpi, hisr⟩
    · rw [hpi, hisr]
      exact h.line
    · rw [hpi, hisr]
      exact h.line_cleared
  queues q hq := by
    rcases hw.queues q hq with hempty | hused | ⟨hflags, hpfn⟩
    · exact Or.inl hempty
    · exact Or.inr hused
    · rw [hflags, hpfn]
      exact h.queues q hq

theorem isr_set (isr : BitVec 8) : isr ||| vtcfgIsrQueues ≠ 0 := by
  revert isr
  decide

theorem lintrAssert_line (pi : Devinst) (h : pi.lintr ≠ .idle → pi.lintr = if pi.permitted then .asserted else .pending) :
    (pciLintrAssert pi).lintr = if (pciLintrAssert pi).permitted then .asserted else .pending := by
  unfold pciLintrAssert
  split
  · rfl
  · rename_i hne
    exact h hne

/-- The line of a device that has something for the guest. -/
theorem Inv.line_set (h : Inv vc vs) (hne : vs.pi.lintr ≠ .idle) :
    vs.pi.lintr = if vs.pi.permitted then .asserted else .pending := by
  have hline := h.line
  by_cases hisr : vs.vsIsr = 0
  · rw [if_pos hisr] at hline
    exact absurd hline hne
  · rwa [if_neg hisr] at hline

theorem Inv.line_ne_idle (h : Inv vc vs) (hisr : vs.vsIsr ≠ 0) : vs.pi.lintr ≠ .idle := by
  rw [h.line, if_neg hisr]
  split
  all_goals exact nofun

theorem Inv.interrupt (h : Inv vc vs) : Inv vc (vqInterrupt vs) := by
  unfold vqInterrupt
  split
  · exact h
  · refine ⟨h.caps, h.curq, ?_, h.queues⟩
    simp only [if_neg (isr_set vs.vsIsr)]
    exact lintrAssert_line vs.pi h.line_set

theorem lintrUpdate_line (pi : Devinst) (hne : pi.lintr ≠ .idle) :
    (pciLintrUpdate pi).lintr = if (pciLintrUpdate pi).permitted then .asserted else .pending := by
  obtain ⟨msi, msix, intx, lintr⟩ := pi
  cases msi
  all_goals cases msix
  all_goals cases intx
  all_goals cases lintr
  all_goals first
    | rfl
    | exact absurd rfl hne

theorem Inv.config (h : Inv vc vs) (msi msix intxDisabled : Bool) : Inv vc { vs with
    pi := pciLintrUpdate { vs.pi with msiEnabled := msi, msixEnabled := msix, intxDisabled := intxDisabled } } := by
  refine ⟨h.caps, h.curq, ?_, h.queues⟩
  by_cases hisr : vs.vsIsr = 0
  · have hline := h.line
    rw [if_pos hisr] at hline
    simp only [if_pos hisr, pciLintrUpdate, hline]
  · simp only [if_neg hisr]
    exact lintrUpdate_line _ (h.line_ne_idle hisr)

theorem Inv.process (h : Inv vc vs) (q : Nat) (lastAvail saveUsed : BitVec 16) (dev : δ) :
    Inv vc { setQueue vs q { vs.vsQueues q with vqLastAvail := lastAvail, vqSaveUsed := saveUsed } with dev := dev } where
  caps := h.caps
  curq := h.curq
  line := h.line
  queues q' hq' := by
    by_cases hq : q' = q
    · subst hq
      simp only [setQueue, Function.update_self]
      exact h.queues q' hq'
    · simp only [setQueue, Function.update_of_ne hq]
      exact h.queues q' hq'

/-- An access is for the driver, which has no callback for it, or whose callback ends the program. -/
def Ends {α : Type} (newoff : Option Nat) (callback : Option (Nat → Answer α)) : Prop :=
  ∃ o, newoff = some o ∧ ∀ call, callback = some call → call o matches .aborts

theorem viaDriver_error {α β : Type} {newoff : Option Nat} {callback : Option (Nat → Answer α)} {done : α → β}
    {bad : Except Stop β} (hbad : ∃ b, bad = .ok b) :
    (∃ e, viaDriver newoff callback done bad = .error e) ↔ Ends newoff callback := by
  obtain ⟨b, rfl⟩ := hbad
  cases newoff with
  | none => exact iff_of_false nofun nofun
  | some o =>
    cases callback with
    | none => exact iff_of_true ⟨.nullCall, rfl⟩ ⟨o, rfl, nofun⟩
    | some call =>
      simp only [viaDriver]
      cases hanswer : call o with
      | aborts =>
        refine iff_of_true ⟨.aborts, rfl⟩ ⟨o, rfl, fun call' heq => ?_⟩
        obtain rfl := Option.some.inj heq
        rw [hanswer]
      | done value | error =>
        refine iff_of_false nofun fun ⟨o', ho, hall⟩ => ?_
        obtain rfl := Option.some.inj ho
        have hends := hall call rfl
        rw [hanswer] at hends
        cases hends

theorem viaDriver_ok {α β : Type} {newoff : Option Nat} {callback : Option (Nat → Answer α)} {done : α → β}
    {bad : Except Stop β} {b : β} (h : viaDriver newoff callback done bad = .ok b) : bad = .ok b ∨ ∃ a, b = done a := by
  cases newoff with
  | none => exact Or.inl h
  | some o =>
    cases callback with
    | none => cases h
    | some call =>
      simp only [viaDriver] at h
      cases hanswer : call o with
      | done value =>
        rw [hanswer] at h
        cases h
        exact Or.inr ⟨value, rfl⟩
      | error =>
        rw [hanswer] at h
        exact Or.inl h
      | aborts =>
        rw [hanswer] at h
        cases h

theorem Inv.dev (h : Inv vc vs) (dev : δ) : Inv vc { vs with dev := dev } := ⟨h.caps, h.curq, h.line, h.queues⟩

theorem Inv.read (h : Inv vc vs) {offset size : Nat} (hoff : offset < 2 ^ 31) {rd : Read δ}
    (hrd : viPciRead vc vs offset size = .ok rd) : Inv vc rd.vs := by
  rcases viaDriver_ok hrd with hgeneral | ⟨value, rfl⟩
  · obtain ⟨rd', hrd', hvs⟩ := @readGeneral_total _ vc vs h.curq.1 offset size hoff
    obtain rfl := Except.ok.inj (hgeneral.symm.trans hrd')
    rcases hvs with hvs | hvs
    · rw [hvs]
      exact h
    · rw [hvs]
      exact h.acknowledge
  · exact h

theorem Inv.write (h : Inv vc vs) {offset size : Nat} (hoff : offset < 2 ^ 31) {value : BitVec 64}
    (hvalue : value.toNat < 2 ^ (8 * size)) {w : Written δ} (hw : viPciWrite vc ram vs offset size value = .ok w) :
    Inv vc w.vs := by
  rcases viaDriver_ok hw with hgeneral | ⟨dev, rfl⟩
  · obtain ⟨w', hw', hvs⟩ := @writeGeneral_total _ vc ram vs h.curq offset size hoff value hvalue
    obtain rfl := Except.ok.inj (hgeneral.symm.trans hw')
    rcases hvs with hvs | ⟨r, hwrote⟩
    · rw [hvs]
      exact h
    · exact h.wrote hwrote
  · exact h.dev dev

theorem Inv.next (h : Inv vc vs) {op : Op δ} (hs : next vc ram vs op = some vs') : Inv vc vs' := by
  cases op with
  | read offset size =>
    simp only [Registers.next] at hs
    split at hs
    · rename_i hoff
      cases hrd : viPciRead vc vs offset size with
      | error e =>
        rw [hrd] at hs
        cases hs
      | ok rd =>
        rw [hrd] at hs
        obtain rfl := Option.some.inj hs
        exact h.read hoff hrd
    · cases hs
  | write offset size value =>
    simp only [Registers.next] at hs
    split at hs
    · rename_i hok
      cases hw : viPciWrite vc ram vs offset size value with
      | error e =>
        rw [hw] at hs
        cases hs
      | ok w =>
        rw [hw] at hs
        obtain rfl := Option.some.inj hs
        exact h.write hok.1 hok.2 hw
    · cases hs
  | interrupt =>
    obtain rfl := Option.some.inj hs
    exact h.interrupt
  | process q lastAvail saveUsed dev =>
    obtain rfl := Option.some.inj hs
    exact h.process q lastAvail saveUsed dev
  | config msi msix intxDisabled =>
    obtain rfl := Option.some.inj hs
    exact h.config msi msix intxDisabled

theorem Start.inv (h : Start vc vs) : Inv vc vs where
  caps := by
    rw [h.caps]
    exact BitVec.zero_and
  curq := by
    rw [h.curq]
    decide
  line := by rw [h.line, if_pos h.isr]
  queues q hq := Or.inl (h.queues q hq)

theorem reachable_inv (h : (system vc ram).Reachable vs) : Inv vc vs :=
  System.Inductive.reachable ⟨fun _ => Start.inv, fun _ _ _ h => h.next⟩ h

/-! ## Every run -/

variable (vc ram vs)

structure Sound : Prop extends Inv vc vs where
  /-- An access ends the program only where the driver does, or has no callback for what it is asked; -/
  readEnds : ∀ offset size, offset < 2 ^ 31 → ((∃ e, viPciRead vc vs offset size = .error e) ↔
    Ends (driverOffset vc vs offset size) (vc.vcCfgread.map fun cfgread newoff => cfgread vs.dev newoff size (ones size)))
  writeEnds : ∀ offset size value, offset < 2 ^ 31 → value.toNat < 2 ^ (8 * size) →
    ((∃ e, viPciWrite vc ram vs offset size value = .error e) ↔ Ends (driverOffset vc vs offset size)
      (vc.vcCfgwrite.map fun cfgwrite newoff => cfgwrite vs.dev newoff size (value.setWidth 32)))
  /-- one to a register, whole, is a read or write of the registers as the guest sees them, -/
  read : ∀ r : Reg, driverOffset vc vs r.cr.crOffset r.cr.crSize = none →
    ∃ rd, viPciRead vc vs r.cr.crOffset r.cr.crSize = .ok rd ∧ rd.diag = none ∧
      rd.value = (view vc vs).read vc.vcHvCaps r ∧ view vc rd.vs = (view vc vs).afterRead r
  write : ∀ (r : Reg) (value : BitVec 64), driverOffset vc vs r.cr.crOffset r.cr.crSize = none → r.cr.crRo = false →
    value.toNat < 2 ^ (8 * r.cr.crSize) →
    ∃ w, viPciWrite vc ram vs r.cr.crOffset r.cr.crSize value = .ok w ∧
      view vc w.vs = (view vc vs).write vc.vcHvCaps value r
  /-- and any other does nothing but complain. -/
  other : ∀ (offset size : Nat) (value : BitVec 64), offset < 2 ^ 31 → driverOffset vc vs offset size = none →
    (∀ r : Reg, ¬ (r.cr.crOffset = offset ∧ r.cr.crSize = size)) →
    (∃ diag, viPciRead vc vs offset size = .ok ⟨ones size, vs, some diag⟩) ∧
      ∃ diag diags, viPciWrite vc ram vs offset size value = .ok ⟨vs, diag :: diags⟩

theorem registers_sound (h : (system vc ram).Reachable vs) : Sound vc ram vs where
  toInv := reachable_inv h
  readEnds offset size hoff := by
    obtain ⟨rd, hrd, -⟩ := @readGeneral_total _ vc vs (reachable_inv h).curq.1 offset size hoff
    exact viaDriver_error ⟨rd, hrd⟩
  writeEnds offset size value hoff hvalue := by
    obtain ⟨w, hw, -⟩ := @writeGeneral_total _ vc ram vs (reachable_inv h).curq offset size hoff value hvalue
    exact viaDriver_error ⟨w, hw⟩
  read r hnone := by
    obtain ⟨rd, hrd, hdiag, hvalue, hview, -⟩ := @readReg_view _ vc vs (reachable_inv h).curq.1 r
    refine ⟨rd, ?_, hdiag, hvalue, hview⟩
    rw [viPciRead, hnone]
    exact (readGeneral_reg r).trans hrd
  write r value hnone hro hvalue := by
    obtain ⟨w, hw, hwrote⟩ := @writeReg_view _ vc ram vs (reachable_inv h).curq r hro value hvalue
    refine ⟨w, ?_, hwrote.view⟩
    rw [viPciWrite, hnone]
    refine (writeGeneral_reg r value).trans ?_
    rw [if_neg (by rw [hro]; exact Bool.false_ne_true), hw]
  other offset size value hoff hnone hno := by
    rw [viPciRead, viPciWrite, hnone]
    exact ⟨readGeneral_other hoff hno, writeGeneral_other hoff hno value⟩

end Device

/-- A device with one queue of eight. -/
def oneQueue : VirtioConsts Unit where
  vcName := "dev"
  vcNvq := 1
  vcCfgsize := 8
  vcReset := id
  vcQnotify := none
  vcCfgread := some fun _ _ _ value => .done value
  vcCfgwrite := none
  vcApplyFeatures := none
  vcHvCaps := 0x10000000

def oneQueueRam : GuestRam where
  lowmem := 0x340000
  highmem := 0x7000
  lowmemAddr := 0x13000000
  highmemAddr := 0x14000000
  lowmem_lt := by decide
  highmem_lt := by decide
  lowmemAddr_aligned := by decide
  highmemAddr_aligned := by decide
  lowmemAddr_pos _ := by decide
  highmemAddr_pos _ := by decide

def oneQueueFresh : VirtioSoftc Unit where
  vsNegotiatedCaps := 0
  vsQueues _ := ⟨8, 0, 0, 0, virtioMsiNoVector, 0, ⟨0, 0, 0⟩⟩
  vsCurq := 0
  vsStatus := 0
  vsIsr := 0
  vsMsixCfgIdx := virtioMsiNoVector
  pi := ⟨false, false, false, .idle⟩
  dev := ()

theorem registers_sound_interrupt : ∃ vs, (system oneQueue oneQueueRam).Reachable vs ∧ vs.vsIsr = 1 ∧
    vs.pi.lintr = .asserted ∧ (vs.vsQueues 0).vqPfn = 2 ∧ Sound oneQueue oneQueueRam vs := by
  have hrun : (System.exec (next oneQueue oneQueueRam) oneQueueFresh
      [.write vtcfgRQsel 2 0, .write vtcfgRPfn 4 2, .interrupt]).map
      (fun vs => (vs.vsIsr, vs.pi.lintr, (vs.vsQueues 0).vqPfn)) = some (1, .asserted, 2) := by
    decide +kernel
  obtain ⟨vs, hs, hobs⟩ := Option.map_eq_some_iff.mp hrun
  have hr : (system oneQueue oneQueueRam).Reachable vs :=
    System.exec_reachable (.init ⟨rfl, rfl, rfl, rfl, fun _ _ => ⟨rfl, rfl⟩⟩) hs
  simp only [Prod.mk.injEq] at hobs
  exact ⟨vs, hr, hobs.1, hobs.2.1, hobs.2.2, registers_sound oneQueue oneQueueRam vs hr⟩

end Xhyve.Virtio.Registers
