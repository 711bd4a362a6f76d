import Xhyve.Emul.PciCapsWrites

/-!
# MSI and MSI-X capabilities

A write to one of the two capabilities also decodes its message control register into `pi_msi` or
`pi_msix`, which the interrupt code reads instead of the configuration space. `pci_cfgrw` as in
`PciConfig`, with this state beside the configuration space.
-/

namespace Xhyve.Emul.Pci

open Xhyve.Lib Xhyve.Lib.Mem

def pcimMsictrl64bit : Nat := 0x0080
def pcimMsictrlMmeMask : Nat := 0x0070
def pcimMsictrlMsiEnable : Nat := 0x0001
def pcimMsixctrlMsixEnable : Nat := 0x8000
def pcimMsixctrlFunctionMask : Nat := 0x4000

/-- `pi_msi`. -/
structure Msi where
  enabled : Nat
  addr : Nat
  msgData : Nat
  maxmsgnum : Nat
deriving DecidableEq, Repr

/-- `pi_msix`, as far as configuration writes set it. -/
structure Msix where
  enabled : Nat
  functionMask : Nat
deriving DecidableEq, Repr

structure MsiDev where
  dev : Devinst
  piMsi : Msi
  piMsix : Msix

/-- The message control register at `offset` after a write of `val`. -/
def msgctrlWritten (cfg : Mem) (offset rwmask val : Nat) : Nat :=
  (load 2 cfg offset &&& (0xffff ^^^ rwmask)) ||| (val &&& rwmask)

def msixcapCfgwrite (pi : MsiDev) (capoff offset bytes val : Nat) : MsiDev :=
  if offset - capoff = 2 ∧ bytes = 2 then
    let rwmask := pcimMsixctrlMsixEnable ||| pcimMsixctrlFunctionMask
    let val := msgctrlWritten pi.dev.cfgdata offset rwmask val
    { pi with
      dev := cfgwrite pi.dev offset val bytes
      piMsix := ⟨val &&& pcimMsixctrlMsixEnable, val &&& pcimMsixctrlFunctionMask⟩ }
  else { pi with dev := cfgwrite pi.dev offset val bytes }

def msicapCfgwrite (pi : MsiDev) (capoff offset bytes val : Nat) : MsiDev :=
  if offset - capoff = 2 ∧ bytes = 2 then
    let rwmask := pcimMsictrlMmeMask ||| pcimMsictrlMsiEnable
    let msgctrl := msgctrlWritten pi.dev.cfgdata offset rwmask val
    let addrlo := load 4 pi.dev.cfgdata (capoff + 4)
    let msgdata :=
      if msgctrl &&& pcimMsictrl64bit ≠ 0 then load 2 pi.dev.cfgdata (capoff + 12)
      else load 2 pi.dev.cfgdata (capoff + 8)
    let mme := msgctrl &&& pcimMsictrlMmeMask
    { pi with
      dev := cfgwrite pi.dev offset msgctrl bytes
      piMsi :=
        if msgctrl &&& pcimMsictrlMsiEnable ≠ 0 then ⟨1, addrlo, msgdata, 1 <<< (mme >>> 4)⟩
        else { pi.piMsi with enabled := 0, maxmsgnum := 0 } }
  else { pi with dev := cfgwrite pi.dev offset val bytes }

def pciecapCfgwrite (pi : MsiDev) (offset bytes val : Nat) : MsiDev :=
  { pi with dev := cfgwrite pi.dev offset val bytes }

/-- The switch on the capability's identifier. -/
def capSwitch (pi : MsiDev) (capid capoff offset bytes val : Nat) : MsiDev :=
  if capid = pciyMsi then msicapCfgwrite pi capoff offset bytes val
  else if capid = pciyMsix then msixcapCfgwrite pi capoff offset bytes val
  else if capid = pciyExpress then pciecapCfgwrite pi offset bytes val
  else pi

/-- `pci_emul_capwrite` with the decoded state. -/
def capwriteMsi (pi : MsiDev) (offset bytes val : Nat) : Except Abort MsiDev :=
  if offset % bytes ≠ 0 then .ok pi
  else match capFind pi.dev.cfgdata offset 256 capStartOffset with
  | none => .error .capability
  | some capoff =>
    if offset < capoff then .error .capability
    else
      let capid := load 1 pi.dev.cfgdata capoff
      if offset = capoff ∨ offset = capoff + 1 then
        if offset = capoff ∧ bytes = 4 then
          .ok (capSwitch pi capid capoff (offset + 2) 2 (val >>> 16))
        else .ok pi
      else .ok (capSwitch pi capid capoff offset bytes val)

/-- The bus, with the decoded state of each function. -/
structure MsiBus where
  bus : Bus
  piMsi : Nat → Msi
  piMsix : Nat → Msix

def MsiBus.setDev (s : MsiBus) (p : Nat) (pi : MsiDev) : MsiBus where
  bus := s.bus.setDev p pi.dev
  piMsi := Function.update s.piMsi p pi.piMsi
  piMsix := Function.update s.piMsix p pi.piMsix

/-- The write is one for `pci_emul_capwrite`: no branch of `pci_cfgrw` before it takes it. -/
def reachesCap (pi : Devinst) (w : CfgWrite) : Bool :=
  w.aligned ∧ w.coff < pciRegmax + 1 ∧
    (pi.peCfgwrite.bind fun f => f.run w.coff w.bytes w.eax.toNat pi.cfgdata).isNone ∧
    ¬ (pcirBar 0 ≤ w.coff ∧ w.coff < pcirBar (pciBarmax + 1)) ∧ pciEmulIscap pi w.coff

def cfgwriteMsi (s : MsiBus) (p : Nat) (pi : Devinst) (w : CfgWrite) : Except Abort MsiBus :=
  if reachesCap pi w then
    (capwriteMsi ⟨pi, s.piMsi p, s.piMsix p⟩ w.coff w.bytes w.eax.toNat).map fun pi => s.setDev p pi
  else (cfgwriteDev s.bus p pi w).map fun bus => { s with bus }

/-- `pci_cfgrw` with the decoded state. -/
def pciCfgrwMsi (fiDevi : Nat → Nat → Nat → Option Nat) (s : MsiBus) (w : CfgWrite) :
    Except Abort MsiBus :=
  match fiDevi w.bus w.slot w.func with
  | none => .ok s
  | some p =>
    match s.bus.devs p with
    | none => .ok s
    | some pi => cfgwriteMsi s p pi w

/-! ## The configuration space is written as before -/

section Config
variable {pi : MsiDev} {capid capoff offset bytes val : Nat}

theorem msicapCfgwrite_cfg : (msicapCfgwrite pi capoff offset bytes val).dev =
    cfgwrite pi.dev offset
      (if offset - capoff = 2 ∧ bytes = 2 then
        msgctrlWritten pi.dev.cfgdata offset (0x0070 ||| 0x0001) val else val) bytes := by
  unfold msicapCfgwrite
  split
  · rfl
  · rfl

theorem msixcapCfgwrite_cfg : (msixcapCfgwrite pi capoff offset bytes val).dev =
    cfgwrite pi.dev offset
      (if offset - capoff = 2 ∧ bytes = 2 then
        msgctrlWritten pi.dev.cfgdata offset (0x8000 ||| 0x4000) val else val) bytes := by
  unfold msixcapCfgwrite
  split
  · rfl
  · rfl

theorem capSwitch_cfg : (capSwitch pi capid capoff offset bytes val).dev =
    match capMerge pi.dev capid (offset - capoff) offset bytes val with
    | some val => cfgwrite pi.dev offset val bytes
    | none => pi.dev := by
  unfold capSwitch capMerge
  simp only
  by_cases hmsi : capid = pciyMsi
  · rw [if_pos hmsi, if_pos hmsi, msicapCfgwrite_cfg]
    rfl
  rw [if_neg hmsi, if_neg hmsi]
  by_cases hmsix : capid = pciyMsix
  · rw [if_pos hmsix, if_pos hmsix, msixcapCfgwrite_cfg]
    rfl
  rw [if_neg hmsix, if_neg hmsix]
  by_cases hexp : capid = pciyExpress
  · rw [if_pos hexp, if_pos hexp]
    rfl
  · rw [if_neg hexp, if_neg hexp]

theorem capwriteMsi_cfg (pi : MsiDev) (offset bytes val : Nat) :
    (capwriteMsi pi offset bytes val).map MsiDev.dev = pciEmulCapwrite pi.dev offset bytes val := by
  unfold capwriteMsi pciEmulCapwrite
  by_cases hmod : offset % bytes ≠ 0
  · rw [if_pos hmod, if_pos hmod]
    rfl
  rw [if_neg hmod, if_neg hmod]
  cases hfind : capFind pi.dev.cfgdata offset 256 capStartOffset with
  | none => rfl
  | some capoff =>
    simp only
    by_cases hlt : offset < capoff
    · rw [if_pos hlt, if_pos hlt]
      rfl
    rw [if_neg hlt, if_neg hlt]
    by_cases hheader : offset = capoff ∨ offset = capoff + 1
    · rw [if_pos hheader]
      by_cases htrim : offset = capoff ∧ bytes = 4
      · rw [if_pos htrim, if_neg fun h => h.2 htrim]
        simp only [if_pos htrim.1, Except.map]
        rw [capSwitch_cfg]
        cases capMerge pi.dev (load 1 pi.dev.cfgdata capoff) (offset + 2 - capoff) (offset + 2) 2
          (val >>> 16) with
        | none => rfl
        | some v => rfl
      · rw [if_neg htrim, if_pos ⟨hheader, htrim⟩]
        rfl
    · have hne : ¬ offset = capoff := fun h => hheader (Or.inl h)
      rw [if_neg hheader, if_neg fun h => hheader h.1]
      simp only [if_neg hne, Except.map]
      rw [capSwitch_cfg]
      cases capMerge pi.dev (load 1 pi.dev.cfgdata capoff) (offset - capoff) offset bytes val with
      | none => rfl
      | some v => rfl

end Config

theorem cfgwriteMsi_bus (s : MsiBus) (p : Nat) (pi : Devinst) (w : CfgWrite) :
    (cfgwriteMsi s p pi w).map MsiBus.bus = cfgwriteDev s.bus p pi w := by
  unfold cfgwriteMsi
  by_cases hcap : reachesCap pi w = true
  · rw [if_pos hcap]
    simp only [reachesCap, decide_eq_true_eq] at hcap
    obtain ⟨hal, hcoff, hnone, hbar, hiscap⟩ := hcap
    have hcfg := capwriteMsi_cfg ⟨pi, s.piMsi p, s.piMsix p⟩ w.coff w.bytes w.eax.toNat
    unfold cfgwriteDev
    rw [if_neg (by simp [hal]; omega), Option.isNone_iff_eq_none.mp hnone]
    simp only
    rw [if_neg hbar, if_pos hiscap]
    rw [← hcfg]
    cases capwriteMsi ⟨pi, s.piMsi p, s.piMsix p⟩ w.coff w.bytes w.eax.toNat with
    | error e => rfl
    | ok d => rfl
  · rw [if_neg hcap]
    cases cfgwriteDev s.bus p pi w with
    | error e => rfl
    | ok bus => rfl

/-- The decoded state takes no part in what happens to the bus. -/
theorem pciCfgrwMsi_bus (fiDevi : Nat → Nat → Nat → Option Nat) (s : MsiBus) (w : CfgWrite) :
    (pciCfgrwMsi fiDevi s w).map MsiBus.bus = pciCfgrw fiDevi s.bus w := by
  unfold pciCfgrwMsi pciCfgrw
  cases fiDevi w.bus w.slot w.func with
  | none => rfl
  | some p =>
    simp only
    cases s.bus.devs p with
    | none => rfl
    | some pi => exact cfgwriteMsi_bus s p pi w

end Xhyve.Emul.Pci
