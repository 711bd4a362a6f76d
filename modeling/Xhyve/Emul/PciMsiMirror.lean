import Xhyve.Emul.PciMsi
import Mathlib.Data.Nat.Bitwise

/-!
# The decoded state and the configuration space

`pi_msi` and `pi_msix` are refreshed by a 2-byte write of message control and by nothing else. They
follow the configuration space as long as the guest writes that register whole, leaves the message
alone while MSI is on, and keeps it below 4 GiB.
-/

namespace Xhyve.Emul.Pci

open Xhyve.Lib Xhyve.Lib.Mem

/-! ## The capabilities devices add -/

/-- `ffs` of an `int`. -/
def ffs (n : Nat) : Nat :=
  match (List.range 32).find? n.testBit with
  | some i => i + 1
  | none => 0

inductive Cap
  | msi (msgnum : Nat)
  | msix (msgnum barnum : Nat)
  | express
deriving DecidableEq, Repr

/-- `pci_populate_msicap`. -/
def msicap (msgnum : Nat) : List UInt8 :=
  let mmc := ffs msgnum - 1
  ([0x05, 0] : List UInt8) ++ LittleEndian.bytes 2 (pcimMsictrl64bit ||| mmc <<< 1) ++
    LittleEndian.bytes 4 0 ++ LittleEndian.bytes 4 0 ++ LittleEndian.bytes 2 0

/-- The size of the MSI-X table, up to whole pages. -/
def msixTabSize (msgnum : Nat) : Nat := (msgnum * 16 + 4095) / 4096 * 4096

/-- `pci_populate_msixcap`. -/
def msixcap (msgnum barnum : Nat) : List UInt8 :=
  ([0x11, 0] : List UInt8) ++ LittleEndian.bytes 2 (msgnum - 1) ++ LittleEndian.bytes 4 (barnum &&& 0x7) ++
    LittleEndian.bytes 4 (msixTabSize msgnum ||| (barnum &&& 0x7))

/-- The structure `pci_emul_add_pciecap` fills in. -/
def pciecap : List UInt8 :=
  ([0x10, 0] : List UInt8) ++ LittleEndian.bytes 2 (0x2 ||| 0x40) ++ LittleEndian.bytes 8 0 ++
    LittleEndian.bytes 4 0x411 ++ LittleEndian.bytes 2 0 ++ LittleEndian.bytes 2 0x11 ++
    LittleEndian.bytes 40 0

def Cap.capid : Cap → UInt8
  | .msi _ => 0x05
  | .msix _ _ => 0x11
  | .express => 0x10

def Cap.data : Cap → List UInt8
  | .msi msgnum => msicap msgnum
  | .msix msgnum barnum => msixcap msgnum barnum
  | .express => pciecap

/-- The assertions on the numbers of messages and on the BAR. -/
def Cap.Asserted : Cap → Prop
  | .msi msgnum => msgnum &&& (msgnum - 1) = 0 ∧ 1 ≤ msgnum ∧ msgnum ≤ 32
  | .msix msgnum barnum => 1 ≤ msgnum ∧ msgnum ≤ 2048 ∧ barnum ≤ 5
  | .express => True

/-! ## What the configuration space says -/

def msgctrl (cfg : Mem) (b : Block) : Nat := load 2 cfg (b.off + 2)

def msiOn (cfg : Mem) (b : Block) : Prop := msgctrl cfg b &&& pcimMsictrlMsiEnable ≠ 0

instance (cfg : Mem) (b : Block) : Decidable (msiOn cfg b) := inferInstanceAs (Decidable (_ ≠ _))

/-- The upper half of the address is there when the capability has 64-bit addresses. -/
def msgAddr (cfg : Mem) (b : Block) : Nat :=
  if msgctrl cfg b &&& pcimMsictrl64bit ≠ 0 then
    load 4 cfg (b.off + 4) + 2 ^ 32 * load 4 cfg (b.off + 8)
  else load 4 cfg (b.off + 4)

def msgData (cfg : Mem) (b : Block) : Nat :=
  if msgctrl cfg b &&& pcimMsictrl64bit ≠ 0 then load 2 cfg (b.off + 12) else load 2 cfg (b.off + 8)

/-- `pi_msi` as the capability at `b` encodes it while it is on. -/
def msiShown (cfg : Mem) (b : Block) : Msi where
  enabled := 1
  addr := msgAddr cfg b
  msgData := msgData cfg b
  maxmsgnum := 1 <<< ((msgctrl cfg b &&& pcimMsictrlMmeMask) >>> 4)

def msixShown (cfg : Mem) (b : Block) : Msix where
  enabled := msgctrl cfg b &&& pcimMsixctrlMsixEnable
  functionMask := msgctrl cfg b &&& pcimMsixctrlFunctionMask

/-- The decoded state of a function is what its capabilities encode. -/
structure Mirrors (cfg : Mem) (bs : List Block) (msi : Msi) (msix : Msix) : Prop where
  msi : ∀ b ∈ bs, b.id = 0x05 → msiOn cfg b → msi = msiShown cfg b
  msix : ∀ b ∈ bs, b.id = 0x11 → msix = msixShown cfg b

/-- Writes to message control turn MSI on. -/
def turnsOn (b : Block) (w : CfgWrite) : Prop :=
  w.coff = b.off + 2 ∧ w.bytes = 2 ∧ w.eax.toNat &&& pcimMsictrlMsiEnable ≠ 0 ∨
    w.coff = b.off ∧ w.bytes = 4 ∧ (w.eax.toNat >>> 16) &&& pcimMsictrlMsiEnable ≠ 0

instance (b : Block) (w : CfgWrite) : Decidable (turnsOn b w) := inferInstanceAs (Decidable (_ ∨ _))

/-- A write the decoded state follows. -/
structure Followed (cfg : Mem) (bs : List Block) (w : CfgWrite) : Prop where
  /-- Message control is not written by bytes. -/
  whole : ∀ b ∈ bs, b.id = 0x05 ∨ b.id = 0x11 → w.bytes = 1 → w.coff < b.off + 2 ∨ b.off + 4 ≤ w.coff
  /-- Address and data are not written while MSI is on. -/
  still : ∀ b ∈ bs, b.id = 0x05 → msiOn cfg b → w.coff + w.bytes ≤ b.off + 4 ∨ b.off + 14 ≤ w.coff
  /-- MSI is turned on for an address below 4 GiB. -/
  low : ∀ b ∈ bs, b.id = 0x05 → turnsOn b w → load 4 cfg (b.off + 8) = 0

/-! ## One write -/

section Shown
variable {cfg cfg' : Mem} {b : Block}

theorem msgctrl_congr (h : ∀ x, b.off + 2 ≤ x → x < b.off + 4 → cfg' x = cfg x) :
    msgctrl cfg' b = msgctrl cfg b :=
  load_congr fun i hi => h _ (by omega) (by omega)

theorem msiShown_congr (h : ∀ x, b.off + 2 ≤ x → x < b.off + 14 → cfg' x = cfg x) :
    msiShown cfg' b = msiShown cfg b := by
  have hctrl : msgctrl cfg' b = msgctrl cfg b := msgctrl_congr fun x hlo hhi => h x hlo (by omega)
  have h4 : load 4 cfg' (b.off + 4) = load 4 cfg (b.off + 4) :=
    load_congr fun i hi => h _ (by omega) (by omega)
  have h8 : load 4 cfg' (b.off + 8) = load 4 cfg (b.off + 8) :=
    load_congr fun i hi => h _ (by omega) (by omega)
  have h8' : load 2 cfg' (b.off + 8) = load 2 cfg (b.off + 8) :=
    load_congr fun i hi => h _ (by omega) (by omega)
  have h12 : load 2 cfg' (b.off + 12) = load 2 cfg (b.off + 12) :=
    load_congr fun i hi => h _ (by omega) (by omega)
  unfold msiShown msgAddr msgData
  rw [hctrl, h4, h8, h8', h12]

end Shown

section Merge
variable {cfg : Mem} {offset rwmask val k : Nat}

/-- Bits the guest may write are the written ones. -/
theorem msgctrlWritten_and (hro : (0xffff ^^^ rwmask) &&& k = 0) (hrw : rwmask &&& k = k) :
    msgctrlWritten cfg offset rwmask val &&& k = val &&& k := by
  unfold msgctrlWritten
  rw [Nat.and_or_distrib_right, Nat.and_assoc, hro, Nat.and_zero, Nat.zero_or, Nat.and_assoc, hrw]

theorem msgctrlWritten_lt (hrw : rwmask < 2 ^ 16) :
    msgctrlWritten cfg offset rwmask val < 256 ^ 2 := by
  have hload : load 2 cfg offset < 2 ^ 16 := load_lt 2 cfg offset
  exact Nat.or_lt_two_pow (n := 16) (Nat.and_lt_two_pow _ (Nat.xor_lt_two_pow (by decide) hrw))
    (Nat.and_lt_two_pow _ hrw)

end Merge

section Switch
variable {pi : MsiDev} {capid capoff offset bytes val : Nat}

theorem capSwitch_outside {x : Nat} (hx : x < offset ∨ offset + bytes ≤ x) :
    (capSwitch pi capid capoff offset bytes val).dev.cfgdata x = pi.dev.cfgdata x := by
  rw [capSwitch_cfg]
  split
  · exact store_outside hx
  · rfl

/-- `pi_msi` is set by a write of the whole of MSI's message control. -/
theorem capSwitch_msi (h : ¬ (capid = pciyMsi ∧ offset - capoff = 2 ∧ bytes = 2)) :
    (capSwitch pi capid capoff offset bytes val).piMsi = pi.piMsi := by
  unfold capSwitch
  split
  · rename_i hid
    rw [msicapCfgwrite, if_neg fun hw => h ⟨hid, hw⟩]
  · split
    · unfold msixcapCfgwrite
      split
      · rfl
      · rfl
    · split
      · rfl
      · rfl

theorem capSwitch_msix (h : ¬ (capid = pciyMsix ∧ offset - capoff = 2 ∧ bytes = 2)) :
    (capSwitch pi capid capoff offset bytes val).piMsix = pi.piMsix := by
  unfold capSwitch
  split
  · unfold msicapCfgwrite
    split
    · rfl
    · rfl
  · split
    · rename_i hid
      rw [msixcapCfgwrite, if_neg fun hw => h ⟨hid, hw⟩]
    · split
      · rfl
      · rfl

end Switch

section Refresh
variable {pi : MsiDev} {b : Block} {val : Nat}

/-- A write of MSI's message control decodes the capability anew. -/
theorem msicap_refreshed (hlow : val &&& pcimMsictrlMsiEnable ≠ 0 → load 4 pi.dev.cfgdata (b.off + 8) = 0)
    (hon : msiOn (msicapCfgwrite pi b.off (b.off + 2) 2 val).dev.cfgdata b) :
    (msicapCfgwrite pi b.off (b.off + 2) 2 val).piMsi =
      msiShown (msicapCfgwrite pi b.off (b.off + 2) 2 val).dev.cfgdata b := by
  have hwrite : b.off + 2 - b.off = 2 ∧ (2 : Nat) = 2 := ⟨by omega, rfl⟩
  unfold msicapCfgwrite at hon ⊢
  rw [if_pos hwrite] at hon ⊢
  simp only [cfgwrite] at hon ⊢
  generalize hv : msgctrlWritten pi.dev.cfgdata (b.off + 2)
    (pcimMsictrlMmeMask ||| pcimMsictrlMsiEnable) val = v at hon ⊢
  have hlt : v < 256 ^ 2 := by
    rw [← hv]
    exact msgctrlWritten_lt (by decide)
  have hctrl : msgctrl (store 2 pi.dev.cfgdata (b.off + 2) v) b = v := load_store hlt
  have hen : v &&& pcimMsictrlMsiEnable ≠ 0 := by
    rw [← hctrl]
    exact hon
  have hzero : load 4 pi.dev.cfgdata (b.off + 8) = 0 := by
    refine hlow ?_
    rw [← hv, msgctrlWritten_and (by decide) (by decide)] at hen
    exact hen
  have hload : ∀ n a, b.off + 4 ≤ a →
      load n (store 2 pi.dev.cfgdata (b.off + 2) v) a = load n pi.dev.cfgdata a :=
    fun n a ha => load_store_of_disjoint (Or.inr (by omega))
  rw [if_pos hen]
  unfold msiShown msgAddr msgData
  rw [hctrl, hload 4 _ (by omega), hload 4 _ (by omega), hload 2 _ (by omega), hload 2 _ (by omega),
    hzero]
  simp only [Nat.mul_zero, Nat.add_zero, ite_self]

theorem msixcap_refreshed :
    (msixcapCfgwrite pi b.off (b.off + 2) 2 val).piMsix =
      msixShown (msixcapCfgwrite pi b.off (b.off + 2) 2 val).dev.cfgdata b := by
  have hwrite : b.off + 2 - b.off = 2 ∧ (2 : Nat) = 2 := ⟨by omega, rfl⟩
  unfold msixcapCfgwrite
  rw [if_pos hwrite]
  simp only [cfgwrite, msixShown]
  have hctrl : msgctrl (store 2 pi.dev.cfgdata (b.off + 2) (msgctrlWritten pi.dev.cfgdata (b.off + 2)
      (pcimMsixctrlMsixEnable ||| pcimMsixctrlFunctionMask) val)) b = msgctrlWritten pi.dev.cfgdata
      (b.off + 2) (pcimMsixctrlMsixEnable ||| pcimMsixctrlFunctionMask) val :=
    load_store (msgctrlWritten_lt (by decide))
  rw [hctrl]

end Refresh

/-- The part of a guest's write a capability is given: all of it, or the half behind the header. -/
structure Placed (b : Block) (w : CfgWrite) (offset bytes val : Nat) : Prop where
  lo : b.off + 2 ≤ offset
  hi : offset + bytes ≤ b.off + b.len
  part : offset = w.coff ∧ bytes = w.bytes ∧ val = w.eax.toNat ∨
    offset = b.off + 2 ∧ bytes = 2 ∧ val = w.eax.toNat >>> 16 ∧ w.coff = b.off ∧ w.bytes = 4

theorem Chain.id_eq {cfg : Mem} {bs : List Block} {b : Block} (h : Chain cfg bs) (hb : b ∈ bs) :
    cfg b.off = b.id := by
  induction bs with
  | nil => cases hb
  | cons c bs ih =>
    rcases List.mem_cons.mp hb with rfl | hb
    · exact h.1
    · exact ih h.2.2 hb

section Write
variable {pi pi' : MsiDev} {bs : List Block} {e : Nat} {w : CfgWrite} {b : Block}
  {offset bytes val : Nat}

/-- A write goes to the capability that holds it, or nowhere. -/
theorem capwriteMsi_cases (h : CapsOk pi.dev bs e) (hal : w.aligned = true)
    (hcap : pciEmulIscap pi.dev w.coff = true)
    (hok : capwriteMsi pi w.coff w.bytes w.eax.toNat = .ok pi') :
    pi' = pi ∨ ∃ b ∈ bs, ∃ offset bytes val, Placed b w offset bytes val ∧
      pi' = capSwitch pi b.id.toNat b.off offset bytes val := by
  obtain ⟨b, hb, hlo, hhi, hfind⟩ := h.find hcap
  obtain ⟨_, _, hboff, hlen, hlen'⟩ := h.laid.bounds (by decide) hb
  have hcases := aligned_cases hal
  unfold capwriteMsi at hok
  rw [hfind] at hok
  simp only [load_one, h.chain.id_eq hb] at hok
  split at hok
  · exact Or.inl (Except.ok.inj hok).symm
  rw [if_neg (by omega)] at hok
  split at hok
  · split at hok
    · rename_i htrim
      refine Or.inr ⟨b, hb, _, _, _, ⟨by omega, by omega, Or.inr ?_⟩, (Except.ok.inj hok).symm⟩
      exact ⟨by rw [htrim.1], rfl, rfl, htrim⟩
    · exact Or.inl (Except.ok.inj hok).symm
  · rename_i hheader
    refine Or.inr ⟨b, hb, _, _, _, ⟨by omega, by omega, Or.inl ⟨rfl, rfl, rfl⟩⟩, ?_⟩
    exact (Except.ok.inj hok).symm

/-- Behind the header a write is to message control as a whole, to bytes of it, or behind it. -/
theorem Placed.control (h : CapsOk pi.dev bs e) (hb : b ∈ bs) (hal : w.aligned = true)
    (hpl : Placed b w offset bytes val)
    (hwhole : w.bytes = 1 → w.coff < b.off + 2 ∨ b.off + 4 ≤ w.coff) :
    offset = b.off + 2 ∧ bytes = 2 ∨ b.off + 4 ≤ offset ∧ offset = w.coff ∧ bytes = w.bytes := by
  obtain ⟨_, _, hboff, _, _⟩ := h.laid.bounds (by decide) hb
  have hlo := hpl.lo
  have hcases := aligned_cases hal
  rcases hpl.part with ⟨hoff, hbytes, -⟩ | ⟨hoff, hbytes, -⟩
  · rcases hcases with h1 | ⟨h2, hmod⟩ | ⟨h4, hmod⟩
    · have := hwhole h1
      exact Or.inr ⟨by omega, hoff, hbytes⟩
    · by_cases hctrl : offset = b.off + 2
      · exact Or.inl ⟨hctrl, hbytes.trans h2⟩
      · exact Or.inr ⟨by omega, hoff, hbytes⟩
    · exact Or.inr ⟨by omega, hoff, hbytes⟩
  · exact Or.inl ⟨hoff, hbytes⟩

/-- What the decoded state needs of the capabilities. -/
structure Single (bs : List Block) : Prop where
  unique : ∀ b ∈ bs, ∀ c ∈ bs, b.id = c.id → b = c
  long : ∀ b ∈ bs, b.id = 0x05 → 14 ≤ b.len

/-- Another capability's bytes are not touched. -/
theorem capSwitch_apart {c : Block} {x capid : Nat} (h : CapsOk pi.dev bs e) (hb : b ∈ bs) (hc : c ∈ bs)
    (hne : c ≠ b) (hpl : Placed b w offset bytes val) (hlo : c.off ≤ x) (hhi : x < c.off + c.len) :
    (capSwitch pi capid b.off offset bytes val).dev.cfgdata x = pi.dev.cfgdata x := by
  have hplo := hpl.lo
  have hphi := hpl.hi
  apply capSwitch_outside
  rcases h.laid.apart (by decide) hb hc with heq | hap | hap
  · exact absurd heq hne
  · omega
  · omega

theorem id_toNat_msi : b.id.toNat = pciyMsi ↔ b.id = 0x05 := by
  rw [← UInt8.toNat_inj]
  rfl

theorem id_toNat_msix : b.id.toNat = pciyMsix ↔ b.id = 0x11 := by
  rw [← UInt8.toNat_inj]
  rfl

theorem switch_msi_mirrors (h : CapsOk pi.dev bs e) (hs : Single bs) (hal : w.aligned = true)
    (hf : Followed pi.dev.cfgdata bs w) (hm : Mirrors pi.dev.cfgdata bs pi.piMsi pi.piMsix)
    (hb : b ∈ bs) (hpl : Placed b w offset bytes val) {c : Block} (hc : c ∈ bs) (hid : c.id = 0x05)
    (hon : msiOn (capSwitch pi b.id.toNat b.off offset bytes val).dev.cfgdata c) :
    (capSwitch pi b.id.toNat b.off offset bytes val).piMsi =
      msiShown (capSwitch pi b.id.toNat b.off offset bytes val).dev.cfgdata c := by
  have hlen := hs.long c hc hid
  by_cases hbc : c = b
  · subst hbc
    rcases hpl.control h hb hal (hf.whole c hc (Or.inl hid)) with ⟨rfl, rfl⟩ | ⟨hbehind, hoff, hbytes⟩
    · -- message control: decoded anew
      have hsw : capSwitch pi c.id.toNat c.off (c.off + 2) 2 val =
          msicapCfgwrite pi c.off (c.off + 2) 2 val := by
        rw [capSwitch, if_pos (id_toNat_msi.mpr hid)]
      rw [hsw] at hon ⊢
      refine msicap_refreshed (fun hen => hf.low c hc hid ?_) hon
      rcases hpl.part with ⟨hcoff, hb2, hval⟩ | ⟨-, -, hval, hcoff, hb4⟩
      · exact Or.inl ⟨hcoff.symm, hb2.symm, by rw [← hval]; exact hen⟩
      · exact Or.inr ⟨hcoff, hb4, by rw [← hval]; exact hen⟩
    · -- behind message control: MSI is off, or the write is behind the message too
      have hctrl : msgctrl (capSwitch pi c.id.toNat c.off offset bytes val).dev.cfgdata c =
          msgctrl pi.dev.cfgdata c :=
        msgctrl_congr fun x _ hx => capSwitch_outside (by omega)
      have hwas : msiOn pi.dev.cfgdata c := by
        unfold msiOn at hon ⊢
        rw [hctrl] at hon
        exact hon
      have hstill := hf.still c hc hid hwas
      have hpos : 0 < w.bytes := by
        have := aligned_cases hal
        omega
      rw [capSwitch_msi (by omega), hm.msi c hc hid hwas]
      exact (msiShown_congr fun x hlo hx => capSwitch_outside (by omega)).symm
  · have hne : b.id.toNat ≠ pciyMsi := fun heq =>
      hbc (hs.unique c hc b hb (hid.trans (id_toNat_msi.mp heq).symm))
    have hsame : ∀ x, c.off + 2 ≤ x → x < c.off + 14 →
        (capSwitch pi b.id.toNat b.off offset bytes val).dev.cfgdata x = pi.dev.cfgdata x :=
      fun x hlo hx => capSwitch_apart h hb hc hbc hpl (by omega) (by omega)
    have hwas : msiOn pi.dev.cfgdata c := by
      have hctrl := msgctrl_congr fun x hlo hx => hsame x hlo (by omega)
      unfold msiOn at hon ⊢
      rw [hctrl] at hon
      exact hon
    rw [capSwitch_msi fun hw => hne hw.1, hm.msi c hc hid hwas]
    exact (msiShown_congr hsame).symm

theorem switch_msix_mirrors (h : CapsOk pi.dev bs e) (hs : Single bs) (hal : w.aligned = true)
    (hf : Followed pi.dev.cfgdata bs w) (hm : Mirrors pi.dev.cfgdata bs pi.piMsi pi.piMsix)
    (hb : b ∈ bs) (hpl : Placed b w offset bytes val) {c : Block} (hc : c ∈ bs) (hid : c.id = 0x11) :
    (capSwitch pi b.id.toNat b.off offset bytes val).piMsix =
      msixShown (capSwitch pi b.id.toNat b.off offset bytes val).dev.cfgdata c := by
  have hlen := (h.laid.bounds (by decide) hc).2.2.2.2
  have hkept : (∀ x, c.off + 2 ≤ x → x < c.off + 4 →
        (capSwitch pi b.id.toNat b.off offset bytes val).dev.cfgdata x = pi.dev.cfgdata x) →
      pi.piMsix = msixShown (capSwitch pi b.id.toNat b.off offset bytes val).dev.cfgdata c := by
    intro hsame
    rw [hm.msix c hc hid]
    unfold msixShown
    rw [msgctrl_congr hsame]
  by_cases hbc : c = b
  · subst hbc
    rcases hpl.control h hb hal (hf.whole c hc (Or.inr hid)) with ⟨rfl, rfl⟩ | ⟨hbehind, -, -⟩
    · have hno : c.id.toNat ≠ pciyMsi := by
        rw [hid]
        decide
      have hsw : capSwitch pi c.id.toNat c.off (c.off + 2) 2 val =
          msixcapCfgwrite pi c.off (c.off + 2) 2 val := by
        rw [capSwitch, if_neg hno, if_pos (id_toNat_msix.mpr hid)]
      rw [hsw]
      exact msixcap_refreshed
    · rw [capSwitch_msix (by omega)]
      exact hkept fun x _ hx => capSwitch_outside (by omega)
  · have hne : b.id.toNat ≠ pciyMsix := fun heq =>
      hbc (hs.unique c hc b hb (hid.trans (id_toNat_msix.mp heq).symm))
    rw [capSwitch_msix fun hw => hne hw.1]
    exact hkept fun x hlo hx => capSwitch_apart h hb hc hbc hpl (by omega) (by omega)

end Write

/-! ## Runs of guest writes -/

section Region
variable {s s' : Bus} {p : Nat} {pi : Devinst} {bs : List Block} {e : Nat} {w : CfgWrite}

theorem CapsOk.region (h : CapsOk pi bs e) {b : Block} {x : Nat} (hb : b ∈ bs) (hlo : b.off ≤ x)
    (hhi : x < b.off + b.len) : capStartOffset ≤ x ∧ x ≤ pi.piCapend := by
  obtain ⟨hstart, hend, -⟩ := h.laid.bounds (by decide) hb
  have hcapend := h.capend (List.ne_nil_of_mem hb)
  omega

/-- A write that is not one for the capabilities leaves them alone. -/
theorem cfgwriteDev_region (hp : s.devs p = some pi) (h : CapsOk pi bs e) (hspares : SparesCaps pi)
    (hno : reachesCap pi w = false) (hok : cfgwriteDev s p pi w = .ok s') :
    ∃ pi', s'.devs p = some pi' ∧
      ∀ b ∈ bs, ∀ x, b.off ≤ x → x < b.off + b.len → pi'.cfgdata x = pi.cfgdata x := by
  have hstart : capStartOffset = 0x40 := rfl
  cases hrun : pi.peCfgwrite.bind fun f => f.run w.coff w.bytes w.eax.toNat pi.cfgdata with
  | some cfg =>
    -- the device has taken the write over
    obtain ⟨f, hf, hcfg⟩ := Option.bind_eq_some_iff.mp hrun
    unfold cfgwriteDev at hok
    split at hok
    · obtain rfl := Except.ok.inj hok
      exact ⟨pi, hp, fun _ _ _ _ _ => rfl⟩
    · rw [hrun] at hok
      obtain rfl := Except.ok.inj hok
      refine ⟨_, Bus.setDev_same _ _ _, fun b hb x hlo hhi => ?_⟩
      obtain ⟨hx, hx'⟩ := h.region hb hlo hhi
      exact hspares f hf _ _ _ _ _ hcfg x hx hx'
  | none =>
    obtain ⟨pi', hp', -, -, hout⟩ := (cfgwriteDev_step hp hok).target
    refine ⟨pi', hp', fun b hb x hlo hhi => ?_⟩
    obtain ⟨hx, hx'⟩ := h.region hb hlo hhi
    generalize pi'.cfgdata = cfg at hout
    cases hout with
    | ignored => rfl
    | own hf hown =>
      rw [hf, Option.bind_some, hown] at hrun
      cases hrun
    | bar v hbar hbar' _ =>
      simp only [pcirBar, pciBarmax] at hbar hbar'
      exact store_outside (by omega)
    | cap hal hcap _ =>
      have hiscap := hcap
      simp only [pciEmulIscap, decide_eq_true_eq] at hcap
      have hne : bs ≠ [] := List.ne_nil_of_mem hb
      have hend := h.capend hne
      have hin := h.inside
      have hyes : reachesCap pi w = true := by
        simp only [reachesCap, decide_eq_true_eq]
        refine ⟨hal, by omega, by rw [hrun]; rfl, ?_, hiscap⟩
        simp only [pcirBar, pciBarmax]
        omega
      rw [hyes] at hno
      cases hno
    | cmdsts hal hcmd hcmd' =>
      have hcases := aligned_cases hal
      simp only [pcirCommand, pcirRevid] at hcmd hcmd'
      exact store_outside (by omega)
    | plain hal hcap _ =>
      have hcases := aligned_cases hal
      have hout : ¬ (capStartOffset ≤ w.coff ∧ w.coff ≤ pi.piCapend) := by
        intro hin
        simp only [pciEmulIscap, decide_eq_false_iff_not] at hcap
        exact hcap ⟨fun hz => List.ne_nil_of_mem hb (h.present.mp hz), hin⟩
      exact store_outside (by omega)

end Region

theorem Mirrors.congr {cfg cfg' : Mem} {bs : List Block} {msi : Msi} {msix : Msix}
    (h : Mirrors cfg bs msi msix)
    (hmsi : ∀ b ∈ bs, b.id = 0x05 → ∀ x, b.off + 2 ≤ x → x < b.off + 14 → cfg' x = cfg x)
    (hmsix : ∀ b ∈ bs, b.id = 0x11 → ∀ x, b.off + 2 ≤ x → x < b.off + 4 → cfg' x = cfg x) :
    Mirrors cfg' bs msi msix where
  msi b hb hid hon := by
    have hsame := hmsi b hb hid
    have hctrl : msgctrl cfg' b = msgctrl cfg b :=
      msgctrl_congr fun x hlo hhi => hsame x hlo (by omega)
    have hwas : msiOn cfg b := by
      unfold msiOn at hon ⊢
      rw [hctrl] at hon
      exact hon
    rw [h.msi b hb hid hwas]
    exact (msiShown_congr hsame).symm
  msix b hb hid := by
    rw [h.msix b hb hid]
    unfold msixShown
    rw [msgctrl_congr (hmsix b hb hid)]

/-- The writes a guest makes once the functions are set up, with the decoded state. -/
def guestMsiWrites (fiDevi : Nat → Nat → Nat → Option Nat) (s₀ : MsiBus) : System MsiBus CfgWrite where
  init s := s = s₀
  step s w s' := pciCfgrwMsi fiDevi s w = .ok s'

/-- The writes to the function at `p` are ones its decoded state follows. -/
def FollowedAt (fiDevi : Nat → Nat → Nat → Option Nat) (p : Nat) (bs : List Block) (s : MsiBus)
    (w : CfgWrite) : Prop :=
  fiDevi w.bus w.slot w.func = some p → ∀ pi, s.bus.devs p = some pi → Followed pi.cfgdata bs w

/-- The decoded state of the function at `p` is what its capabilities encode. -/
def MirrorsAt (p : Nat) (bs : List Block) (s : MsiBus) : Prop :=
  ∃ pi, s.bus.devs p = some pi ∧ Mirrors pi.cfgdata bs (s.piMsi p) (s.piMsix p)

section Run
variable {fiDevi : Nat → Nat → Nat → Option Nat} {s s' : MsiBus} {p : Nat} {pi : Devinst}
  {bs : List Block} {e : Nat} {w : CfgWrite}

/-- A write to the function itself. -/
theorem cfgwriteMsi_mirrors (hp : s.bus.devs p = some pi) (h : CapsOk pi bs e)
    (hspares : SparesCaps pi) (hs : Single bs) (hf : Followed pi.cfgdata bs w)
    (hm : Mirrors pi.cfgdata bs (s.piMsi p) (s.piMsix p)) (hok : cfgwriteMsi s p pi w = .ok s') :
    MirrorsAt p bs s' := by
  unfold cfgwriteMsi at hok
  by_cases hcap : reachesCap pi w = true
  · rw [if_pos hcap] at hok
    simp only [reachesCap, decide_eq_true_eq] at hcap
    obtain ⟨hal, -, -, -, hiscap⟩ := hcap
    cases hwrite : capwriteMsi ⟨pi, s.piMsi p, s.piMsix p⟩ w.coff w.bytes w.eax.toNat with
    | error err =>
      rw [hwrite] at hok
      cases hok
    | ok d =>
      rw [hwrite] at hok
      obtain rfl := Except.ok.inj hok
      refine ⟨d.dev, Bus.setDev_same _ _ _, ?_⟩
      simp only [MsiBus.setDev, Function.update_self]
      rcases capwriteMsi_cases h hal hiscap hwrite with rfl | ⟨b, hb, _, _, _, hpl, rfl⟩
      · exact hm
      · exact ⟨fun c hc hid hon => switch_msi_mirrors h hs hal hf hm hb hpl hc hid hon,
          fun c hc hid => switch_msix_mirrors h hs hal hf hm hb hpl hc hid⟩
  · rw [if_neg hcap] at hok
    cases hwrite : cfgwriteDev s.bus p pi w with
    | error err =>
      rw [hwrite] at hok
      cases hok
    | ok bus =>
      rw [hwrite] at hok
      obtain rfl := Except.ok.inj hok
      obtain ⟨pi', hp', hsame⟩ :=
        cfgwriteDev_region hp h hspares (by simpa using hcap) hwrite
      refine ⟨pi', hp', hm.congr (fun b hb hid x hlo hhi => ?_) fun b hb hid x hlo hhi => ?_⟩
      · have hlong := hs.long b hb hid
        exact hsame b hb x (by omega) (by omega)
      · have hlong := (h.laid.bounds (by decide) hb).2.2.2.2
        exact hsame b hb x (by omega) (by omega)

/-- A write to another function. -/
theorem cfgwriteMsi_other {q : Nat} (hq : s.bus.devs q = some pi) (hne : p ≠ q)
    (hok : cfgwriteMsi s q pi w = .ok s') :
    s'.bus.devs p = s.bus.devs p ∧ s'.piMsi p = s.piMsi p ∧ s'.piMsix p = s.piMsix p := by
  have hbus := cfgwriteMsi_bus s q pi w
  rw [hok] at hbus
  refine ⟨(cfgwriteDev_step hq hbus.symm).others p hne, ?_⟩
  unfold cfgwriteMsi at hok
  split at hok
  · cases hwrite : capwriteMsi ⟨pi, s.piMsi q, s.piMsix q⟩ w.coff w.bytes w.eax.toNat with
    | error err =>
      rw [hwrite] at hok
      cases hok
    | ok d =>
      rw [hwrite] at hok
      obtain rfl := Except.ok.inj hok
      exact ⟨Function.update_of_ne hne _ _, Function.update_of_ne hne _ _⟩
  · cases hwrite : cfgwriteDev s.bus q pi w with
    | error err =>
      rw [hwrite] at hok
      cases hok
    | ok bus =>
      rw [hwrite] at hok
      obtain rfl := Except.ok.inj hok
      exact ⟨rfl, rfl⟩

theorem pciCfgrwMsi_mirrors (hk : Kept p pi bs e s.bus) (hs : Single bs) (hm : MirrorsAt p bs s)
    (hf : FollowedAt fiDevi p bs s w) (hok : pciCfgrwMsi fiDevi s w = .ok s') :
    MirrorsAt p bs s' := by
  obtain ⟨pip, hp, hcaps, hspares, -⟩ := hk
  obtain ⟨pim, hpm, hmir⟩ := hm
  rw [hp] at hpm
  obtain rfl := Option.some.inj hpm
  unfold pciCfgrwMsi at hok
  split at hok
  · obtain rfl := Except.ok.inj hok
    exact ⟨pip, hp, hmir⟩
  · rename_i q hdev
    split at hok
    · obtain rfl := Except.ok.inj hok
      exact ⟨pip, hp, hmir⟩
    · rename_i piq hq
      by_cases hpq : p = q
      · subst hpq
        rw [hp] at hq
        obtain rfl := Option.some.inj hq
        exact cfgwriteMsi_mirrors hp hcaps hspares hs (hf hdev pip hp) hmir hok
      · obtain ⟨hdevs, hmsi, hmsix⟩ := cfgwriteMsi_other hq hpq hok
        refine ⟨pip, hdevs.trans hp, ?_⟩
        rw [hmsi, hmsix]
        exact hmir

theorem mirrors_reachable {s₀ : MsiBus} (hk : Kept p pi bs e s₀.bus) (hs : Single bs)
    (hm : MirrorsAt p bs s₀)
    (hr : ((guestMsiWrites fiDevi s₀).restrict (FollowedAt fiDevi p bs)).Reachable s) :
    MirrorsAt p bs s := by
  have hind : ((guestMsiWrites fiDevi s₀).restrict (FollowedAt fiDevi p bs)).Inductive
      fun s => Kept p pi bs e s.bus ∧ MirrorsAt p bs s := by
    refine ⟨fun t ht => ?_, fun t w t' ht hstep => ?_⟩
    · obtain rfl : t = s₀ := ht
      exact ⟨hk, hm⟩
    · obtain ⟨hf, hok⟩ := hstep
      have hok' : pciCfgrwMsi fiDevi t w = .ok t' := hok
      have hbus := pciCfgrwMsi_bus fiDevi t w
      rw [hok'] at hbus
      exact ⟨ht.1.step hbus.symm, pciCfgrwMsi_mirrors ht.1 hs ht.2 hf hok'⟩
  exact (hind.reachable hr).2

end Run

/-! ## Devices as they are set up -/

section Setup
variable {cap : Cap} {caps : List Cap} {d : CapDev}

theorem Cap.data_head (cap : Cap) : cap.data.headD 0 = cap.capid := by
  cases cap with
  | msi msgnum => rfl
  | msix msgnum barnum => rfl
  | express => rfl

theorem Cap.data_ne (cap : Cap) : cap.data ≠ [] := by
  cases cap with
  | msi msgnum => exact List.cons_ne_nil _ _
  | msix msgnum barnum => exact List.cons_ne_nil _ _
  | express => exact List.cons_ne_nil _ _

theorem layout_single (hdistinct : (caps.map Cap.capid).Nodup) {cfg : Mem} {bs : List Block}
    (hbs : bs = layout capStartOffset (caps.map Cap.data))
    (hcopied : ∀ b ∈ bs, Copied cfg (caps.map Cap.data) b) : Single bs where
  unique b hb c hc hid := by
    have hids : (caps.map Cap.data).map (fun c => c.headD 0) = caps.map Cap.capid := by
      rw [List.map_map]
      exact List.map_congr_left fun cap _ => cap.data_head
    have hnodup : (bs.map Block.id).Nodup := by
      rw [hbs]
      refine (layout_ids _ _).nodup ?_
      rw [hids]
      exact hdistinct
    exact List.inj_on_of_nodup_map hnodup hb hc hid
  long b hb hid := by
    obtain ⟨c, hc, hhead, hlen, -⟩ := hcopied b hb
    obtain ⟨cap, -, rfl⟩ := List.mem_map.mp hc
    rw [hid, cap.data_head] at hhead
    cases cap with
    | msi msgnum =>
      rw [hlen]
      show 14 ≤ reallen (msicap msgnum).length
      simp [msicap, reallen]
    | msix msgnum barnum =>
      simp only [Cap.capid] at hhead
      exact absurd hhead (by decide)
    | express => exact absurd hhead (by decide)

/-- Message control of a capability that was copied. -/
theorem copied_msgctrl {cfg : Mem} {b : Block} {c₀ c₁ : UInt8} {v : Nat} {r : List UInt8}
    (hv : v < 256 ^ 2)
    (hdata : ∀ i, 2 ≤ i → i < (c₀ :: c₁ :: LittleEndian.bytes 2 v ++ r).length →
      cfg (b.off + i) = (c₀ :: c₁ :: LittleEndian.bytes 2 v ++ r).getD i 0) :
    msgctrl cfg b = v := by
  have h2 := hdata 2 (by omega) (by simp)
  have h3 := hdata 3 (by omega) (by simp)
  rw [← LittleEndian.toNat_bytes_of_lt hv]
  unfold msgctrl load
  congr 1
  simp only [List.range_succ, List.range_zero, List.nil_append, List.map_cons,
    List.map_nil, List.cons_append, Nat.add_zero, Nat.add_assoc, Nat.reduceAdd, h2, h3]
  simp [LittleEndian.bytes]

theorem msicap_off {msgnum : Nat} (hle : msgnum ≤ 32) :
    pcimMsictrl64bit ||| (ffs msgnum - 1) <<< 1 < 256 ^ 2 ∧
      (pcimMsictrl64bit ||| (ffs msgnum - 1) <<< 1) &&& pcimMsictrlMsiEnable = 0 := by
  have htable : ∀ n < 33, pcimMsictrl64bit ||| (ffs n - 1) <<< 1 < 256 ^ 2 ∧
      (pcimMsictrl64bit ||| (ffs n - 1) <<< 1) &&& pcimMsictrlMsiEnable = 0 := by decide +kernel
  exact htable msgnum (by omega)

theorem and_two_pow_of_lt {x k : Nat} (h : x < 2 ^ k) : x &&& 2 ^ k = 0 := by
  rw [Nat.and_two_pow, Nat.testBit_lt_two_pow h, Bool.toNat_false, Nat.zero_mul]

/-- Both capabilities start out disabled. -/
theorem mirrors_setup (hvalid : ∀ cap ∈ caps, cap.Asserted) {cfg : Mem} {bs : List Block}
    (hcopied : ∀ b ∈ bs, Copied cfg (caps.map Cap.data) b) (msi : Msi) :
    Mirrors cfg bs msi ⟨0, 0⟩ where
  msi b hb hid hon := by
    obtain ⟨c, hc, hhead, -, hdata⟩ := hcopied b hb
    obtain ⟨cap, hcap, rfl⟩ := List.mem_map.mp hc
    rw [hid, cap.data_head] at hhead
    cases cap with
    | msi msgnum =>
      obtain ⟨hlt, hoff⟩ := msicap_off (hvalid _ hcap).2.2
      have hctrl : msgctrl cfg b = _ :=
        copied_msgctrl (r := LittleEndian.bytes 4 0 ++ LittleEndian.bytes 4 0 ++ LittleEndian.bytes 2 0)
          hlt (by simpa [Cap.data, msicap] using hdata)
      unfold msiOn at hon
      rw [hctrl] at hon
      exact absurd hoff hon
    | msix msgnum barnum =>
      simp only [Cap.capid] at hhead
      exact absurd hhead (by decide)
    | express => exact absurd hhead (by decide)
  msix b hb hid := by
    obtain ⟨c, hc, hhead, -, hdata⟩ := hcopied b hb
    obtain ⟨cap, hcap, rfl⟩ := List.mem_map.mp hc
    rw [hid, cap.data_head] at hhead
    cases cap with
    | msi msgnum =>
      simp only [Cap.capid] at hhead
      exact absurd hhead (by decide)
    | msix msgnum barnum =>
      obtain ⟨-, hle, -⟩ := hvalid _ hcap
      have hlt : msgnum - 1 < 2 ^ 14 := by omega
      have hctrl : msgctrl cfg b = msgnum - 1 :=
        copied_msgctrl (r := LittleEndian.bytes 4 (barnum &&& 0x7) ++
          LittleEndian.bytes 4 (msixTabSize msgnum ||| (barnum &&& 0x7)))
          (by omega) (by simpa [Cap.data, msixcap] using hdata)
      unfold msixShown
      rw [hctrl]
      have hen : (msgnum - 1) &&& pcimMsixctrlMsixEnable = 0 :=
        and_two_pow_of_lt (k := 15) (by omega)
      have hfm : (msgnum - 1) &&& pcimMsixctrlFunctionMask = 0 := and_two_pow_of_lt hlt
      rw [hen, hfm]
    | express => exact absurd hhead (by decide)

end Setup

/-- In every run whose writes to the function leave message control whole, the message of an enabled
MSI as it is and its address below 4 GiB, the decoded state is what the capabilities encode. -/
theorem msi_mirrors_of_followed {fiDevi : Nat → Nat → Nat → Option Nat} {s₀ s : MsiBus} {p : Nat}
    {d : CapDev} {caps : List Cap} (hvalid : ∀ cap ∈ caps, cap.Asserted)
    (hdistinct : (caps.map Cap.capid).Nodup)
    (hfirst : load 2 d.dev.cfgdata pcirStatus &&& pcimStatusCappresent = 0)
    (hown : SparesCaps (addCapabilities d (caps.map Cap.data)).dev)
    (hp : s₀.bus.devs p = some (addCapabilities d (caps.map Cap.data)).dev)
    (hmsix : s₀.piMsix p = ⟨0, 0⟩)
    (hr : ((guestMsiWrites fiDevi s₀).restrict
      (FollowedAt fiDevi p (layout capStartOffset (caps.map Cap.data)))).Reachable s) :
    MirrorsAt p (layout capStartOffset (caps.map Cap.data)) s := by
  have hne : ∀ c ∈ caps.map Cap.data, c ≠ [] := by
    intro c hc
    obtain ⟨cap, -, rfl⟩ := List.mem_map.mp hc
    exact cap.data_ne
  have hnone : CapsOk d.dev [] capStartOffset :=
    ⟨iff_of_true hfirst rfl, rfl, by decide, fun hne => absurd rfl hne, trivial⟩
  obtain ⟨e, hok, -⟩ := addCapabilities_ok hne hnone fun last hlast => by cases hlast
  have hcopied := addCapabilities_copied hne (fun _ hc => hc) hnone
    (fun last hlast => by cases hlast) fun b hb => by cases hb
  rw [List.nil_append] at hok hcopied
  refine mirrors_reachable ⟨_, hp, hok, hown, .refl _ _⟩ (layout_single hdistinct rfl hcopied) ?_ hr
  refine ⟨_, hp, ?_⟩
  rw [hmsix]
  exact mirrors_setup hvalid hcopied _

/-- MSI-X with two vectors and MSI with one, as a virtio device adds them. -/
def virtioCaps : List Cap := [.msix 2 1, .msi 1]

def virtioBus : MsiBus where
  bus :=
    { devs := fun p =>
        if p = 1 then some (addCapabilities bareDev (virtioCaps.map Cap.data)).dev else none
      inout := fun _ => (Inout.defaultIop 0 0).entry
      mem := [] }
  piMsi := fun _ => ⟨0, 0, 0, 0⟩
  piMsix := fun _ => ⟨0, 0⟩

theorem virtioCaps_layout :
    layout capStartOffset (virtioCaps.map Cap.data) = [⟨0x40, 12, 0x11⟩, ⟨0x4c, 16, 0x05⟩] := by
  decide +kernel

/-- The guest enables MSI with a 4-byte write to the head of the capability. -/
theorem msi_mirrors_of_followed_enable :
    ∃ s, pciCfgrwMsi (fun _ _ _ => some 1) virtioBus ⟨0, 0, 0, 0x4c, 4, 0x00010000⟩ = .ok s ∧
      (s.piMsi 1).enabled = 1 ∧ MirrorsAt 1 [⟨0x40, 12, 0x11⟩, ⟨0x4c, 16, 0x05⟩] s := by
  have hwritten : ((pciCfgrwMsi (fun _ _ _ => some 1) virtioBus
      ⟨0, 0, 0, 0x4c, 4, 0x00010000⟩).toOption.map fun s => (s.piMsi 1).enabled) = some 1 := by
    decide +kernel
  cases hres : pciCfgrwMsi (fun _ _ _ => some 1) virtioBus ⟨0, 0, 0, 0x4c, 4, 0x00010000⟩ with
  | error e =>
    rw [hres] at hwritten
    cases hwritten
  | ok s =>
    rw [hres] at hwritten
    have hfollowed : FollowedAt (fun _ _ _ => some 1) 1
        (layout capStartOffset (virtioCaps.map Cap.data)) virtioBus
        ⟨0, 0, 0, 0x4c, 4, 0x00010000⟩ := by
      intro _ pi hpi
      obtain rfl := Option.some.inj hpi
      rw [virtioCaps_layout]
      exact ⟨by decide +kernel, by decide +kernel, by decide +kernel⟩
    have hnone : (addCapabilities bareDev (virtioCaps.map Cap.data)).dev.peCfgwrite.isNone = true := by
      decide +kernel
    have hspares : SparesCaps (addCapabilities bareDev (virtioCaps.map Cap.data)).dev := by
      intro f hf
      rw [Option.isNone_iff_eq_none.mp hnone] at hf
      cases hf
    have hvalid : ∀ cap ∈ virtioCaps, cap.Asserted := by
      intro cap hcap
      rcases List.mem_cons.mp hcap with rfl | hcap
      · exact ⟨by decide, by decide, by decide⟩
      · obtain rfl := List.mem_singleton.mp hcap
        exact ⟨by decide, by decide, by decide⟩
    have hmirrors := msi_mirrors_of_followed (p := 1) (s := s) hvalid (by decide)
      (by decide +kernel) hspares rfl rfl (.step (.init rfl) ⟨hfollowed, hres⟩)
    rw [virtioCaps_layout] at hmirrors
    exact ⟨s, rfl, Option.some.inj hwritten, hmirrors⟩

/-- The guest sets the enable bit with a 1-byte write: the capability says that MSI is on, and
`pi_msi` is as it was. -/
theorem msi_not_mirrored :
    ∃ s, pciCfgrwMsi (fun _ _ _ => some 1) virtioBus ⟨0, 0, 0, 0x4e, 1, 0x81⟩ = .ok s ∧
      (s.piMsi 1).enabled = 0 ∧ (∀ pi, s.bus.devs 1 = some pi → msiOn pi.cfgdata ⟨0x4c, 16, 0x05⟩) ∧
      ¬ MirrorsAt 1 (layout capStartOffset (virtioCaps.map Cap.data)) s := by
  have hwritten : ((pciCfgrwMsi (fun _ _ _ => some 1) virtioBus
      ⟨0, 0, 0, 0x4e, 1, 0x81⟩).toOption.map fun s => ((s.piMsi 1).enabled,
        (s.bus.devs 1).all fun pi => decide (msiOn pi.cfgdata ⟨0x4c, 16, 0x05⟩))) =
      some (0, true) := by
    decide +kernel
  cases hres : pciCfgrwMsi (fun _ _ _ => some 1) virtioBus ⟨0, 0, 0, 0x4e, 1, 0x81⟩ with
  | error e =>
    rw [hres] at hwritten
    cases hwritten
  | ok s =>
    rw [hres] at hwritten
    obtain ⟨hoff, hall⟩ := Prod.mk.inj (Option.some.inj hwritten)
    have hon : ∀ pi, s.bus.devs 1 = some pi → msiOn pi.cfgdata ⟨0x4c, 16, 0x05⟩ := by
      intro pi hpi
      rw [hpi] at hall
      exact of_decide_eq_true hall
    refine ⟨s, rfl, hoff, hon, fun hm => ?_⟩
    obtain ⟨pi, hpi, hmir⟩ := hm
    rw [virtioCaps_layout] at hmir
    have hshown := hmir.msi ⟨0x4c, 16, 0x05⟩ (by decide) rfl (hon pi hpi)
    rw [hshown] at hoff
    exact absurd hoff Nat.one_ne_zero

end Xhyve.Emul.Pci
