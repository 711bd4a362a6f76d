import Xhyve.Emul.PciDecode

/-!
# Registered ranges are current BARs

Whatever ranges the guest asks for, overlapping or not, a memory range that is registered
for a BAR lies where that BAR lies now, as long as no assertion has failed. A BAR can lose its
range to an overlap, but no range outlives the address it was registered at.
-/

namespace Xhyve.Emul.Pci

open Xhyve.Lib Xhyve.Lib.Mem
open Xhyve.Emul.Mem (MemRange)

/-- The ranges registered for BARs are current ranges of BARs in `on`. -/
structure Tracked (s : Bus) (on : Nat → Nat → Bool) : Prop where
  wf : ∀ p pi, s.devs p = some pi → DevWf pi
  mem : MemSound (Live s.devs on) s.mem

/-! ## One BAR -/

section OneBar
variable {s s' : Bus} {on on' : Nat → Nat → Bool} {p idx : Nat} {pi : Devinst} {b : Bar}

/-- What a registration that returned has done to the memory registry. -/
theorem registerBar_cases (h : registerBar s p idx b = .ok s') :
    s'.devs = s.devs ∧ (b.type = .io ∧ s'.mem = s.mem ∨
      isMem b.type ∧ Mem.Plain.register s.mem (memEntry p idx b) = (.ok, s'.mem)) := by
  unfold registerBar modifyBarRegistration at h
  cases htype : b.type with
  | none => simp [htype] at h
  | memhi64 => simp [htype] at h
  | io =>
    simp only [htype] at h
    split at h
    · cases h
      exact ⟨rfl, .inl ⟨rfl, rfl⟩⟩
    · cases h
  | mem32 | mem64 =>
    simp only [htype, if_true] at h
    split at h
    · rename_i hreg
      cases h
      exact ⟨rfl, .inr ⟨rfl, Option.some.inj hreg⟩⟩
    · cases h

theorem unregisterBar_cases (h : unregisterBar s p idx b = .ok s') :
    s'.devs = s.devs ∧ (b.type = .io ∧ s'.mem = s.mem ∨
      isMem b.type ∧
        Mem.Plain.unregister s.mem (barRange p idx b false) = some (.ok, s'.mem)) := by
  unfold unregisterBar modifyBarRegistration at h
  cases htype : b.type with
  | none => simp [htype] at h
  | memhi64 => simp [htype] at h
  | io =>
    simp only [htype] at h
    split at h
    · cases h
      exact ⟨rfl, .inl ⟨rfl, rfl⟩⟩
    · cases h
  | mem32 | mem64 =>
    simp only [htype, Bool.false_eq_true, if_false] at h
    split at h
    · rename_i hreg
      cases h
      exact ⟨rfl, .inr ⟨rfl, hreg⟩⟩
    · cases h

theorem Tracked.mono (h : Tracked s on)
    (hle : ∀ p pi i, s.devs p = some pi → i ≤ pciBarmax → isMem (pi.piBar i).type →
      on p i = true → on' p i = true) : Tracked s on' := by
  refine ⟨h.wf, h.mem.mono ?_⟩
  rintro q i c hm ⟨qi, hq, hi, rfl, hon⟩
  exact ⟨qi, hq, hi, rfl, hle q qi i hq hi hm hon⟩

/-- A change to a function's registers, and to addresses of BARs that are not registered. -/
theorem Tracked.setDev (h : Tracked s on) (hp : s.devs p = some pi) {pi' : Devinst}
    (hwf : DevWf pi') (hbar : ∀ i ≤ pciBarmax, on p i → pi'.piBar i = pi.piBar i) :
    Tracked (s.setDev p pi') on := by
  refine ⟨wf_setDev h.wf hwf, h.mem.mono ?_⟩
  rintro q i c - ⟨qi, hq, hi, rfl, hon⟩
  by_cases hqp : q = p
  · subst hqp
    rw [hp] at hq
    cases hq
    exact ⟨pi', s.setDev_same q pi', hi, hbar i hi hon, hon⟩
  · exact ⟨qi, (s.setDev_ne pi' hqp).trans hq, hi, rfl, hon⟩

theorem Tracked.registerBar (h : Tracked s on) (hp : s.devs p = some pi) (hi : idx ≤ pciBarmax)
    (hon : on p idx = true) (hok : registerBar s p idx (pi.piBar idx) = .ok s') :
    Tracked s' on ∧ s'.devs = s.devs := by
  obtain ⟨hdevs, hcase⟩ := registerBar_cases hok
  refine ⟨⟨hdevs ▸ h.wf, ?_⟩, hdevs⟩
  rw [hdevs]
  rcases hcase with ⟨-, hmem⟩ | ⟨hm, hreg⟩
  · rw [hmem]
    exact h.mem
  · have hwf := (h.wf p pi hp).bar idx hi (by simp [implemented, hm])
    exact h.mem.register hwf hm ⟨pi, hp, hi, rfl, hon⟩ hreg

theorem Tracked.unregisterBar (h : Tracked s on) (hp : s.devs p = some pi) (hi : idx ≤ pciBarmax)
    (hok : unregisterBar s p idx (pi.piBar idx) = .ok s') :
    Tracked s' (setOn on p idx false) ∧ s'.devs = s.devs := by
  obtain ⟨hdevs, hcase⟩ := unregisterBar_cases hok
  refine ⟨⟨hdevs ▸ h.wf, ?_⟩, hdevs⟩
  rw [hdevs]
  have hfun : ∀ c, Live s.devs on p idx c → c = pi.piBar idx := fun c hc => hc.eq_bar hp
  rcases hcase with ⟨hio, hmem⟩ | ⟨hm, hun⟩
  · rw [hmem]
    refine h.mem.mono fun q i c hcm hL => (live_setOn_false q i c).mpr ⟨hL, ?_⟩
    rintro ⟨rfl, rfl⟩
    exact isMem_ne_io hcm (hfun c hL ▸ hio)
  · have hwf := (h.wf p pi hp).bar idx hi (by simp [implemented, hm])
    exact (h.mem.unregister hwf hfun hun).mono fun q i c _ hL => (live_setOn_false q i c).mpr hL

end OneBar

/-! ## Configuration writes -/

/-- Every range registered for a BAR is the current range of one that is decoded. -/
def Current (s : Bus) : Prop := Tracked s (decodes s)

section Writes
variable {s s' : Bus} {p : Nat} {pi pi' : Devinst}

/-- Only memory decoding matters here. -/
theorem decodes_mem (hp : s.devs p = some pi) {i : Nat} (hm : isMem (pi.piBar i).type) :
    decodes s p i = memen pi := by
  rw [decodes_of_implemented hp (by simp [implemented, hm]), decode_mem hm]

theorem Tracked.current {on : Nat → Nat → Bool} (h : Tracked s on) (hp : s.devs p = some pi)
    (hself : ∀ i ≤ pciBarmax, isMem (pi.piBar i).type → on p i = true → memen pi = true)
    (hother : ∀ q i, q ≠ p → on q i = true → decodes s q i = true) : Current s := by
  refine h.mono fun q qi i hq hi hm hon => ?_
  by_cases hqp : q = p
  · subst hqp
    rw [hp] at hq
    cases hq
    rw [decodes_mem hp hm]
    exact hself i hi hm hon
  · exact hother q i hqp hon

/-- A change to a function that moves no decoded BAR and keeps its command register. -/
theorem Current.setDev (h : Current s) (hp : s.devs p = some pi) (hwf : DevWf pi')
    (hcmd : load 2 pi'.cfgdata pcirCommand = load 2 pi.cfgdata pcirCommand)
    (htype : ∀ i, (pi'.piBar i).type = (pi.piBar i).type)
    (hbar : ∀ i ≤ pciBarmax, decodes s p i → pi'.piBar i = pi.piBar i) :
    Current (s.setDev p pi') := by
  refine (Tracked.setDev h hp hwf hbar).current (s.setDev_same ..) (fun i _ hm hon => ?_)
    fun q i hq hon => (decodes_setDev_ne hq i).trans hon
  rw [htype] at hm
  rw [decodes_mem hp hm] at hon
  simpa only [memen, hcmd] using hon

/-- A register that is not the command register. -/
theorem Current.setCfg (h : Current s) (hp : s.devs p = some pi) {cfg : Mem}
    (hcmd : load 2 cfg pcirCommand = load 2 pi.cfgdata pcirCommand) :
    Current (s.setDev p { pi with cfgdata := cfg }) :=
  h.setDev hp ((h.wf p pi hp).of_bars rfl) hcmd (fun _ => rfl) fun _ _ _ => rfl

theorem Current.updateBarAddress (h : Current s) (hp : s.devs p = some pi) {t a addr : Nat}
    {type : BarType} (ht : t ≤ pciBarmax)
    (haddr : mergeAddr (pi.piBar t).addr a type = addr)
    (hnew : BarWf { pi.piBar t with addr := addr })
    (hok : updateBarAddress s p pi a t type = .ok (s', pi')) :
    pi' = pi.setAddr t addr ∧ s'.devs p = some pi' ∧ Current s' := by
  have hwf : DevWf (pi.setAddr t addr) := (h.wf p pi hp).setAddr fun _ => hnew
  cases hdec : decode pi (pi.piBar t) with
  | false =>
    rw [updateBarAddress_off hdec, haddr] at hok
    cases hok
    refine ⟨rfl, s.setDev_same .., h.setDev hp hwf rfl (pi.setAddr_type t addr) fun i _ hon => ?_⟩
    refine pi.setAddr_ne addr ?_
    rintro rfl
    rw [decodes_eq hp, hdec, Bool.and_false] at hon
    cases hon
  | true =>
    simp only [Pci.updateBarAddress, hdec, if_true, haddr] at hok
    obtain ⟨s₁, hun, hok⟩ := bind_ok hok
    obtain ⟨s₂, hre, hok⟩ := bind_ok hok
    cases hok
    obtain ⟨htr, hdevs⟩ := Tracked.unregisterBar h hp ht hun
    have hp₁ : s₁.devs p = some pi := hdevs ▸ hp
    -- while the BAR moves, no range is registered for it
    have hmoved := htr.setDev hp₁ hwf fun i hi hon => pi.setAddr_ne addr (by
      rintro rfl
      rw [setOn, if_pos ⟨rfl, rfl⟩] at hon
      cases hon)
    have hwant : Tracked (s₁.setDev p (pi.setAddr t addr))
        (setOn (decodes s) p t true) := hmoved.mono fun q qi i _ _ _ hon => by
      unfold setOn at hon ⊢
      split at hon
      · cases hon
      · rename_i hne
        rw [if_neg hne]
        exact hon
    obtain ⟨htr₂, hdevs₂⟩ := hwant.registerBar (s₁.setDev_same ..) ht (if_pos ⟨rfl, rfl⟩) hre
    have hp₂ : s'.devs p = some (pi.setAddr t addr) := hdevs₂ ▸ s₁.setDev_same ..
    refine ⟨rfl, hp₂, htr₂.current hp₂ (fun i _ hm hon => ?_) fun q i hq hon => ?_⟩
    · show memen pi = true
      rw [pi.setAddr_type] at hm
      unfold setOn at hon
      split at hon
      · rename_i hit
        rw [hit.2] at hm
        rw [← decode_mem hm]
        exact hdec
      · rw [← decodes_mem hp hm]
        exact hon
    · rw [setOn, if_neg fun hc => hq hc.1] at hon
      rw [← hon]
      simp only [decodes, hdevs₂, s₁.setDev_ne _ hq, hdevs]

theorem Current.barWrite (h : Current s) (hp : s.devs p = some pi) {coff eax : Nat}
    (hlo : pcirBar 0 ≤ coff) (hhi : coff < pcirBar (pciBarmax + 1)) (heax : eax < 2 ^ 32)
    (hok : barWrite s p pi coff eax = .ok s') : Current s' := by
  have hi := barIndex hlo hhi
  unfold Pci.barWrite at hok
  generalize (coff - pcirBar 0) / 4 = i at *
  simp only at hok
  split at hok
  · rename_i hnone
    cases hok
    have hwf : DevWf (pi.setAddr i 0) :=
      (h.wf p pi hp).setAddr fun himpl => absurd hnone (implemented_ne himpl).1
    refine h.setDev hp (hwf.of_bars rfl) (command_of_barWrite hlo _) (pi.setAddr_type i 0)
      fun j _ hon => pi.setAddr_ne 0 ?_
    rintro rfl
    rw [decodes_eq hp, hnone] at hon
    cases hon
  · rename_i hnone
    split at hok
    · obtain ⟨⟨s₁, pi₁⟩, hr, hok⟩ := bind_ok hok
      cases hok
      obtain ⟨ht, -⟩ := (h.wf p pi hp).target hi hnone
      obtain ⟨-, hp₁, hcur⟩ := h.updateBarAddress hp ht rfl
        ((h.wf p pi hp).newBar_wf hi hnone heax) hr
      exact hcur.setCfg hp₁ (command_of_barWrite hlo _)
    · cases hok
      exact h.setCfg hp (command_of_barWrite hlo _)

/-- One turn of the loop over the BARs, which switches the BAR over to the new command
register. -/
theorem Tracked.cmdstsBar {s₀ : Bus} {n : Nat} (h : Tracked s (loopOn s₀ p pi pi' n))
    (hn : n ≤ pciBarmax) (hp : s.devs p = some pi') (hbar : pi'.piBar = pi.piBar)
    (hok : cmdstsBar s p pi'
      (load 2 pi.cfgdata pcirCommand ^^^ load 2 pi'.cfgdata pcirCommand) n = .ok s') :
    Tracked s' (loopOn s₀ p pi pi' (n + 1)) ∧ s'.devs = s.devs := by
  rw [cmdstsBar_eq s p n hbar] at hok
  split at hok
  · rename_i hcase
    obtain ⟨himpl, -⟩ := hcase
    have hsucc : ∀ q i, loopOn s₀ p pi pi' (n + 1) q i = _ := loopOn_succ himpl
    rw [← hbar] at hok
    split at hok
    · rename_i hdec
      rw [hbar] at hdec
      have hwant : Tracked s (loopOn s₀ p pi pi' (n + 1)) := h.mono fun q qi i _ _ _ hon => by
        rw [hsucc, hdec, setOn]
        split
        · rfl
        · exact hon
      refine hwant.registerBar hp hn ?_ hok
      rw [hsucc, hdec]
      exact if_pos ⟨rfl, rfl⟩
    · rename_i hdec
      rw [hbar, Bool.not_eq_true] at hdec
      obtain ⟨htr, hdevs⟩ := h.unregisterBar hp hn hok
      refine ⟨htr.mono fun q qi i _ _ _ hon => ?_, hdevs⟩
      rw [hsucc, hdec]
      exact hon
  · rename_i hcase
    cases hok
    refine ⟨h.mono fun q qi i hq _ hm hon => ?_, rfl⟩
    unfold loopOn at hon ⊢
    split at hon
    · rename_i hqp
      rw [if_pos hqp]
      by_cases hin : i = n
      · subst hqp hin
        rw [hp] at hq
        cases hq
        rw [hbar] at hm
        have himpl : implemented (pi.piBar i).type = true := by simp [implemented, hm]
        have hsame : decode pi (pi.piBar i) = decode pi' (pi.piBar i) := by
          by_contra hne
          exact hcase ⟨himpl, hne⟩
        simpa [← hsame] using hon
      · have hlt : i < n + 1 ↔ i < n := by omega
        simpa only [hlt] using hon
    · rename_i hqp
      rw [if_neg hqp]
      exact hon

theorem Current.cmdstsWrite (h : Current s) (hp : s.devs p = some pi) {coff new bytes : Nat}
    (hok : pciEmulCmdstsWrite s p pi coff new bytes = .ok s') : Current s' := by
  unfold pciEmulCmdstsWrite at hok
  have hbar : (cmdstsWritten pi coff new bytes).piBar = pi.piBar := rfl
  generalize cmdstsWritten pi coff new bytes = pi' at *
  have hp₀ : (s.setDev p pi').devs p = some pi' := s.setDev_same ..
  have hstart : Tracked (s.setDev p pi') (loopOn (s.setDev p pi') p pi pi' 0) := by
    refine (Tracked.setDev h hp ((h.wf p pi hp).of_bars hbar) fun i _ _ => by rw [hbar]).mono
      fun q qi i _ _ _ hon => ?_
    unfold loopOn
    by_cases hq : q = p
    · rw [hq, decodes_eq hp] at hon
      simpa [hq] using hon
    · simpa [hq, decodes_setDev_ne hq] using hon
  obtain ⟨hend, hdevs⟩ := foldlM_range_inv
    (fun n t => Tracked t (loopOn (s.setDev p pi') p pi pi' n) ∧ t.devs = (s.setDev p pi').devs)
    (fun i hi t u ht hu => by
      obtain ⟨htr, htd⟩ := ht.1.cmdstsBar (Nat.lt_succ_iff.mp hi) (ht.2 ▸ hp₀) hbar hu
      exact ⟨htr, htd.trans ht.2⟩) ⟨hstart, rfl⟩ hok
  refine hend.current (hdevs ▸ hp₀) (fun i hi hm hon => ?_) fun q i hq hon => ?_
  · have hlt : i < pciBarmax + 1 := Nat.lt_succ_of_le hi
    rw [hbar] at hm
    rw [← decode_mem hm]
    simp only [loopOn, if_true, hlt, Bool.and_eq_true] at hon
    exact hon.2
  · simpa only [loopOn, if_neg hq, decodes, hdevs] using hon

theorem Current.cfgwriteDev (h : Current s) (hp : s.devs p = some pi) {w : CfgWrite}
    (hok : cfgwriteDev s p pi w = .ok s') : Current s' := by
  unfold Pci.cfgwriteDev at hok
  split at hok
  · cases hok
    exact h
  rename_i hskip
  have hal : w.aligned = true := by
    by_contra hne
    exact hskip (.inl (by simpa using hne))
  split at hok
  · rename_i cfg hrun
    cases hok
    obtain ⟨f, -, hf⟩ := Option.bind_eq_some_iff.mp hrun
    refine h.setCfg hp (load_congr fun i hi => f.frame hf _ ?_)
    simp only [pcirCommand, capStartOffset]
    omega
  split at hok
  · rename_i hbar
    split at hok
    · cases hok
      exact h
    · exact h.barWrite hp hbar.1 hbar.2 w.eax.isLt hok
  split at hok
  · rename_i hcap
    simp only [pciEmulIscap, decide_eq_true_eq] at hcap
    rcases capwrite_cases w.bytes w.eax.toNat hcap.2.1 with herr | ⟨cfg, hcfg, hcmd⟩
    · rw [herr] at hok
      cases hok
    · rw [hcfg] at hok
      cases hok
      exact h.setCfg hp hcmd
  split at hok
  · exact h.cmdstsWrite hp hok
  · rename_i hcmd
    cases hok
    exact h.setCfg hp (command_of_cfgwrite hal hcmd _ _)

end Writes

end Xhyve.Emul.Pci
