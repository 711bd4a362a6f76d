import Xhyve.Emul.PciCaps

/-!
# Guest writes and the capability list

What a configuration write does to the configuration space of its function, branch by branch of
`pci_cfgrw`; and that none of them reaches the identifier or the link of a capability.
-/

namespace Xhyve.Emul.Pci

open Xhyve.Lib Xhyve.Lib.Mem

/-- The configuration space of a function after a write to it. -/
inductive CfgOutcome (pi : Devinst) (w : CfgWrite) : Mem → Prop
  | ignored : CfgOutcome pi w pi.cfgdata
  | own {f : CfgWriter} {cfg : Mem} : pi.peCfgwrite = some f →
      f.run w.coff w.bytes w.eax.toNat pi.cfgdata = some cfg → CfgOutcome pi w cfg
  | bar (v : Nat) : pcirBar 0 ≤ w.coff → w.coff < pcirBar (pciBarmax + 1) → w.coff % 4 = 0 →
      CfgOutcome pi w (store 4 pi.cfgdata w.coff v)
  | cap {pi' : Devinst} : w.aligned = true → pciEmulIscap pi w.coff = true →
      pciEmulCapwrite pi w.coff w.bytes w.eax.toNat = .ok pi' → CfgOutcome pi w pi'.cfgdata
  | cmdsts : w.aligned = true → pcirCommand ≤ w.coff → w.coff < pcirRevid →
      CfgOutcome pi w (cmdstsWritten pi w.coff w.eax.toNat w.bytes).cfgdata
  | plain : w.aligned = true → pciEmulIscap pi w.coff = false →
      ¬ (pcirCommand ≤ w.coff ∧ w.coff < pcirRevid) →
      CfgOutcome pi w (store w.bytes pi.cfgdata w.coff w.eax.toNat)

/-- A step on the function at `p`: the others are as they were, and of this one only the configuration
space and the BARs have changed. -/
structure DevStep (s s' : Bus) (p : Nat) (pi : Devinst) (w : CfgWrite) : Prop where
  others : ∀ q ≠ p, s'.devs q = s.devs q
  target : ∃ pi', s'.devs p = some pi' ∧ pi'.piCapend = pi.piCapend ∧
    pi'.peCfgwrite = pi.peCfgwrite ∧ CfgOutcome pi w pi'.cfgdata

section Outcome
variable {s s' : Bus} {p : Nat} {pi : Devinst} {w : CfgWrite}

theorem DevStep.setDev {pi' : Devinst} (hcap : pi'.piCapend = pi.piCapend)
    (hown : pi'.peCfgwrite = pi.peCfgwrite) (hout : CfgOutcome pi w pi'.cfgdata) :
    DevStep s (s.setDev p pi') p pi w :=
  ⟨fun _ hq => s.setDev_ne pi' hq, pi', s.setDev_same p pi', hcap, hown, hout⟩

/-- Moving a BAR touches neither the other functions nor the configuration space. -/
theorem updateBarAddress_frame {addr idx : Nat} {type : BarType} {r : Bus × Devinst}
    (h : updateBarAddress s p pi addr idx type = .ok r) :
    (∀ q ≠ p, r.1.devs q = s.devs q) ∧ r.2.cfgdata = pi.cfgdata ∧ r.2.piCapend = pi.piCapend ∧
      r.2.peCfgwrite = pi.peCfgwrite := by
  cases hdec : decode pi (pi.piBar idx) with
  | false =>
    rw [updateBarAddress_off hdec] at h
    obtain rfl := Except.ok.inj h
    exact ⟨fun q hq => s.setDev_ne _ hq, rfl, rfl, rfl⟩
  | true =>
    simp only [updateBarAddress, hdec, if_true] at h
    obtain ⟨s₁, hun, h⟩ := bind_ok h
    obtain ⟨s₂, hre, h⟩ := bind_ok h
    obtain rfl := Except.ok.inj h
    refine ⟨fun q hq => ?_, rfl, rfl, rfl⟩
    rw [(registerBar_cases hre).1, Bus.setDev_ne _ _ hq, (unregisterBar_cases hun).1]

theorem barWrite_step (hlo : pcirBar 0 ≤ w.coff) (hhi : w.coff < pcirBar (pciBarmax + 1))
    (hmod : w.coff % 4 = 0) (h : barWrite s p pi w.coff w.eax.toNat = .ok s') :
    DevStep s s' p pi w := by
  unfold barWrite at h
  simp only at h
  split at h
  · obtain rfl := Except.ok.inj h
    exact .setDev rfl rfl (.bar _ hlo hhi hmod)
  · split at h
    · obtain ⟨r, hr, h⟩ := bind_ok h
      obtain rfl := Except.ok.inj h
      obtain ⟨hothers, hcfg, hcap, hown⟩ := updateBarAddress_frame hr
      refine ⟨fun q hq => ?_, _, Bus.setDev_same _ _ _, hcap, hown, ?_⟩
      · rw [Bus.setDev_ne _ _ hq, hothers q hq]
      · show CfgOutcome pi w (store 4 r.2.cfgdata w.coff _)
        rw [hcfg]
        exact .bar _ hlo hhi hmod
    · obtain rfl := Except.ok.inj h
      exact .setDev rfl rfl (.bar _ hlo hhi hmod)

theorem cmdstsBar_devs {changed i : Nat} (h : cmdstsBar s p pi changed i = .ok s') :
    s'.devs = s.devs := by
  unfold cmdstsBar at h
  simp only at h
  split at h
  · obtain rfl := Except.ok.inj h
    rfl
  · obtain rfl := Except.ok.inj h
    rfl
  · split at h
    · split at h
      · exact (registerBar_cases h).1
      · exact (unregisterBar_cases h).1
    · obtain rfl := Except.ok.inj h
      rfl
  · split at h
    · split at h
      · exact (registerBar_cases h).1
      · exact (unregisterBar_cases h).1
    · obtain rfl := Except.ok.inj h
      rfl
  · split at h
    · split at h
      · exact (registerBar_cases h).1
      · exact (unregisterBar_cases h).1
    · obtain rfl := Except.ok.inj h
      rfl

theorem cmdstsWrite_devs {coff new bytes : Nat}
    (h : pciEmulCmdstsWrite s p pi coff new bytes = .ok s') :
    s'.devs = (s.setDev p (cmdstsWritten pi coff new bytes)).devs := by
  refine foldlM_range_inv
    (fun _ t => t.devs = (s.setDev p (cmdstsWritten pi coff new bytes)).devs)
    (fun i _ t u ht hu => ?_) rfl h
  rw [cmdstsBar_devs hu, ht]

theorem capwrite_frame {pi' : Devinst} {offset bytes val : Nat}
    (h : pciEmulCapwrite pi offset bytes val = .ok pi') :
    pi'.piCapend = pi.piCapend ∧ pi'.peCfgwrite = pi.peCfgwrite := by
  unfold pciEmulCapwrite at h
  split at h
  · obtain rfl := Except.ok.inj h
    exact ⟨rfl, rfl⟩
  · split at h
    · cases h
    · split at h
      · cases h
      · split at h
        · obtain rfl := Except.ok.inj h
          exact ⟨rfl, rfl⟩
        · simp only at h
          split at h
          · obtain rfl := Except.ok.inj h
            exact ⟨rfl, rfl⟩
          · obtain rfl := Except.ok.inj h
            exact ⟨rfl, rfl⟩

theorem cfgwriteDev_step (hp : s.devs p = some pi) (h : cfgwriteDev s p pi w = .ok s') :
    DevStep s s' p pi w := by
  have hsame : DevStep s s p pi w := ⟨fun _ _ => rfl, pi, hp, rfl, rfl, .ignored⟩
  unfold cfgwriteDev at h
  split at h
  · obtain rfl := Except.ok.inj h
    exact hsame
  · rename_i hskip
    have hal : w.aligned = true := by
      by_contra hne
      exact hskip (.inl (by simpa using hne))
    split at h
    · rename_i cfg hrun
      obtain ⟨f, hf, hcfg⟩ := Option.bind_eq_some_iff.mp hrun
      obtain rfl := Except.ok.inj h
      exact .setDev rfl rfl (.own hf hcfg)
    · split at h
      · rename_i hbar
        split at h
        · obtain rfl := Except.ok.inj h
          exact hsame
        · rename_i hword
          exact barWrite_step hbar.1 hbar.2 (by omega) h
      · split at h
        · rename_i hcap
          cases hok : pciEmulCapwrite pi w.coff w.bytes w.eax.toNat with
          | error e =>
            rw [hok] at h
            cases h
          | ok pi' =>
            rw [hok] at h
            obtain rfl := Except.ok.inj h
            obtain ⟨hcapend, hown⟩ := capwrite_frame hok
            exact .setDev hcapend hown (.cap hal hcap hok)
        · rename_i hcap
          split at h
          · rename_i hcmd
            have hdevs := cmdstsWrite_devs h
            refine ⟨fun q hq => by rw [hdevs, Bus.setDev_ne _ _ hq],
              cmdstsWritten pi w.coff w.eax.toNat w.bytes, ?_, rfl, rfl, ?_⟩
            · rw [hdevs, Bus.setDev_same]
            · exact .cmdsts hal hcmd.1 hcmd.2
          · rename_i hcmd
            obtain rfl := Except.ok.inj h
            exact .setDev rfl rfl (.plain hal (by simpa using hcap) hcmd)

end Outcome

/-! ## The status register is read-only -/

theorem readonly_bit {x k i : Nat} (hx : 6 ≤ x) (hx' : x < 8) (hk : 4 ≤ k) (hkx : k ≤ x) (hi : i < 8) :
    Nat.testBit (0xFFFFF880 >>> ((k &&& 0x3) * 8)) (8 * (x - k) + i) = true := by
  have htable : ∀ x < 8, ∀ k ≤ x, ∀ i < 8, 6 ≤ x → 4 ≤ k →
      Nat.testBit (0xFFFFF880 >>> ((k &&& 0x3) * 8)) (8 * (x - k) + i) = true := by decide
  exact htable x hx' k hkx i hi hx hk

/-- Where the read-only mask is set, the byte that is stored is the old one. -/
theorem merged_byte (new old : Nat) {ro j : Nat} (hj : j < 4)
    (hro : ∀ i < 8, Nat.testBit ro (8 * j + i) = true) :
    ((new &&& (0xffffffff ^^^ ro)) ||| (old &&& ro)) / 256 ^ j % 256 = old / 256 ^ j % 256 := by
  have hpow : (256 : Nat) ^ j = 2 ^ (8 * j) := by
    rw [pow_mul]
    norm_num
  have hmod : ∀ y : Nat, y / 2 ^ (8 * j) % 256 = y / 2 ^ (8 * j) % 2 ^ 8 := fun _ => rfl
  rw [hpow, hmod, hmod]
  apply Nat.eq_of_testBit_eq
  intro i
  rw [Nat.testBit_mod_two_pow, Nat.testBit_mod_two_pow]
  by_cases hi : i < 8
  · have hbit := hro i hi
    simp only [Nat.testBit_div_two_pow, Nat.testBit_or, Nat.testBit_and, Nat.testBit_xor]
    rw [Nat.add_comm i, hbit, Bool.and_true, Bool.xor_true]
    have hones : Nat.testBit 0xffffffff (8 * j + i) = true :=
      (Nat.testBit_two_pow_sub_one 32 _).trans (decide_eq_true (by omega))
    simp [hones]
  · simp [hi]

theorem cmdsts_status {pi : Devinst} {coff new bytes x : Nat} (hlo : pcirCommand ≤ coff)
    (hx : 6 ≤ x) (hx' : x < 8) :
    (cmdstsWritten pi coff new bytes).cfgdata x = pi.cfgdata x := by
  unfold cmdstsWritten cfgwrite cfgread
  simp only
  by_cases hin : coff ≤ x ∧ x < coff + bytes
  · apply UInt8.toNat_inj.mp
    have hmerge := merged_byte new (load bytes pi.cfgdata coff) (j := x - coff) (by
      simp only [pcirCommand] at hlo
      omega) fun i hi => readonly_bit hx hx' hlo hin.1 hi
    rw [store_byte hin.1 hin.2, hmerge, load_byte (by omega), Nat.add_sub_cancel' hin.1]
  · exact store_outside (by omega)

/-! ## No write reaches a header -/

/-- The device's own writes leave its capabilities alone. Only the LPC bridge has any, and it has no
capability. -/
def SparesCaps (pi : Devinst) : Prop :=
  ∀ f, pi.peCfgwrite = some f → ∀ coff bytes val m m', f.run coff bytes val m = some m' →
    ∀ x, capStartOffset ≤ x → x ≤ pi.piCapend → m' x = m x

/-- The status register and both header bytes of every capability are the same. -/
structure HeadersKept (bs : List Block) (cfg cfg' : Mem) : Prop where
  status : ∀ x, 6 ≤ x → x < 8 → cfg' x = cfg x
  headers : ∀ b ∈ bs, cfg' b.off = cfg b.off ∧ cfg' (b.off + 1) = cfg (b.off + 1)

section Headers
variable {pi : Devinst} {bs : List Block} {e : Nat} {w : CfgWrite} {cfg : Mem}

theorem HeadersKept.refl (bs : List Block) (cfg : Mem) : HeadersKept bs cfg cfg :=
  ⟨fun _ _ _ => rfl, fun _ _ => ⟨rfl, rfl⟩⟩

/-- A store behind the header of one capability, inside it. -/
theorem CapsOk.store_kept (h : CapsOk pi bs e) {b : Block} (hb : b ∈ bs) {a n v : Nat}
    (hlo : b.off + 2 ≤ a) (hhi : a + n ≤ b.off + b.len) :
    HeadersKept bs pi.cfgdata (store n pi.cfgdata a v) := by
  have hstart : capStartOffset = 0x40 := rfl
  have hbounds := h.laid.bounds (by decide) hb
  refine ⟨fun x _ hx => store_outside (by omega), fun c hc => ?_⟩
  have hcb := h.laid.bounds (by decide) hc
  rcases h.laid.apart (by decide) hb hc with rfl | hap | hap
  · exact ⟨store_outside (by omega), store_outside (by omega)⟩
  · exact ⟨store_outside (by omega), store_outside (by omega)⟩
  · exact ⟨store_outside (by omega), store_outside (by omega)⟩

theorem CapsOk.length_le (h : CapsOk pi bs e) : bs.length ≤ 256 := by
  have hcount : ∀ {bs : List Block} {off e : Nat}, Laid off bs e → off + bs.length ≤ e := by
    intro bs
    induction bs with
    | nil => exact fun hl => Nat.le_of_eq hl.symm
    | cons b bs ih =>
      intro off e hl
      have hrest := ih hl.2.2.2
      have hpos := hl.2.2.1
      rw [List.length_cons]
      omega
  have hle := hcount h.laid
  have hin := h.inside
  simp only [capStartOffset, pciRegmax] at hle hin
  omega

/-- The walk of `pci_emul_capwrite` ends at the capability that holds the offset. -/
theorem CapsOk.find (h : CapsOk pi bs e) {offset : Nat} (hcap : pciEmulIscap pi offset = true) :
    ∃ b ∈ bs, b.off ≤ offset ∧ offset < b.off + b.len ∧
      capFind pi.cfgdata offset 256 capStartOffset = some b.off := by
  simp only [pciEmulIscap, decide_eq_true_eq] at hcap
  have hne : bs ≠ [] := fun hno => hcap.1 (h.present.mpr hno)
  have hend := h.capend hne
  exact capFind_chain h.laid h.chain (by decide) hcap.2.1 (by omega) h.length_le

theorem aligned_cases (hal : w.aligned = true) :
    w.bytes = 1 ∨ (w.bytes = 2 ∧ w.coff % 2 = 0) ∨ (w.bytes = 4 ∧ w.coff % 4 = 0) := by
  simp only [CfgWrite.aligned, decide_eq_true_eq] at hal
  obtain ⟨hb | hb | hb, hmod⟩ := hal
  · exact Or.inl hb
  · exact Or.inr (Or.inl ⟨hb, by rw [hb] at hmod; exact hmod⟩)
  · exact Or.inr (Or.inr ⟨hb, by rw [hb] at hmod; exact hmod⟩)

/-- A write inside the capabilities goes to the one that holds it, behind its header. -/
theorem capwrite_kept (h : CapsOk pi bs e) (hal : w.aligned = true)
    (hcap : pciEmulIscap pi w.coff = true) :
    ∃ pi', pciEmulCapwrite pi w.coff w.bytes w.eax.toNat = .ok pi' ∧
      HeadersKept bs pi.cfgdata pi'.cfgdata := by
  obtain ⟨b, hb, hlo, hhi, hfind⟩ := h.find hcap
  obtain ⟨_, _, hboff, hlen, _⟩ := h.laid.bounds (by decide) hb
  unfold pciEmulCapwrite
  split
  · exact ⟨pi, rfl, .refl bs _⟩
  · rw [hfind]
    simp only
    rw [if_neg (by omega)]
    split
    · exact ⟨pi, rfl, .refl bs _⟩
    · rename_i hheader
      split
      · refine ⟨_, rfl, h.store_kept hb ?_ ?_⟩
        · split
          · omega
          · omega
        · have hcases := aligned_cases hal
          split
          · omega
          · omega
      · exact ⟨pi, rfl, .refl bs _⟩

theorem CfgOutcome.kept (h : CapsOk pi bs e) (hspares : SparesCaps pi) (hout : CfgOutcome pi w cfg) :
    HeadersKept bs pi.cfgdata cfg := by
  have hstart : capStartOffset = 0x40 := rfl
  have hin : ∀ b ∈ bs, capStartOffset ≤ b.off ∧ b.off + 1 ≤ pi.piCapend := by
    intro b hb
    have hbounds := h.laid.bounds (by decide) hb
    have hend := h.capend (List.ne_nil_of_mem hb)
    omega
  cases hout with
  | ignored => exact .refl bs _
  | own hf hrun =>
    rename_i f
    refine ⟨fun x _ hx => f.frame hrun x (by omega), fun b hb => ?_⟩
    have hb' := hin b hb
    exact ⟨hspares f hf _ _ _ _ _ hrun _ (by omega) (by omega),
      hspares f hf _ _ _ _ _ hrun _ (by omega) (by omega)⟩
  | bar v hlo hhi hmod =>
    simp only [pcirBar, pciBarmax] at hlo hhi
    refine ⟨fun x _ hx => store_outside (by omega), fun b hb => ?_⟩
    have hb' := hin b hb
    exact ⟨store_outside (by omega), store_outside (by omega)⟩
  | cap hal hcap hok =>
    obtain ⟨pi', hpi', hkept⟩ := capwrite_kept h hal hcap
    rw [hok] at hpi'
    rw [Except.ok.inj hpi']
    exact hkept
  | cmdsts hal hlo hhi =>
    refine ⟨fun x hx hx' => cmdsts_status hlo hx hx', fun b hb => ?_⟩
    have hb' := hin b hb
    have hcases := aligned_cases hal
    simp only [pcirCommand, pcirRevid] at hlo hhi
    exact ⟨store_outside (by omega), store_outside (by omega)⟩
  | plain hal hcap hcmd =>
    have hcases := aligned_cases hal
    simp only [pcirCommand, pcirRevid] at hcmd
    refine ⟨fun x hx hx' => store_outside (by omega), fun b hb => ?_⟩
    -- an offset that is no capability's is in front of the first or behind the last
    have hne : bs ≠ [] := List.ne_nil_of_mem hb
    have hout : ¬ (capStartOffset ≤ w.coff ∧ w.coff ≤ pi.piCapend) := by
      intro hno
      simp only [pciEmulIscap, decide_eq_false_iff_not] at hcap
      exact hcap ⟨fun hzero => hne (h.present.mp hzero), hno⟩
    have hbounds := h.laid.bounds (by decide) hb
    have hend := h.capend hne
    exact ⟨store_outside (by omega), store_outside (by omega)⟩

/-- Writes that keep status and headers keep the capabilities. -/
theorem CapsOk.of_kept {pi' : Devinst} (h : CapsOk pi bs e) (hcap : pi'.piCapend = pi.piCapend)
    (hkept : HeadersKept bs pi.cfgdata pi'.cfgdata) : CapsOk pi' bs e where
  present := by
    have hload : load 2 pi'.cfgdata pcirStatus = load 2 pi.cfgdata pcirStatus :=
      load_congr fun i hi => hkept.status _ (Nat.le_add_right _ _) (by simp only [pcirStatus]; omega)
    rw [hload]
    exact h.present
  laid := h.laid
  inside := h.inside
  capend hne := by
    rw [hcap]
    exact h.capend hne
  chain := h.chain.congr hkept.headers

end Headers

/-! ## Runs of guest writes -/

/-- The writes a guest makes once the functions are set up. -/
def guestWrites (fiDevi : Nat → Nat → Nat → Option Nat) (s₀ : Bus) : System Bus CfgWrite where
  init s := s = s₀
  step s w s' := pciCfgrw fiDevi s w = .ok s'

/-- The capability list of a function, as the code relies on it. -/
structure ChainHolds (pi : Devinst) (bs : List Block) : Prop where
  start : bs = [] ∨ firstOff bs = capStartOffset
  increasing : bs.Pairwise fun b c => b.off < c.off
  apart : bs.Pairwise fun b c => b.off + b.len ≤ c.off
  dwords : ∀ b ∈ bs, 4 ∣ b.off ∧ 4 ∣ b.len
  inside : ∀ b ∈ bs, capStartOffset ≤ b.off ∧ b.off + b.len ≤ pciRegmax + 1
  /-- The identifiers are those given, each link leads to the next one and the last is 0. -/
  linked : Chain pi.cfgdata bs
  /-- The walk ends at the capability that holds the offset. -/
  walk : ∀ offset, pciEmulIscap pi offset = true → ∃ b ∈ bs, b.off ≤ offset ∧
    offset < b.off + b.len ∧ capFind pi.cfgdata offset 256 capStartOffset = some b.off
  /-- No write of the guest trips the assertion behind the walk. -/
  asserted : ∀ offset bytes val, pciEmulIscap pi offset = true →
    ∃ pi', pciEmulCapwrite pi offset bytes val = .ok pi'

section Runs
variable {fiDevi : Nat → Nat → Nat → Option Nat} {s₀ s : Bus} {p : Nat} {pi : Devinst}
  {bs : List Block} {e : Nat}

theorem CapsOk.asserted (h : CapsOk pi bs e) {offset : Nat} (bytes val : Nat)
    (hcap : pciEmulIscap pi offset = true) :
    ∃ pi', pciEmulCapwrite pi offset bytes val = .ok pi' := by
  obtain ⟨b, -, hlo, -, hfind⟩ := h.find hcap
  unfold pciEmulCapwrite
  split
  · exact ⟨pi, rfl⟩
  · rw [hfind]
    simp only
    rw [if_neg (by omega)]
    split
    · exact ⟨pi, rfl⟩
    · split
      · exact ⟨_, rfl⟩
      · exact ⟨pi, rfl⟩

theorem CapsOk.holds (h : CapsOk pi bs e) : ChainHolds pi bs where
  start := by
    cases bs with
    | nil => exact Or.inl rfl
    | cons b bs => exact Or.inr h.laid.1
  increasing := by
    refine (h.laid.pairwise (by decide)).imp_of_mem fun {b c} hb _ hbc => ?_
    have := (h.laid.bounds (by decide) hb).2.2.2.2
    omega
  apart := h.laid.pairwise (by decide)
  dwords b hb := by
    obtain ⟨_, _, hoff, hlen, _⟩ := h.laid.bounds (by decide) hb
    exact ⟨hoff, hlen⟩
  inside b hb := by
    obtain ⟨hlo, hhi, _⟩ := h.laid.bounds (by decide) hb
    exact ⟨hlo, hhi.trans h.inside⟩
  linked := h.chain
  walk _ hcap := h.find hcap
  asserted _ bytes val hcap := h.asserted bytes val hcap

/-- What a run keeps of the function at `p`. -/
def Kept (p : Nat) (pi₀ : Devinst) (bs : List Block) (e : Nat) (s : Bus) : Prop :=
  ∃ pi, s.devs p = some pi ∧ CapsOk pi bs e ∧ SparesCaps pi ∧ HeadersKept bs pi₀.cfgdata pi.cfgdata

theorem HeadersKept.trans {cfg₁ cfg₂ cfg₃ : Mem} (h : HeadersKept bs cfg₁ cfg₂)
    (h' : HeadersKept bs cfg₂ cfg₃) : HeadersKept bs cfg₁ cfg₃ where
  status x hlo hhi := (h'.status x hlo hhi).trans (h.status x hlo hhi)
  headers b hb :=
    ⟨(h'.headers b hb).1.trans (h.headers b hb).1, (h'.headers b hb).2.trans (h.headers b hb).2⟩

/-- A write goes to one function, found by bus, slot and function number. -/
theorem pciCfgrw_step {s' : Bus} {w : CfgWrite} (h : pciCfgrw fiDevi s w = .ok s') :
    s' = s ∨ ∃ q pi, s.devs q = some pi ∧ DevStep s s' q pi w := by
  unfold pciCfgrw at h
  split at h
  · exact Or.inl (Except.ok.inj h).symm
  · rename_i q _
    split at h
    · exact Or.inl (Except.ok.inj h).symm
    · rename_i pi hq
      exact Or.inr ⟨q, pi, hq, cfgwriteDev_step hq h⟩

theorem Kept.step {pi₀ : Devinst} {s' : Bus} {w : CfgWrite} (hk : Kept p pi₀ bs e s)
    (h : pciCfgrw fiDevi s w = .ok s') : Kept p pi₀ bs e s' := by
  rcases pciCfgrw_step h with rfl | ⟨q, pi, hq, hstep⟩
  · exact hk
  obtain ⟨pip, hp, hok, hspares, hkept⟩ := hk
  by_cases hpq : p = q
  · subst hpq
    rw [hp] at hq
    obtain rfl := Option.some.inj hq
    obtain ⟨pi', hp', hcapend, hown, hout⟩ := hstep.target
    have hheaders := hout.kept hok hspares
    refine ⟨pi', hp', hok.of_kept hcapend hheaders, ?_, hkept.trans hheaders⟩
    unfold SparesCaps
    rw [hown, hcapend]
    exact hspares
  · exact ⟨pip, (hstep.others p hpq).trans hp, hok, hspares, hkept⟩

theorem Kept.reachable (h₀ : Kept p pi bs e s₀) (hr : (guestWrites fiDevi s₀).Reachable s) :
    Kept p pi bs e s := by
  have hind : (guestWrites fiDevi s₀).Inductive (Kept p pi bs e) := by
    refine ⟨fun t ht => ?_, fun t w t' ht hw => ht.step hw⟩
    obtain rfl : t = s₀ := ht
    exact h₀
  exact hind.reachable hr

end Runs

/-- Whatever capabilities a device adds and whatever the guest writes then, the list is the one the
device laid out. -/
theorem capability_chain_holds {fiDevi : Nat → Nat → Nat → Option Nat} {s₀ s : Bus} {p : Nat}
    {d : CapDev} {caps : List (List UInt8)} (hlen : ∀ c ∈ caps, 0 < c.length)
    (hfirst : load 2 d.dev.cfgdata pcirStatus &&& pcimStatusCappresent = 0)
    (hown : SparesCaps (addCapabilities d caps).dev)
    (hp : s₀.devs p = some (addCapabilities d caps).dev)
    (hr : (guestWrites fiDevi s₀).Reachable s) :
    ∃ pi, s.devs p = some pi ∧ ChainHolds pi (layout capStartOffset caps) ∧
      HeadersKept (layout capStartOffset caps) (addCapabilities d caps).dev.cfgdata pi.cfgdata := by
  have hnone : CapsOk d.dev [] capStartOffset :=
    ⟨iff_of_true hfirst rfl, rfl, by decide, fun hne => absurd rfl hne, trivial⟩
  obtain ⟨e, hok, -⟩ := addCapabilities_ok (fun c hc => List.length_pos_iff.mp (hlen c hc)) hnone
    fun last hlast => by cases hlast
  rw [List.nil_append] at hok
  have hkept : Kept p (addCapabilities d caps).dev (layout capStartOffset caps) e s₀ :=
    ⟨_, hp, hok, hown, .refl _ _⟩
  obtain ⟨pi, hpi, hok', -, hheaders⟩ := hkept.reachable hr
  exact ⟨pi, hpi, hok'.holds, hheaders⟩

/-- A device before it adds capabilities. -/
def bareDev : CapDev where
  dev := ⟨store 1 (fun _ => 0) 4 7, fun _ => ⟨.none, 0, 0⟩, 0, none⟩
  piPrevcap := 0

/-- MSI-X with two vectors, MSI with one, and one that is too long. -/
def someCaps : List (List UInt8) :=
  [[0x11, 0, 1, 0, 1, 0, 0, 0, 1, 0x10, 0, 0], [0x05, 0, 0x80, 0, 0, 0, 0, 0, 0, 0, 0, 0, 0, 0],
    List.replicate 200 9]

def oneFunction : Bus where
  devs := fun p => if p = 1 then some (addCapabilities bareDev someCaps).dev else none
  inout := fun _ => (Inout.defaultIop 0 0).entry
  mem := []

/-- The guest writes all four bytes of the MSI-X header. -/
theorem capability_chain_holds_msix :
    ∃ s pi, pciCfgrw (fun _ _ _ => some 1) oneFunction ⟨0, 0, 0, 0x40, 4, 0x8001ffff⟩ = .ok s ∧
      s.devs 1 = some pi ∧ ChainHolds pi [⟨0x40, 12, 0x11⟩, ⟨0x4c, 16, 0x05⟩] := by
  have hwritten : (pciCfgrw (fun _ _ _ => some 1) oneFunction ⟨0, 0, 0, 0x40, 4, 0x8001ffff⟩).isOk =
      true := by decide +kernel
  obtain ⟨s, hs⟩ : ∃ s, pciCfgrw (fun _ _ _ => some 1) oneFunction
      ⟨0, 0, 0, 0x40, 4, 0x8001ffff⟩ = .ok s := by
    cases hres : pciCfgrw (fun _ _ _ => some 1) oneFunction ⟨0, 0, 0, 0x40, 4, 0x8001ffff⟩ with
    | error e =>
      rw [hres] at hwritten
      cases hwritten
    | ok s => exact ⟨s, rfl⟩
  have hreach : (guestWrites (fun _ _ _ => some 1) oneFunction).Reachable s :=
    .step (.init rfl) hs
  have hnone : (addCapabilities bareDev someCaps).dev.peCfgwrite.isNone = true := by
    decide +kernel
  have hlen : ∀ c ∈ someCaps, 0 < c.length := by decide +kernel
  have hlayout : layout capStartOffset someCaps = [⟨0x40, 12, 0x11⟩, ⟨0x4c, 16, 0x05⟩] := by
    decide +kernel
  have hspares : SparesCaps (addCapabilities bareDev someCaps).dev := by
    intro f hf
    rw [Option.isNone_iff_eq_none.mp hnone] at hf
    cases hf
  obtain ⟨pi, hpi, hchain, -⟩ := capability_chain_holds (p := 1) hlen (by decide +kernel) hspares rfl
    hreach
  rw [hlayout] at hchain
  exact ⟨s, pi, hs, hpi, hchain⟩

end Xhyve.Emul.Pci
