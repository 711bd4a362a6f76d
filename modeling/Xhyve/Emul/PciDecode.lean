import Xhyve.Emul.PciBars
import Xhyve.Lib.BitWords
import Xhyve.Lib.Transition

/-!
# Which BARs are decoded

After every configuration write, each BAR whose space the function decodes is registered at
exactly its current range and the others are not registered, as long as no write asks for a
range that overlaps one already registered. Nothing in the code enforces that condition:
the port table refuses an overlap and an assertion then fails, and the memory registry
either refuses it or, when the first address is covered, drops the range without a word.
-/

namespace Xhyve.Emul.Pci

open Xhyve.Lib Xhyve.Lib.Mem
open Xhyve.Emul.Mem (MemRange)

/-! ## Between writes -/

/-- The BARs whose space their function decodes. -/
def decodes (s : Bus) (p i : Nat) : Bool :=
  match s.devs p with
  | some pi => implemented (pi.piBar i).type && decode pi (pi.piBar i)
  | none => false

/-- Registration agrees with the command registers. -/
def Steady (s : Bus) : Prop := Registered s (decodes s)

section Steady
variable {s : Bus} {p idx : Nat} {pi pi' : Devinst} {on : Nat → Nat → Bool}

theorem decodes_eq (hp : s.devs p = some pi) (i : Nat) :
    decodes s p i = (implemented (pi.piBar i).type && decode pi (pi.piBar i)) := by
  simp [decodes, hp]

theorem decodes_setDev_ne {q : Nat} (hq : q ≠ p) (i : Nat) :
    decodes (s.setDev p pi') q i = decodes s q i := by
  simp only [decodes, s.setDev_ne pi' hq]

theorem decode_congr {b c : Bar} (htype : c.type = b.type)
    (hcmd : load 2 pi'.cfgdata pcirCommand = load 2 pi.cfgdata pcirCommand) :
    decode pi' c = decode pi b := by
  simp only [decode, porten, memen, hcmd, htype]

theorem DevWf.of_bars (h : DevWf pi) (hbar : pi'.piBar = pi.piBar) : DevWf pi' :=
  ⟨hbar ▸ h.bar, hbar ▸ h.high, hbar ▸ h.least⟩

/-- The last function written to decides its own BARs by its command register. -/
theorem Registered.steady (h : Registered s on) (hp : s.devs p = some pi)
    (hself : ∀ i ≤ pciBarmax, implemented (pi.piBar i).type → on p i = decode pi (pi.piBar i))
    (hother : ∀ q i, q ≠ p → on q i = decodes s q i) : Steady s := by
  refine h.congr fun q qi i hq hi himpl => ?_
  by_cases hqp : q = p
  · subst hqp
    rw [hp] at hq
    cases hq
    rw [hself i hi himpl, decodes_eq hp, himpl, Bool.true_and]
  · exact hother q i hqp

/-- A register that is not the command register. -/
theorem Steady.setCfg (h : Steady s) (hp : s.devs p = some pi) {cfg : Mem}
    (hcmd : load 2 cfg pcirCommand = load 2 pi.cfgdata pcirCommand) :
    Steady (s.setDev p { pi with cfgdata := cfg }) := by
  have hwf : DevWf { pi with cfgdata := cfg } := (h.wf p pi hp).of_bars rfl
  refine (h.setDev hp hwf fun i _ _ => rfl).steady (s.setDev_same ..) (fun i hi himpl => ?_)
    fun q i hq => (decodes_setDev_ne hq i).symm
  have himpl' : implemented (pi.piBar i).type = true := himpl
  rw [decodes_eq hp, himpl', Bool.true_and]
  exact (decode_congr rfl hcmd).symm

end Steady

/-! ## Writes to base address registers -/

/-- The BAR a write moves, with its new address. -/
def newBar (pi : Devinst) (idx eax : Nat) : Bar :=
  let b := pi.piBar (barTarget pi idx)
  { b with addr := mergeAddr b.addr (barWritten pi idx eax).1 (pi.piBar idx).type }

section BarWrite
variable {s : Bus} {p idx eax : Nat} {pi : Devinst}

theorem testBit_sizeMask {k i : Nat} (hk : k < 64) (hi : i < k) :
    (sizeMask (2 ^ k)).testBit i = false := by
  have hle : 2 ^ k ≤ 2 ^ 64 := Nat.pow_le_pow_right (by decide) hk.le
  have hsub : 2 ^ 64 - 2 ^ k = 2 ^ k * (2 ^ (64 - k) - 1) := by
    rw [Nat.mul_sub, Nat.mul_one, ← pow_add, Nat.add_sub_cancel' hk.le]
  have hlt : 2 ^ 64 - 2 ^ k < 2 ^ 64 := Nat.sub_lt (by positivity) (by positivity)
  rw [sizeMask, Nat.mod_eq_of_lt hlt, hsub, Nat.testBit_two_pow_mul]
  simp [Nat.not_le.mpr hi]

theorem testBit_and_sizeMask {k i : Nat} (x : Nat) (hk : k < 64) (hi : i < k) :
    (x &&& sizeMask (2 ^ k)).testBit i = false := by
  rw [Nat.testBit_and, testBit_sizeMask hk hi, Bool.and_false]

theorem implemented_ne {t : BarType} (h : implemented t) : t ≠ .none ∧ t ≠ .memhi64 := by
  constructor <;> rintro rfl <;> simp [implemented, isMem] at h

/-- A register whose write can move a BAR belongs to one that exists. -/
theorem DevWf.target (h : DevWf pi) (hi : idx ≤ pciBarmax) (hnone : (pi.piBar idx).type ≠ .none) :
    barTarget pi idx ≤ pciBarmax ∧ implemented (pi.piBar (barTarget pi idx)).type = true := by
  unfold barTarget
  split
  · rename_i hhi
    obtain ⟨-, h64⟩ := h.high idx hi hhi
    exact ⟨(Nat.sub_le _ _).trans hi, by rw [h64]; rfl⟩
  · rename_i hhi
    refine ⟨hi, ?_⟩
    cases htype : (pi.piBar idx).type with
    | none => exact absurd htype hnone
    | memhi64 => exact absurd htype hhi
    | io => rfl
    | mem32 => rfl
    | mem64 => rfl

/-- Whatever the guest writes, the BAR stays aligned to its size. -/
theorem DevWf.newBar_wf (h : DevWf pi) (hi : idx ≤ pciBarmax) (hnone : (pi.piBar idx).type ≠ .none)
    (heax : eax < 2 ^ 32) : BarWf (newBar pi idx eax) := by
  obtain ⟨ht, himpl⟩ := h.target hi hnone
  obtain ⟨k, hk, hsize, hbits, hlt, hport⟩ := h.bar _ ht himpl
  refine ⟨k, hk, hsize, ?_⟩
  have heax64 : eax < 2 ^ 64 := heax.trans (by decide)
  cases htype : (pi.piBar idx).type with
  | none => exact absurd htype hnone
  | io =>
    have htarget : barTarget pi idx = idx := by simp [barTarget, htype]
    rw [htarget] at hsize hport
    have haddr : (newBar pi idx eax).addr = eax &&& sizeMask (2 ^ k) &&& 0xffff := by
      simp [Pci.newBar, barWritten, htype, mergeAddr, hsize]
    have h16 : eax &&& sizeMask (2 ^ k) &&& 0xffff < 2 ^ 16 :=
      lt_of_le_of_lt Nat.and_le_right (by decide)
    rw [haddr]
    refine ⟨fun i hik => ?_, h16.trans (by decide), fun _ => ⟨(hport htype).1, h16⟩⟩
    rw [Nat.testBit_and, testBit_and_sizeMask eax hk hik, Bool.false_and]
  | mem32 =>
    have htarget : barTarget pi idx = idx := by simp [barTarget, htype]
    rw [htarget] at hsize
    have haddr : (newBar pi idx eax).addr = eax &&& sizeMask (2 ^ k) := by
      simp [Pci.newBar, barWritten, htype, mergeAddr, hsize]
    rw [haddr]
    refine ⟨fun i hik => testBit_and_sizeMask eax hk hik,
      lt_of_le_of_lt Nat.and_le_left heax64, fun hio => ?_⟩
    simp [Pci.newBar, htarget, htype] at hio
  | mem64 =>
    have htarget : barTarget pi idx = idx := by simp [barTarget, htype]
    rw [htarget] at hsize hbits hlt
    have haddr : (newBar pi idx eax).addr =
        ((pi.piBar idx).addr &&& 0xffffffff00000000) ||| (eax &&& sizeMask (2 ^ k)) := by
      simp [Pci.newBar, barWritten, htype, mergeAddr, hsize, htarget]
    rw [haddr]
    refine ⟨fun i hik => ?_, Nat.or_lt_two_pow (lt_of_le_of_lt Nat.and_le_left hlt)
      (lt_of_le_of_lt Nat.and_le_left heax64), fun hio => ?_⟩
    · rw [Nat.testBit_or, Nat.testBit_and, hbits i hik, testBit_and_sizeMask eax hk hik]
      rfl
    · simp [Pci.newBar, htarget, htype] at hio
  | memhi64 =>
    have htarget : barTarget pi idx = idx - 1 := by simp [barTarget, htype]
    obtain ⟨-, h64⟩ := h.high idx hi htype
    rw [htarget] at hsize hbits hlt
    have haddr : (newBar pi idx eax).addr = ((pi.piBar (idx - 1)).addr &&& 0xffffffff) |||
        (((eax <<< 32) % 2 ^ 64) &&& sizeMask (2 ^ k)) := by
      simp [Pci.newBar, barWritten, htype, mergeAddr, hsize, htarget]
    rw [haddr]
    refine ⟨fun i hik => ?_, Nat.or_lt_two_pow (lt_of_le_of_lt Nat.and_le_left hlt)
      (lt_of_le_of_lt Nat.and_le_left (Nat.mod_lt _ (by decide))), fun hio => ?_⟩
    · rw [Nat.testBit_or, Nat.testBit_and, hbits i hik, testBit_and_sizeMask _ hk hik]
      rfl
    · simp [Pci.newBar, htarget, h64] at hio

/-- What a write that moves a decoded BAR needs: nothing but the BAR itself is registered
where it is to go. -/
def ClearMove (s : Bus) (p : Nat) (pi : Devinst) (idx eax : Nat) : Prop :=
  let b := pi.piBar (barTarget pi idx)
  let b' := newBar pi idx eax
  (pi.piBar idx).type ≠ .none → barMoves pi idx eax = true → decode pi b = true →
    (b.type = .io → ∀ a, b'.inRange a → (s.inout a).isDefault = true ∨ b.inRange a) ∧
    (isMem b.type → ∀ mr ∈ s.mem, mr = memEntry p (barTarget pi idx) b ∨
      ∀ a, b'.inRange a → mr.contains a = false)

theorem Devinst.setAddr_type (pi : Devinst) (idx addr i : Nat) :
    ((pi.setAddr idx addr).piBar i).type = (pi.piBar i).type := by
  unfold Devinst.setAddr
  by_cases hi : i = idx
  · subst hi
    simp
  · simp [Function.update_of_ne hi]

theorem Devinst.setAddr_size (pi : Devinst) (idx addr i : Nat) :
    ((pi.setAddr idx addr).piBar i).size = (pi.piBar i).size := by
  unfold Devinst.setAddr
  by_cases hi : i = idx
  · subst hi
    simp
  · simp [Function.update_of_ne hi]

theorem Devinst.setAddr_ne (pi : Devinst) {idx i : Nat} (addr : Nat) (h : i ≠ idx) :
    (pi.setAddr idx addr).piBar i = pi.piBar i := Function.update_of_ne h ..

theorem Devinst.setAddr_same (pi : Devinst) (idx addr : Nat) :
    (pi.setAddr idx addr).piBar idx = { pi.piBar idx with addr := addr } :=
  Function.update_self ..

theorem DevWf.setAddr (h : DevWf pi) {t addr : Nat}
    (hb : implemented (pi.piBar t).type → BarWf { pi.piBar t with addr := addr }) :
    DevWf (pi.setAddr t addr) where
  bar i hi himpl := by
    rw [pi.setAddr_type] at himpl
    by_cases hit : i = t
    · subst hit
      rw [pi.setAddr_same]
      exact hb himpl
    · rw [pi.setAddr_ne addr hit]
      exact h.bar i hi himpl
  high i hi := by
    rw [pi.setAddr_type, pi.setAddr_type]
    exact h.high i hi
  least i hi hm := by
    rw [pi.setAddr_type] at hm
    rw [pi.setAddr_size]
    exact h.least i hi hm

/-- Moving one BAR, decoded or not. -/
theorem Steady.updateBarAddress (h : Steady s) (hp : s.devs p = some pi) {t a addr : Nat}
    {type : BarType} (ht : t ≤ pciBarmax) (himpl : implemented (pi.piBar t).type)
    (haddr : mergeAddr (pi.piBar t).addr a type = addr)
    (hnew : BarWf { pi.piBar t with addr := addr })
    (hclear : decode pi (pi.piBar t) = true →
      ((pi.piBar t).type = .io → ∀ x, { pi.piBar t with addr := addr }.inRange x →
        (s.inout x).isDefault = true ∨ (pi.piBar t).inRange x) ∧
      (isMem (pi.piBar t).type → ∀ mr ∈ s.mem, mr = memEntry p t (pi.piBar t) ∨
        ∀ x, { pi.piBar t with addr := addr }.inRange x → mr.contains x = false)) :
    ∃ s', updateBarAddress s p pi a t type = .ok (s', pi.setAddr t addr) ∧
      Steady s' ∧ s'.devs p = some (pi.setAddr t addr) := by
  have hwf : DevWf (pi.setAddr t addr) := (h.wf p pi hp).setAddr fun _ => hnew
  have hsame : ∀ i, i ≠ t → (pi.setAddr t addr).piBar i = pi.piBar i :=
    fun i hit => pi.setAddr_ne addr hit
  have hdecode : ∀ i, decode (pi.setAddr t addr) ((pi.setAddr t addr).piBar i) =
      decode pi (pi.piBar i) := fun i => decode_congr (pi.setAddr_type ..) rfl
  cases hdec : decode pi (pi.piBar t) with
  | false =>
    refine ⟨s.setDev p (pi.setAddr t addr), ?_, ?_, s.setDev_same ..⟩
    · rw [← haddr]
      exact updateBarAddress_off hdec
    · have hon : decodes s p t = false := by rw [decodes_eq hp, hdec, Bool.and_false]
      refine (h.setDev hp hwf fun i hi hion => hsame i ?_).steady (s.setDev_same ..)
        (fun i hi himpl' => ?_) fun q i hq => (decodes_setDev_ne hq i).symm
      · rintro rfl
        rw [hon] at hion
        cases hion
      · rw [pi.setAddr_type] at himpl'
        rw [decodes_eq hp, himpl', Bool.true_and, hdecode]
  | true =>
    have hon : decodes s p t = true := by rw [decodes_eq hp, hdec, himpl, Bool.and_true]
    obtain ⟨hio, hmem⟩ := hclear hdec
    obtain ⟨s₁, hun, hreg₁, hdrop⟩ := Registered.unregisterBar h hp ht himpl hon
    have hp₁ : s₁.devs p = some pi := hdrop.devs ▸ hp
    have hreg₂ := hreg₁.setDev hp₁ hwf fun i hi hion => hsame i (by
      rintro rfl
      rw [setOn, if_pos ⟨rfl, rfl⟩] at hion
      cases hion)
    have hfree : Free (s₁.setDev p (pi.setAddr t addr)) ((pi.setAddr t addr).piBar t) := by
      rw [pi.setAddr_same]
      refine ⟨fun hbio a hin => ?_, fun hbm mr hmr a hin => ?_⟩
      · rcases hdrop.inout a with ⟨heq, hout⟩ | hdef
        · rcases hio hbio a hin with hdef | hold
          · exact heq ▸ hdef
          · exact absurd ⟨hbio, hold⟩ hout
        · exact hdef
      · obtain ⟨hmr', hne⟩ := hdrop.mem mr hmr
        exact (hmem hbm mr hmr').resolve_left (hne hbm) a hin
    have himpl' : implemented ((pi.setAddr t addr).piBar t).type = true := by
      rw [pi.setAddr_type]
      exact himpl
    obtain ⟨s₃, hre, hreg₃, hadd⟩ :=
      hreg₂.registerBar (s₁.setDev_same p (pi.setAddr t addr)) ht himpl' hfree
    have hp₃ : s₃.devs p = some (pi.setAddr t addr) := hadd.devs ▸ s₁.setDev_same ..
    refine ⟨s₃, ?_, hreg₃.steady hp₃ (fun i hi himpl' => ?_) (fun q i hq => ?_), hp₃⟩
    · rw [← haddr] at hre ⊢
      exact updateBarAddress_on hdec hun hre
    · rw [pi.setAddr_type] at himpl'
      rw [hdecode]
      by_cases hit : i = t
      · rw [hit, hdec]
        exact if_pos ⟨rfl, rfl⟩
      · have hne : ¬ (p = p ∧ i = t) := fun hc => hit hc.2
        rw [setOn, if_neg hne, setOn, if_neg hne, decodes_eq hp, himpl', Bool.true_and]
    · have hne : ¬ (q = p ∧ i = t) := fun hc => hq hc.1
      rw [setOn, if_neg hne, setOn, if_neg hne]
      simp only [decodes, hadd.devs, s₁.setDev_ne _ hq, hdrop.devs]

theorem barIndex {coff : Nat} (h : pcirBar 0 ≤ coff) (h' : coff < pcirBar (pciBarmax + 1)) :
    (coff - pcirBar 0) / 4 ≤ pciBarmax := by
  simp only [pcirBar, pciBarmax] at *
  omega

/-- A BAR register is not the command register. -/
theorem command_of_barWrite {coff val : Nat} (h : pcirBar 0 ≤ coff) (cfg : Mem) :
    load 2 (store 4 cfg coff val) pcirCommand = load 2 cfg pcirCommand := by
  refine load_store_of_disjoint ?_
  simp only [pcirBar, pcirCommand] at *
  omega

/-- A write to an aligned base address register. -/
theorem Steady.barWrite (h : Steady s) (hp : s.devs p = some pi) {coff : Nat}
    (hlo : pcirBar 0 ≤ coff) (hhi : coff < pcirBar (pciBarmax + 1)) (heax : eax < 2 ^ 32)
    (hclear : ClearMove s p pi ((coff - pcirBar 0) / 4) eax) :
    ∃ s', barWrite s p pi coff eax = .ok s' ∧ Steady s' := by
  have hi := barIndex hlo hhi
  unfold Pci.barWrite
  generalize (coff - pcirBar 0) / 4 = i at *
  by_cases hnone : (pi.piBar i).type = .none
  · -- nothing is registered for a BAR that does not exist
    have hwf : DevWf (pi.setAddr i 0) :=
      (h.wf p pi hp).setAddr fun himpl => absurd hnone (implemented_ne himpl).1
    have hwf' : DevWf (cfgwrite (pi.setAddr i 0) coff (barWritten pi i eax).2 4) :=
      hwf.of_bars rfl
    refine ⟨s.setDev p (cfgwrite (pi.setAddr i 0) coff (barWritten pi i eax).2 4),
      by simp only [hnone, if_true]; rfl, ?_⟩
    refine (h.setDev hp hwf' fun j hj hon => ?_).steady (s.setDev_same ..)
      (fun j hj himpl => ?_) fun q j hq => (decodes_setDev_ne hq j).symm
    · refine pi.setAddr_ne 0 ?_
      rintro rfl
      rw [decodes_eq hp, hnone] at hon
      cases hon
    · have htype := pi.setAddr_type i 0 j
      have himpl' : implemented (pi.piBar j).type = true := htype ▸ himpl
      rw [decodes_eq hp, himpl', Bool.true_and]
      exact (decode_congr htype (command_of_barWrite hlo _)).symm
  · by_cases hmoves : barMoves pi i eax = true
    · obtain ⟨ht, himpl⟩ := (h.wf p pi hp).target hi hnone
      obtain ⟨s', hup, hs', hp'⟩ := h.updateBarAddress hp ht himpl rfl
        ((h.wf p pi hp).newBar_wf hi hnone heax) (hclear hnone hmoves)
      refine ⟨s'.setDev p (cfgwrite (pi.setAddr (barTarget pi i) _) coff
        (barWritten pi i eax).2 4), ?_, hs'.setCfg hp' (command_of_barWrite hlo _)⟩
      simp only [hnone, if_false, hmoves, if_true, hup]
      rfl
    · refine ⟨s.setDev p (cfgwrite pi coff (barWritten pi i eax).2 4), ?_,
        h.setCfg hp (command_of_barWrite hlo _)⟩
      simp only [hnone, if_false, hmoves]
      rfl

end BarWrite

/-! ## Writes to the command register -/

/-- What a write that switches decoding on needs: nothing is registered where the BARs of
that space are, and they do not overlap each other. -/
def ClearEnable (s : Bus) (pi pi' : Devinst) : Prop :=
  ∀ i ≤ pciBarmax, implemented (pi.piBar i).type → decode pi (pi.piBar i) = false →
    decode pi' (pi.piBar i) = true →
    Free s (pi.piBar i) ∧
    ∀ j < i, ((pi.piBar j).type = .io ↔ (pi.piBar i).type = .io) → implemented (pi.piBar j).type →
      ∀ a, ¬ ((pi.piBar i).inRange a ∧ (pi.piBar j).inRange a)

section Command
variable {s : Bus} {p : Nat} {pi pi' : Devinst}

/-- The BARs registered when the loop has reached `n`. -/
def loopOn (s₀ : Bus) (p : Nat) (pi pi' : Devinst) (n q i : Nat) : Bool :=
  if q = p then implemented (pi.piBar i).type && decode (if i < n then pi' else pi) (pi.piBar i)
  else decodes s₀ q i

/-- Where the loop over the BARs stands: those before `n` follow the new command register,
the others the old one, and nothing but BARs before `n` has been added. -/
structure LoopInv (s₀ : Bus) (p : Nat) (pi pi' : Devinst) (n : Nat) (s : Bus) : Prop where
  devs : s.devs = s₀.devs
  registered : Registered s (loopOn s₀ p pi pi' n)
  mem : ∀ mr ∈ s.mem, mr ∈ s₀.mem ∨ ∃ j < n, isMem (pi.piBar j).type ∧
    mr = memEntry p j (pi.piBar j)
  inout : ∀ a, s.inout a = s₀.inout a ∨ (s.inout a).isDefault = true ∨
    ∃ j < n, (pi.piBar j).type = .io ∧ (pi.piBar j).inRange a

theorem changed_iff (x y i : Nat) :
    (x ^^^ y) &&& 2 ^ i ≠ 0 ↔ decide (x &&& 2 ^ i ≠ 0) ≠ decide (y &&& 2 ^ i ≠ 0) := by
  simp only [ne_eq, and_two_pow_eq_zero, Nat.testBit_xor]
  cases x.testBit i <;> cases y.testBit i <;> decide

theorem changed_porten :
    (load 2 pi.cfgdata pcirCommand ^^^ load 2 pi'.cfgdata pcirCommand) &&& pcimCmdPorten ≠ 0 ↔
      porten pi ≠ porten pi' := changed_iff _ _ 0

theorem changed_memen :
    (load 2 pi.cfgdata pcirCommand ^^^ load 2 pi'.cfgdata pcirCommand) &&& pcimCmdMemen ≠ 0 ↔
      memen pi ≠ memen pi' := changed_iff _ _ 1

/-- One turn of the loop in terms of what it means for the BAR. -/
theorem cmdstsBar_eq (s : Bus) (p i : Nat) (hbar : pi'.piBar = pi.piBar) :
    cmdstsBar s p pi' (load 2 pi.cfgdata pcirCommand ^^^ load 2 pi'.cfgdata pcirCommand) i =
      if implemented (pi.piBar i).type ∧ decode pi (pi.piBar i) ≠ decode pi' (pi.piBar i) then
        if decode pi' (pi.piBar i) then registerBar s p i (pi.piBar i)
        else unregisterBar s p i (pi.piBar i)
      else .ok s := by
  unfold cmdstsBar
  simp only [hbar, changed_porten, changed_memen]
  cases htype : (pi.piBar i).type with
  | none => simp [implemented, isMem]
  | memhi64 => simp [implemented, isMem]
  | io => simp [implemented, isMem, decode, htype]
  | mem32 => simp [implemented, isMem, decode, htype]
  | mem64 => simp [implemented, isMem, decode, htype]

theorem loopOn_succ {s₀ : Bus} {n : Nat} (himpl : implemented (pi.piBar n).type) (q i : Nat) :
    loopOn s₀ p pi pi' (n + 1) q i =
      setOn (loopOn s₀ p pi pi' n) p n (decode pi' (pi.piBar n)) q i := by
  unfold loopOn setOn
  by_cases hq : q = p
  · by_cases hin : i = n
    · simp [hq, hin, himpl]
    · have hlt : i < n + 1 ↔ i < n := by omega
      simp [hq, hin, hlt]
  · simp [hq]

theorem LoopInv.step {s₀ : Bus} {n : Nat} (h : LoopInv s₀ p pi pi' n s) (hn : n ≤ pciBarmax)
    (hp : s₀.devs p = some pi') (hbar : pi'.piBar = pi.piBar) (hclear : ClearEnable s₀ pi pi') :
    ∃ s', cmdstsBar s p pi'
        (load 2 pi.cfgdata pcirCommand ^^^ load 2 pi'.cfgdata pcirCommand) n = .ok s' ∧
      LoopInv s₀ p pi pi' (n + 1) s' := by
  rw [cmdstsBar_eq s p n hbar]
  have hps : s.devs p = some pi' := h.devs ▸ hp
  have hreg : Registered s (loopOn s₀ p pi pi' n) := h.registered
  have hmem' : ∀ mr, (∃ j < n, isMem (pi.piBar j).type ∧ mr = memEntry p j (pi.piBar j)) →
      ∃ j < n + 1, isMem (pi.piBar j).type ∧ mr = memEntry p j (pi.piBar j) :=
    fun mr ⟨j, hj, hrest⟩ => ⟨j, Nat.lt_succ_of_lt hj, hrest⟩
  have hio' : ∀ a, (∃ j < n, (pi.piBar j).type = .io ∧ (pi.piBar j).inRange a) →
      ∃ j < n + 1, (pi.piBar j).type = .io ∧ (pi.piBar j).inRange a :=
    fun a ⟨j, hj, hrest⟩ => ⟨j, Nat.lt_succ_of_lt hj, hrest⟩
  split
  · rename_i hcase
    obtain ⟨himpl, hchange⟩ := hcase
    have himpl' : implemented (pi'.piBar n).type = true := hbar ▸ himpl
    cases hdec : decode pi' (pi.piBar n) with
    | true =>
      have hold : decode pi (pi.piBar n) = false := by
        rw [hdec] at hchange
        simpa using hchange
      obtain ⟨hfree₀, hpair⟩ := hclear n hn himpl hold hdec
      have hfree : Free s (pi'.piBar n) := by
        rw [hbar]
        refine ⟨fun hio a hin => ?_, fun hm mr hmr a hin => ?_⟩
        · rcases h.inout a with heq | hdef | ⟨j, hj, hjio, hjin⟩
          · exact heq ▸ hfree₀.1 hio a hin
          · exact hdef
          · exact absurd ⟨hin, hjin⟩ (hpair j hj (by simp [hjio, hio])
              (by simp [implemented, hjio]) a)
        · rcases h.mem mr hmr with hmr | ⟨j, hj, hjm, rfl⟩
          · exact hfree₀.2 hm mr hmr a hin
          · rw [Bool.eq_false_iff]
            intro hc
            have hjin : (pi.piBar j).inRange a := by
              simpa [memEntry, barRange, MemRange.contains, Bar.inRange] using hc
            exact hpair j hj (by simp [isMem_ne_io hjm, isMem_ne_io hm])
              (by simp [implemented, hjm]) a ⟨hin, hjin⟩
      obtain ⟨s', hok, hreg', hadd⟩ := hreg.registerBar hps hn himpl' hfree
      rw [hbar] at hok hadd
      refine ⟨s', by simpa using hok, ⟨hadd.devs.trans h.devs, ?_, fun mr hmr => ?_, fun a => ?_⟩⟩
      · refine hreg'.congr fun q qi i _ _ _ => ?_
        have hsucc : loopOn s₀ p pi pi' (n + 1) q i = _ := loopOn_succ himpl q i
        rw [hdec] at hsucc
        exact hsucc.symm
      · rcases hadd.mem mr hmr with hmr | ⟨hm, rfl⟩
        · exact (h.mem mr hmr).imp_right (hmem' mr)
        · exact .inr ⟨n, Nat.lt_succ_self n, hm, rfl⟩
      · rcases hadd.inout a with heq | ⟨hio, hin⟩
        · rw [heq]
          exact (h.inout a).imp_right (Or.imp_right (hio' a))
        · exact .inr (.inr ⟨n, Nat.lt_succ_self n, hio, hin⟩)
    | false =>
      have hold : decode pi (pi.piBar n) = true := by
        rw [hdec] at hchange
        simpa using hchange
      have hon : loopOn s₀ p pi pi' n p n = true := by
        simp [loopOn, himpl, hold]
      obtain ⟨s', hok, hreg', hdrop⟩ := hreg.unregisterBar hps hn himpl' hon
      rw [hbar] at hok hdrop
      refine ⟨s', by simpa using hok, ⟨hdrop.devs.trans h.devs, ?_, fun mr hmr => ?_, fun a => ?_⟩⟩
      · refine hreg'.congr fun q qi i _ _ _ => ?_
        have hsucc : loopOn s₀ p pi pi' (n + 1) q i = _ := loopOn_succ himpl q i
        rw [hdec] at hsucc
        exact hsucc.symm
      · exact (h.mem mr (hdrop.mem mr hmr).1).imp_right (hmem' mr)
      · rcases hdrop.inout a with ⟨heq, -⟩ | hdef
        · rw [heq]
          exact (h.inout a).imp_right (Or.imp_right (hio' a))
        · exact .inr (.inl hdef)
  · rename_i hcase
    refine ⟨s, rfl, h.devs, ?_, fun mr hmr => (h.mem mr hmr).imp_right (hmem' mr),
      fun a => (h.inout a).imp_right (Or.imp_right (hio' a))⟩
    -- the turn does nothing, and the two command registers agree on this BAR
    refine hreg.congr fun q qi i hq hi himpl => ?_
    unfold loopOn
    by_cases hqp : q = p
    · by_cases hin : i = n
      · subst hqp hin
        rw [hps] at hq
        cases hq
        rw [hbar] at himpl
        have hsame : decode pi (pi.piBar i) = decode pi' (pi.piBar i) := by
          by_contra hne
          exact hcase ⟨himpl, hne⟩
        simp [hsame]
      · have hlt : i < n + 1 ↔ i < n := by omega
        simp [hqp, hlt]
    · simp [hqp]

theorem Steady.cmdstsWrite (h : Steady s) (hp : s.devs p = some pi) {coff new bytes : Nat}
    (hclear : ClearEnable s pi (cmdstsWritten pi coff new bytes)) :
    ∃ s', pciEmulCmdstsWrite s p pi coff new bytes = .ok s' ∧ Steady s' := by
  unfold pciEmulCmdstsWrite
  have hbar : (cmdstsWritten pi coff new bytes).piBar = pi.piBar := rfl
  generalize cmdstsWritten pi coff new bytes = pi' at *
  have hp₀ : (s.setDev p pi').devs p = some pi' := s.setDev_same ..
  have hstart : LoopInv (s.setDev p pi') p pi pi' 0 (s.setDev p pi') := by
    refine ⟨rfl, ?_, fun mr hmr => .inl hmr, fun a => .inl rfl⟩
    refine (h.setDev hp ((h.wf p pi hp).of_bars hbar) fun i _ _ => by rw [hbar]).congr
      fun q qi i _ _ _ => ?_
    unfold loopOn
    by_cases hq : q = p
    · simp [hq, decodes_eq hp]
    · simp [hq, decodes_setDev_ne hq]
  obtain ⟨s', hok, hend⟩ := foldlM_range_ok (LoopInv (s.setDev p pi') p pi pi')
    (fun i hi t ht => ht.step (Nat.lt_succ_iff.mp hi) hp₀ hbar hclear) hstart
  refine ⟨s', hok, hend.registered.steady (hend.devs ▸ hp₀) (fun i hi himpl => ?_) fun q i hq => ?_⟩
  · have hlt : i < pciBarmax + 1 := Nat.lt_succ_of_le hi
    rw [hbar] at himpl ⊢
    simp [loopOn, himpl, hlt]
  · simp only [loopOn, if_neg hq, decodes, hend.devs]

end Command

/-! ## Whole runs -/

/-- What a write needs so that every range it registers is free when it is registered. -/
def Clear (fiDevi : Nat → Nat → Nat → Option Nat) (s : Bus) (w : CfgWrite) : Prop :=
  ∀ p pi, fiDevi w.bus w.slot w.func = some p → s.devs p = some pi → w.aligned = true →
    pi.peCfgwrite.bind (fun f => f.run w.coff w.bytes w.eax.toNat pi.cfgdata) = none →
    (pcirBar 0 ≤ w.coff → w.coff < pcirBar (pciBarmax + 1) → w.bytes = 4 →
      ClearMove s p pi ((w.coff - pcirBar 0) / 4) w.eax.toNat) ∧
    (pcirCommand ≤ w.coff → w.coff < pcirRevid →
      ClearEnable s pi (cmdstsWritten pi w.coff w.eax.toNat w.bytes))

section Step
variable {fiDevi : Nat → Nat → Nat → Option Nat} {s : Bus} {p : Nat} {pi : Devinst}

/-- Capabilities lie past the standard header. -/
theorem capwrite_cases {offset : Nat} (bytes val : Nat) (hoff : capStartOffset ≤ offset) :
    pciEmulCapwrite pi offset bytes val = .error .capability ∨
    ∃ cfg, pciEmulCapwrite pi offset bytes val = .ok { pi with cfgdata := cfg } ∧
      load 2 cfg pcirCommand = load 2 pi.cfgdata pcirCommand := by
  have hstore : ∀ o n v, capStartOffset ≤ o →
      load 2 (store n pi.cfgdata o v) pcirCommand = load 2 pi.cfgdata pcirCommand := by
    intro o n v ho
    refine load_store_of_disjoint ?_
    simp only [capStartOffset, pcirCommand] at *
    omega
  unfold pciEmulCapwrite
  split
  · exact .inr ⟨pi.cfgdata, rfl, rfl⟩
  split
  · exact .inl rfl
  split
  · exact .inl rfl
  split
  · exact .inr ⟨pi.cfgdata, rfl, rfl⟩
  simp only
  split
  · refine .inr ⟨_, rfl, hstore _ _ _ ?_⟩
    split <;> omega
  · exact .inr ⟨pi.cfgdata, rfl, rfl⟩

/-- A register outside the base addresses and the command and status word. -/
theorem command_of_cfgwrite {w : CfgWrite} (hal : w.aligned = true)
    (hcmd : ¬ (pcirCommand ≤ w.coff ∧ w.coff < pcirRevid)) (cfg : Mem) (val : Nat) :
    load 2 (store w.bytes cfg w.coff val) pcirCommand = load 2 cfg pcirCommand := by
  simp only [CfgWrite.aligned, decide_eq_true_eq] at hal
  obtain ⟨hbytes, hmod⟩ := hal
  refine load_store_of_disjoint ?_
  simp only [pcirCommand, pcirRevid] at *
  rcases hbytes with hb | hb | hb <;> rw [hb] at hmod ⊢ <;> omega

/-- One configuration write. -/
theorem Steady.cfgwriteDev (h : Steady s) (hp : s.devs p = some pi) {w : CfgWrite}
    (hdev : fiDevi w.bus w.slot w.func = some p) (hclear : Clear fiDevi s w) :
    (∃ s', cfgwriteDev s p pi w = .ok s' ∧ Steady s') ∨
      cfgwriteDev s p pi w = .error .capability := by
  unfold Pci.cfgwriteDev
  split
  · exact .inl ⟨s, rfl, h⟩
  rename_i hskip
  have hal : w.aligned = true := by
    by_contra hne
    exact hskip (.inl (by simpa using hne))
  split
  · rename_i cfg hrun
    obtain ⟨f, -, hf⟩ := Option.bind_eq_some_iff.mp hrun
    refine .inl ⟨_, rfl, h.setCfg hp (load_congr fun i hi => f.frame hf _ ?_)⟩
    simp only [pcirCommand, capStartOffset]
    omega
  rename_i hrun
  obtain ⟨hmove, henable⟩ := hclear p pi hdev hp hal hrun
  split
  · rename_i hbar
    split
    · exact .inl ⟨s, rfl, h⟩
    · rename_i hword
      have hbytes : w.bytes = 4 := by
        by_contra hne
        exact hword (.inl hne)
      exact .inl (h.barWrite hp hbar.1 hbar.2 w.eax.isLt (hmove hbar.1 hbar.2 hbytes))
  split
  · rename_i hcap
    simp only [pciEmulIscap, decide_eq_true_eq] at hcap
    rcases capwrite_cases w.bytes w.eax.toNat hcap.2.1 with herr | ⟨cfg, hok, hcmd⟩
    · exact .inr (by rw [herr]; rfl)
    · exact .inl ⟨_, by rw [hok]; rfl, h.setCfg hp hcmd⟩
  split
  · rename_i hcmd
    exact .inl (h.cmdstsWrite hp (henable hcmd.1 hcmd.2))
  · rename_i hcmd
    exact .inl ⟨_, rfl, h.setCfg hp (command_of_cfgwrite hal hcmd _ _)⟩

theorem Steady.pciCfgrw (h : Steady s) {w : CfgWrite} (hclear : Clear fiDevi s w) :
    (∃ s', pciCfgrw fiDevi s w = .ok s' ∧ Steady s') ∨
      pciCfgrw fiDevi s w = .error .capability := by
  unfold Pci.pciCfgrw
  split
  · exact .inl ⟨s, rfl, h⟩
  rename_i p hdev
  split
  · exact .inl ⟨s, rfl, h⟩
  rename_i pi hp
  exact h.cfgwriteDev hp hdev hclear

end Step

/-- Functions as `init_pci` leaves them: every space decoded and every BAR registered. -/
def Initialised (s : Bus) : Prop :=
  Registered s (fun _ _ => true) ∧ ∀ p pi, s.devs p = some pi → porten pi = true ∧ memen pi = true

def system (fiDevi : Nat → Nat → Nat → Option Nat) : System Bus CfgWrite where
  init := Initialised
  step s w s' := pciCfgrw fiDevi s w = .ok s'

/-- Every decoded BAR is registered once, at its range, and no other BAR is. -/
structure Decoded (s : Bus) : Prop where
  mem : ∀ p pi i, s.devs p = some pi → i ≤ pciBarmax → isMem (pi.piBar i).type →
    s.mem.filter (fun mr => mr.handler = pciEmulMemHandler ∧ mr.arg1 = p ∧ mr.arg2 = (i : Int)) =
      if memen pi then [memEntry p i (pi.piBar i)] else []
  io : ∀ p pi i, s.devs p = some pi → i ≤ pciBarmax → (pi.piBar i).type = .io →
    porten pi = true → ∀ a, (pi.piBar i).inRange a → s.inout a = portEntry p
  ioOnly : ∀ a, (s.inout a).handler = pciEmulIoHandler →
    ∃ p pi, s.devs p = some pi ∧ porten pi = true ∧ s.inout a = portEntry p ∧
      ∃! i, i ≤ pciBarmax ∧ (pi.piBar i).type = .io ∧ (pi.piBar i).inRange a

section Runs
variable {fiDevi : Nat → Nat → Nat → Option Nat} {s : Bus}

theorem Initialised.steady (h : Initialised s) : Steady s := by
  refine h.1.congr fun p pi i hp hi himpl => ?_
  obtain ⟨hport, hmem⟩ := h.2 p pi hp
  rw [decodes_eq hp, himpl, Bool.true_and, decode]
  split
  · exact hport.symm
  · exact hmem.symm

theorem steady_reachable (hr : ((system fiDevi).restrict (Clear fiDevi)).Reachable s) :
    Steady s := by
  have hind : ((system fiDevi).restrict (Clear fiDevi)).Inductive Steady := by
    refine ⟨fun s hs => Initialised.steady hs, fun s w s' hs hstep => ?_⟩
    obtain ⟨hclear, hok⟩ := hstep
    have hok' : pciCfgrw fiDevi s w = .ok s' := hok
    rcases hs.pciCfgrw hclear with ⟨t, ht, hsteady⟩ | herr
    · rw [ht] at hok'
      cases hok'
      exact hsteady
    · rw [herr] at hok'
      cases hok'
  exact hind.reachable hr

theorem eq_singleton_of_nodup {α : Type} {l : List α} {x : α} (hn : l.Nodup) (hx : x ∈ l)
    (hall : ∀ y ∈ l, y = x) : l = [x] := by
  match l, hn with
  | [], _ => cases hx
  | [y], _ => rw [hall y (List.mem_singleton_self y)]
  | y :: z :: l, hn =>
    have hy := hall y (by simp)
    have hz := hall z (by simp)
    subst hy hz
    simp at hn

theorem decode_io {pi : Devinst} {b : Bar} (h : b.type = .io) : decode pi b = porten pi := by
  rw [decode, if_pos h]

theorem decode_mem {pi : Devinst} {b : Bar} (h : isMem b.type) : decode pi b = memen pi := by
  rw [decode, if_neg (isMem_ne_io h)]

theorem decodes_of_implemented {p : Nat} {pi : Devinst} (hp : s.devs p = some pi) {i : Nat}
    (himpl : implemented (pi.piBar i).type) : decodes s p i = decode pi (pi.piBar i) := by
  rw [decodes_eq hp, himpl, Bool.true_and]

theorem Steady.decoded (h : Steady s) : Decoded s where
  mem p pi i hp hi hm := by
    have hdec : decodes s p i = memen pi := by
      rw [decodes_of_implemented hp (by simp [implemented, hm]), decode_mem hm]
    -- a range of this BAR is the one range it can have
    have honly : ∀ mr ∈ s.mem, mr.handler = pciEmulMemHandler ∧ mr.arg1 = p ∧ mr.arg2 = (i : Int) →
        memen pi = true ∧ mr = memEntry p i (pi.piBar i) := by
      rintro mr hmr ⟨hh, h1, h2⟩
      obtain ⟨q, j, c, hL, hcm, rfl⟩ := h.mem.sound mr hmr hh
      have hq : q = p := h1
      have hj : j = i := Int.ofNat.inj h2
      subst hq hj
      obtain ⟨-, -, -, -, hon⟩ := id hL
      rw [← hdec, hL.eq_bar hp]
      exact ⟨hon, rfl⟩
    cases hmem : memen pi with
    | true =>
      refine eq_singleton_of_nodup (h.mem.nodup.filter _) (List.mem_filter.mpr ⟨?_, ?_⟩) ?_
      · exact h.mem.complete p i _ ⟨pi, hp, hi, rfl, hdec.trans hmem⟩ hm
      · simp [memEntry, barRange]
      · intro mr hmr
        obtain ⟨hmr, hown⟩ := List.mem_filter.mp hmr
        exact (honly mr hmr (by simpa using hown)).2
    | false =>
      simp only [Bool.false_eq_true, if_false, List.filter_eq_nil_iff, decide_eq_true_eq]
      intro mr hmr hown
      rw [hmem] at honly
      exact Bool.false_ne_true (honly mr hmr hown).1
  io p pi i hp hi hio hport a hin := by
    have hdec : decodes s p i = true := by
      rw [decodes_of_implemented hp (by simp [implemented, hio]), decode_io hio, hport]
    exact h.io.complete p i _ ⟨pi, hp, hi, rfl, hdec⟩ hio a hin
  ioOnly a ha := by
    obtain ⟨p, i, b, hL, hio, hin⟩ := h.io.sound a ha
    obtain ⟨pi, hp, hi, rfl, hon⟩ := id hL
    have hdec : ∀ j, (pi.piBar j).type = .io → decodes s p j = porten pi := fun j hj => by
      rw [decodes_of_implemented hp (by simp [implemented, hj]), decode_io hj]
    have hport : porten pi = true := (hdec i hio).symm.trans hon
    refine ⟨p, pi, hp, hport, h.io.complete p i _ hL hio a hin, i, ⟨hi, hio, hin⟩, ?_⟩
    rintro j ⟨hj, hjio, hjin⟩
    exact h.io.unique p j i _ _ ⟨pi, hp, hj, rfl, (hdec j hjio).trans hport⟩ hL hjio hio a hjin hin

end Runs

/-- In every run whose writes only register free ranges, the registered BARs are exactly the
decoded ones, and no assertion on a registration fails. -/
theorem bar_decode_of_clear (fiDevi : Nat → Nat → Nat → Option Nat) (s : Bus)
    (hr : ((system fiDevi).restrict (Clear fiDevi)).Reachable s) :
    Decoded s ∧ ∀ w, Clear fiDevi s w → pciCfgrw fiDevi s w ≠ .error .registration := by
  have hs := steady_reachable hr
  refine ⟨hs.decoded, fun w hclear herr => ?_⟩
  rcases hs.pciCfgrw hclear with ⟨t, ht, -⟩ | hcap
  · rw [ht] at herr
    cases herr
  · rw [hcap] at herr
    cases herr

/-! ## An overlap -/

def twoBarsDev : Devinst where
  cfgdata := store 1 (fun _ => 0) 4 7
  piBar := fun i =>
    if i = 0 then ⟨.mem32, 0x1000, 0xc0000000⟩
    else if i = 1 then ⟨.mem32, 0x2000, 0xc0002000⟩
    else ⟨.none, 0, 0⟩
  piCapend := 0
  peCfgwrite := none

/-- One function with two memory BARs, as after initialisation. -/
def twoBars : Bus where
  devs := fun p => if p = 1 then some twoBarsDev else none
  inout := fun _ => (Inout.defaultIop 0 0).entry
  mem := [memEntry 1 0 (twoBarsDev.piBar 0), memEntry 1 1 (twoBarsDev.piBar 1)]

theorem twoBars_devs {p : Nat} {pi : Devinst} (h : twoBars.devs p = some pi) :
    p = 1 ∧ pi = twoBarsDev := by
  by_cases hp : p = 1
  · simpa [twoBars, hp, eq_comm] using h
  · simp [twoBars, hp] at h

theorem twoBars_bar {i : Nat} (h : implemented (twoBarsDev.piBar i).type) : i = 0 ∨ i = 1 := by
  by_contra hne
  have h0 : i ≠ 0 := fun h => hne (.inl h)
  have h1 : i ≠ 1 := fun h => hne (.inr h)
  simp [twoBarsDev, h0, h1, implemented, isMem] at h

theorem twoBars_no_io (i : Nat) : (twoBarsDev.piBar i).type ≠ .io := by
  simp only [twoBarsDev]
  split_ifs <;> simp

theorem twoBars_wf : DevWf twoBarsDev where
  bar i _ himpl := by
    rcases twoBars_bar himpl with rfl | rfl
    · exact ⟨12, by decide, rfl, by decide, by decide, fun h => absurd h (twoBars_no_io 0)⟩
    · exact ⟨13, by decide, rfl, by decide, by decide, fun h => absurd h (twoBars_no_io 1)⟩
  high i _ hhi := by
    exfalso
    simp only [twoBarsDev] at hhi
    split_ifs at hhi
  least i _ hm := by
    have himpl : implemented (twoBarsDev.piBar i).type = true := by simp [implemented, hm]
    rcases twoBars_bar himpl with rfl | rfl <;> decide

theorem initialised_twoBars : Initialised twoBars := by
  have hlive : ∀ i ≤ pciBarmax, Live twoBars.devs (fun _ _ => true) 1 i (twoBarsDev.piBar i) :=
    fun i hi => ⟨twoBarsDev, rfl, hi, rfl, rfl⟩
  have hio : ∀ p i b, Live twoBars.devs (fun _ _ => true) p i b → b.type ≠ .io := by
    rintro p i b ⟨pi, hp, -, rfl, -⟩
    rw [(twoBars_devs hp).2]
    exact twoBars_no_io i
  refine ⟨⟨?_, ⟨⟨by decide, by decide, ?_⟩, ?_⟩, ⟨?_, ?_, ?_⟩⟩, ?_⟩
  · intro p pi hp
    rw [(twoBars_devs hp).2]
    exact twoBars_wf
  · intro mr hmr _
    simp only [twoBars, List.mem_cons, List.not_mem_nil, or_false] at hmr
    rcases hmr with rfl | rfl
    · exact ⟨1, 0, _, hlive 0 (by decide), rfl, rfl⟩
    · exact ⟨1, 1, _, hlive 1 (by decide), rfl, rfl⟩
  · rintro p i b ⟨pi, hp, -, rfl, -⟩ hm
    obtain ⟨rfl, rfl⟩ := twoBars_devs hp
    have himpl : implemented (twoBarsDev.piBar i).type = true := by simp [implemented, hm]
    rcases twoBars_bar himpl with rfl | rfl
    · exact List.mem_cons_self ..
    · exact List.mem_cons_of_mem _ (List.mem_cons_self ..)
  · intro a ha
    cases ha
  · intro p i b hL hbio
    exact absurd hbio (hio p i b hL)
  · intro p i j b c hb _ hbio
    exact absurd hbio (hio p i b hb)
  · intro p pi hp
    rw [(twoBars_devs hp).2]
    decide

/-- The guest moves the first BAR to a free address. -/
theorem bar_decode_after_move :
    let fiDevi : Nat → Nat → Nat → Option Nat := fun _ _ _ => some 1
    let move : CfgWrite := ⟨0, 0, 0, 0x10, 4, 0xd0000000⟩
    ∃ s, pciCfgrw fiDevi twoBars move = .ok s ∧ (s.devs 1).map (fun pi => (pi.piBar 0).addr) =
        some 0xd0000000 ∧ Decoded s := by
  intro fiDevi move
  have hclear : Clear fiDevi twoBars move := by
    intro p pi _ hdev _ _
    obtain ⟨rfl, rfl⟩ := twoBars_devs hdev
    refine ⟨fun _ _ _ _ _ _ => ⟨fun hio => absurd hio (twoBars_no_io _), fun _ mr hmr => ?_⟩,
      fun _ hcmd => absurd hcmd (by decide)⟩
    have hmr' : mr = memEntry 1 0 (twoBarsDev.piBar 0) ∨
        mr = memEntry 1 1 (twoBarsDev.piBar 1) := by
      simpa [twoBars] using hmr
    rcases hmr' with rfl | rfl
    · exact .inl (by decide)
    · refine .inr fun a ha => ?_
      have haddr : (newBar twoBarsDev ((move.coff - pcirBar 0) / 4) move.eax.toNat).addr =
          0xd0000000 := by decide +kernel
      have hlow := ha.1
      rw [haddr] at hlow
      show decide (0xc0002000 ≤ a ∧ a < 0xc0002000 + 0x2000) = false
      simp only [decide_eq_false_iff_not]
      omega
  have hrun : ((pciCfgrw fiDevi twoBars move).toOption.bind fun s =>
      (s.devs 1).map fun pi => (pi.piBar 0).addr) = some 0xd0000000 := by decide +kernel
  cases hok : pciCfgrw fiDevi twoBars move with
  | error e => simp [hok, Except.toOption] at hrun
  | ok s =>
    have hr : ((system fiDevi).restrict (Clear fiDevi)).Reachable s :=
      .step (.init initialised_twoBars) ⟨hclear, hok⟩
    simp only [hok, Except.toOption, Option.bind_some] at hrun
    exact ⟨s, rfl, hrun, (bar_decode_of_clear fiDevi s hr).1⟩

/-- The guest moves the first BAR into the second: the registration is dropped in silence, and
when memory decoding is switched off an assertion fails. -/
theorem bar_overlap_drops_and_aborts :
    let fiDevi : Nat → Nat → Nat → Option Nat := fun _ _ _ => some 1
    let move : CfgWrite := ⟨0, 0, 0, 0x10, 4, 0xc0003000⟩
    let off : CfgWrite := ⟨0, 0, 0, 0x04, 2, 0⟩
    Initialised twoBars ∧
    ∃ s, pciCfgrw fiDevi twoBars move = .ok s ∧ ¬ Decoded s ∧
      pciCfgrw fiDevi s off = .error .registration := by
  intro fiDevi move off
  refine ⟨initialised_twoBars, ?_⟩
  have hmove : ((pciCfgrw fiDevi twoBars move).toOption.bind fun s =>
      (s.devs 1).map fun pi => (memen pi, pi.piBar 0, s.mem)) =
      some (true, ⟨.mem32, 0x1000, 0xc0003000⟩, [memEntry 1 1 (twoBarsDev.piBar 1)]) := by
    decide +kernel
  have hoff : ((pciCfgrw fiDevi twoBars move).toOption.map fun s =>
      match pciCfgrw fiDevi s off with
      | .error e => some e
      | .ok _ => none) = some (some .registration) := by
    decide +kernel
  cases hok : pciCfgrw fiDevi twoBars move with
  | error e => simp [hok, Except.toOption] at hmove
  | ok s =>
    simp only [hok, Except.toOption, Option.bind_some, Option.map_some, Option.some.injEq]
      at hmove hoff
    refine ⟨s, rfl, fun hdec => ?_, ?_⟩
    · obtain ⟨pi, hp, hfields⟩ := Option.map_eq_some_iff.mp hmove
      simp only [Prod.mk.injEq] at hfields
      obtain ⟨hon, hbar, hmem⟩ := hfields
      have hreg := hdec.mem 1 pi 0 hp (by decide) (by rw [hbar]; rfl)
      rw [hon, hmem, hbar] at hreg
      exact absurd hreg (by decide)
    · cases hs : pciCfgrw fiDevi s off with
      | error e =>
        rw [hs] at hoff
        cases hoff
        rfl
      | ok t =>
        rw [hs] at hoff
        cases hoff

end Xhyve.Emul.Pci
