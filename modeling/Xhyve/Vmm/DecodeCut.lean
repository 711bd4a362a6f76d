import Xhyve.Vmm.DecodeStream

/-!
# The decoder reads no further than it gets

Cutting the buffer behind the instruction changes nothing of what is decoded. Only the prefix loop
looks at a byte it leaves, and that byte is the opcode.
-/

namespace Xhyve.Vmm.Decode

open Lib

/-- The same buffer with only its first `n` bytes fetched. -/
def Vie.cut (v : Vie) (n : Nat) : Vie := { v with inst := v.inst.take n }

/-- A phase that never needs a byte behind the place where it stops. -/
structure Cuts (f : Vie → Option Vie) : Prop where
  mono : ∀ {v w}, f v = some w → v.numProcessed ≤ w.numProcessed
  cut : ∀ {v w}, f v = some w → ∀ n, w.numProcessed ≤ n → f (v.cut n) = some (w.cut n)

theorem Cuts.bind {f g : Vie → Option Vie} (hf : Cuts f) (hg : Cuts g) :
    Cuts fun v => (f v).bind g where
  mono h := by
    obtain ⟨u, hu, hw⟩ := Option.bind_eq_some_iff.mp h
    exact (hf.mono hu).trans (hg.mono hw)
  cut h n hn := by
    obtain ⟨u, hu, hw⟩ := Option.bind_eq_some_iff.mp h
    rw [hf.cut hu n ((hg.mono hw).trans hn), Option.bind_some, hg.cut hw n hn]

theorem viePeek_cut {v : Vie} {n : Nat} (h : v.numProcessed < n) :
    viePeek (v.cut n) = viePeek v := by
  unfold viePeek Vie.cut
  exact List.getElem?_take_of_lt h

theorem Cuts.byte {f : Vie → Option Vie} (g : UInt8 → Vie → Option Vie)
    (hf : ∀ v, f v = (viePeek v).bind fun x => g x v)
    (hg : ∀ x v w, g x v = some w → w.numProcessed = v.numProcessed + 1 ∧
      ∀ n, g x (v.cut n) = some (w.cut n)) : Cuts f := by
  have hsome : ∀ {v w}, f v = some w → ∃ x, viePeek v = some x ∧ g x v = some w :=
    fun h => Option.bind_eq_some_iff.mp (hf _ ▸ h)
  refine ⟨fun h => ?_, fun h n hn => ?_⟩
  · obtain ⟨x, -, hw⟩ := hsome h
    rw [(hg x _ _ hw).1]
    exact Nat.le_succ _
  · obtain ⟨x, hx, hw⟩ := hsome h
    rw [(hg x _ _ hw).1] at hn
    rw [hf, viePeek_cut hn, hx, Option.bind_some]
    exact (hg x _ _ hw).2 n

theorem Cuts.skip {f : Vie → Option Vie} {P : Vie → Prop} [DecidablePred P]
    (hP : ∀ v n, P (v.cut n) ↔ P v) (hf : Cuts f) :
    Cuts fun v => if P v then some v else f v := by
  refine ⟨fun {v w} h => ?_, fun {v w} h n hn => ?_⟩
  · by_cases hp : P v
    · rw [if_pos hp] at h
      rw [Option.some.inj h]
    · rw [if_neg hp] at h
      exact hf.mono h
  · by_cases hp : P v
    · rw [if_pos hp] at h
      rw [if_pos ((hP v n).mpr hp), Option.some.inj h]
    · rw [if_neg hp] at h
      rw [if_neg fun hm => hp ((hP v n).mp hm), hf.cut h n hn]

theorem takeBytes_cut {size n : Nat} {v w : Vie} {bs : List UInt8}
    (h : takeBytes size v = some (bs, w)) (hn : v.numProcessed + size ≤ n) :
    takeBytes size (v.cut n) = some (bs, w.cut n) := by
  induction size generalizing v bs with
  | zero =>
    obtain ⟨rfl, rfl⟩ := Prod.mk.inj (Option.some.inj h)
    rfl
  | succ size ih =>
    rw [takeBytes] at h ⊢
    rw [viePeek_cut (by omega)]
    cases hp : viePeek v with
    | none => simp [hp] at h
    | some x =>
      simp only [hp] at h ⊢
      obtain ⟨⟨xs, u⟩, hu, hw⟩ := Option.map_eq_some_iff.mp h
      obtain ⟨rfl, rfl⟩ := Prod.mk.inj hw
      have hrest : takeBytes size ((vieAdvance v).cut n) = some (xs, u.cut n) :=
        ih hu (by simp only [vieAdvance]; omega)
      exact congrArg (Option.map _) hrest

theorem Cuts.field (size : Vie → Nat) (store : List UInt8 → Vie → Vie)
    (hsize : ∀ v n, size (v.cut n) = size v)
    (hnum : ∀ bs v, (store bs v).numProcessed = v.numProcessed)
    (hstore : ∀ bs v n, store bs (v.cut n) = (store bs v).cut n) :
    Cuts fun v => (takeBytes (size v) v).map fun (bs, v) => store bs v := by
  have hsome : ∀ {v w}, ((takeBytes (size v) v).map fun (bs, v) => store bs v) = some w →
      ∃ bs u, takeBytes (size v) v = some (bs, u) ∧ store bs u = w := by
    intro v w h
    obtain ⟨⟨bs, u⟩, hu, hw⟩ := Option.map_eq_some_iff.mp h
    exact ⟨bs, u, hu, hw⟩
  refine ⟨fun {v w} h => ?_, fun {v w} h n hn => ?_⟩
  · obtain ⟨bs, u, hu, rfl⟩ := hsome h
    rw [hnum, (takeBytes_streams hu).1]
    exact Nat.le_add_right _ _
  · obtain ⟨bs, u, hu, rfl⟩ := hsome h
    rw [hnum, (takeBytes_streams hu).1] at hn
    rw [hsize, takeBytes_cut hu hn, Option.map_some]
    exact congrArg some (hstore bs u n)

/-! ## Prefixes and opcode -/

theorem applyPrefix_cut (x : UInt8) (v : Vie) (n : Nat) :
    applyPrefix x (v.cut n) = (applyPrefix x v).map (·.cut n) := by
  unfold applyPrefix
  split_ifs
  · rfl
  · rfl
  · rfl
  · rfl
  · cases segmentOverride x <;> rfl

/-- The prefix loop needs the byte it stops at, and none behind it. -/
theorem prefixLoop_cut {fuel n : Nat} {v w : Vie} {x : UInt8}
    (h : prefixLoop fuel v = some (x, w)) :
    v.numProcessed ≤ w.numProcessed ∧
      (w.numProcessed < n → prefixLoop fuel (v.cut n) = some (x, w.cut n)) := by
  induction fuel generalizing v with
  | zero => simp [prefixLoop] at h
  | succ fuel ih =>
    rw [prefixLoop] at h
    cases hp : viePeek v with
    | none => simp [hp] at h
    | some y =>
      simp only [hp] at h
      cases ha : applyPrefix y v with
      | none =>
        simp only [ha, Option.some.injEq, Prod.mk.injEq] at h
        obtain ⟨rfl, rfl⟩ := h
        refine ⟨le_rfl, fun hn => ?_⟩
        rw [prefixLoop, viePeek_cut hn, hp]
        simp only [applyPrefix_cut, ha, Option.map_none]
      | some u =>
        simp only [ha] at h
        obtain ⟨hle, hcut⟩ := ih h
        have hu : u.numProcessed = v.numProcessed := (applyPrefix_cursor ha).2
        have hadv : v.numProcessed + 1 ≤ w.numProcessed := by
          simpa only [vieAdvance, hu] using hle
        refine ⟨by omega, fun hn => ?_⟩
        rw [prefixLoop, viePeek_cut (by omega), hp]
        simp only [applyPrefix_cut, ha, Option.map_some]
        exact hcut hn

theorem decodeSizes_cut (mode : CpuMode) (csD : Bool) (v : Vie) (n : Nat) :
    decodeSizes mode csD (v.cut n) = (decodeSizes mode csD v).cut n := by
  unfold decodeSizes
  by_cases hm : mode = .mode64
  · rw [if_pos hm, if_pos hm]
    rfl
  · rw [if_neg hm, if_neg hm]
    by_cases hd : csD = true
    · rw [if_pos hd, if_pos hd]
      rfl
    · rw [if_neg hd, if_neg hd]
      rfl

theorem decodeRex_cut (mode : CpuMode) (x : UInt8) (v : Vie) (n : Nat) :
    decodeRex mode x (v.cut n) = (decodeRex mode x v).cut n := by
  unfold decodeRex
  split <;> rfl

theorem le_decodeRex (mode : CpuMode) (x : UInt8) (v : Vie) :
    v.numProcessed ≤ (decodeRex mode x v).numProcessed := by
  unfold decodeRex
  split
  · exact Nat.le_succ _
  · exact le_rfl

theorem opcodeByte_cuts : Cuts opcodeByte := by
  refine Cuts.byte (fun x v =>
    if (oneByteOpcodes x).opType = .none then none
    else some (vieAdvance { v with op := oneByteOpcodes x })) (fun _ => rfl) fun x v w h => ?_
  obtain ⟨hne, ⟨⟩⟩ := Option.ite_none_left_eq_some.mp h
  exact ⟨rfl, fun n => if_neg hne⟩

theorem opcodeByte_advances {v w : Vie} (h : opcodeByte v = some w) :
    w.numProcessed = v.numProcessed + 1 := by
  obtain ⟨x, -, hx⟩ := Option.bind_eq_some_iff.mp h
  obtain ⟨-, ⟨⟩⟩ := Option.ite_none_left_eq_some.mp hx
  rfl

/-- The byte the prefix loop looked at is consumed by the opcode. -/
theorem prefixesOpcode_cuts (mode : CpuMode) (csD : Bool) :
    Cuts fun v => (decodePrefixes mode csD v).bind opcodeByte := by
  have hsome : ∀ {v w}, ((decodePrefixes mode csD v).bind opcodeByte) = some w → ∃ x u,
      prefixLoop (vieInstSize + 1) v = some (x, u) ∧
        opcodeByte (decodeSizes mode csD (decodeRex mode x u)) = some w := by
    intro v w h
    obtain ⟨t, ht, hw⟩ := Option.bind_eq_some_iff.mp h
    obtain ⟨⟨x, u⟩, hu, rfl⟩ := Option.map_eq_some_iff.mp ht
    exact ⟨x, u, hu, hw⟩
  have hbehind : ∀ {x u w}, opcodeByte (decodeSizes mode csD (decodeRex mode x u)) = some w →
      u.numProcessed < w.numProcessed := by
    intro x u w hw
    have hle := le_decodeRex mode x u
    rw [opcodeByte_advances hw, (decodeSizes_fields mode csD).numProcessed]
    omega
  refine ⟨fun {v w} h => ?_, fun {v w} h n hn => ?_⟩
  · obtain ⟨x, u, hu, hw⟩ := hsome h
    have hle := (prefixLoop_cut (n := 0) hu).1
    have hlt := hbehind hw
    omega
  · obtain ⟨x, u, hu, hw⟩ := hsome h
    have hlt := hbehind hw
    rw [decodePrefixes, (prefixLoop_cut hu).2 (by omega), Option.map_some, Option.bind_some]
    simp only [decodeRex_cut, decodeSizes_cut]
    exact opcodeByte_cuts.cut hw n hn

theorem decodeTwoByteOpcode_cuts : Cuts decodeTwoByteOpcode := by
  refine Cuts.byte (fun x v =>
    if (twoByteOpcodes x).opType = .none then none
    else some (vieAdvance { v with op := twoByteOpcodes x })) (fun v => ?_) fun x v w h => ?_
  · unfold decodeTwoByteOpcode
    cases viePeek v <;> rfl
  · obtain ⟨hne, ⟨⟩⟩ := Option.ite_none_left_eq_some.mp h
    exact ⟨rfl, fun n => if_neg hne⟩

theorem escapedByte_cuts : Cuts escapedByte :=
  Cuts.skip (fun _ _ => Iff.rfl) decodeTwoByteOpcode_cuts

/-! ## Address, displacement, immediate -/

theorem decodeModrm_cuts (mode : CpuMode) : Cuts (decodeModrm mode) := by
  rw [decodeModrm_eq]
  refine Cuts.skip (fun _ _ => Iff.rfl) (Cuts.byte (modrmByte mode) (fun _ => rfl) fun x v w h => ?_)
  have hmod : ∀ n, (modrmFields x (v.cut n)).mod = (modrmFields x v).mod := fun _ => rfl
  have hrm : ∀ n, (modrmFields x (v.cut n)).rm = (modrmFields x v).rm := fun _ => rfl
  unfold modrmByte at h ⊢
  simp only [hmod, hrm]
  split_ifs at h with h1 h2 h3
  · obtain rfl := Option.some.inj h
    refine ⟨rfl, fun n => ?_⟩
    rw [if_neg h1, if_neg h2, if_pos h3]
    rfl
  · obtain rfl := Option.some.inj h
    refine ⟨rfl, fun n => ?_⟩
    rw [if_neg h1, if_neg h2, if_neg h3]
    rfl

theorem decodeSib_cuts : Cuts decodeSib := by
  rw [decodeSib_eq]
  refine Cuts.skip (fun _ _ => Iff.rfl) (Cuts.byte
    (fun x v => some (vieAdvance (sibAddress (sibFields x v)))) (fun _ => rfl) fun x v w h => ?_)
  obtain rfl := Option.some.inj h
  exact ⟨rfl, fun _ => rfl⟩

theorem decodeDisplacement_cuts : Cuts decodeDisplacement :=
  Cuts.skip (fun _ _ => Iff.rfl) (Cuts.field Vie.dispBytes
    (fun bs v => { v with displacement := LittleEndian.toInt bs }) (fun _ _ => rfl)
    (fun _ _ => rfl) fun _ _ _ => rfl)

theorem decodeImmediate_cuts : Cuts decodeImmediate := by
  rw [decodeImmediate_eq]
  refine Cuts.bind ⟨fun h => ?_, fun h n _ => ?_⟩
    (Cuts.skip (fun _ _ => Iff.rfl) (Cuts.field Vie.immBytes
      (fun bs v => { v with immediate := LittleEndian.toInt bs }) (fun _ _ => rfl)
      (fun _ _ => rfl) fun _ _ _ => rfl))
  · obtain rfl := Option.some.inj h
    exact le_rfl
  · obtain rfl := Option.some.inj h
    rfl

theorem decodeMoffset_cuts : Cuts decodeMoffset := by
  have hnum : ∀ bs (v : Vie),
      { v with displacement := asInt64 (LittleEndian.toNat bs) }.numProcessed = v.numProcessed :=
    fun _ _ => rfl
  have hstore : ∀ bs (v : Vie) n,
      { v.cut n with displacement := asInt64 (LittleEndian.toNat bs) } =
        { v with displacement := asInt64 (LittleEndian.toNat bs) }.cut n := by
    intro bs v n
    generalize asInt64 (LittleEndian.toNat bs) = d
    rfl
  exact Cuts.skip (fun _ _ => Iff.rfl) (Cuts.field Vie.addrsize _ (fun _ _ => rfl) hnum hstore)

theorem decodeFields_cuts (mode : CpuMode) (csD : Bool) : Cuts (decodeFields mode csD) := by
  have hphases : decodeFields mode csD = fun v =>
      (((((((decodePrefixes mode csD v).bind opcodeByte).bind escapedByte).bind
        (decodeModrm mode)).bind decodeSib).bind decodeDisplacement).bind decodeImmediate).bind
        decodeMoffset := by
    funext v
    rw [decodeFields, decodeOpcode_eq]
    simp only [Option.bind_assoc]
  rw [hphases]
  exact ((((((prefixesOpcode_cuts mode csD).bind escapedByte_cuts).bind
    (decodeModrm_cuts mode)).bind decodeSib_cuts).bind decodeDisplacement_cuts).bind
    decodeImmediate_cuts).bind decodeMoffset_cuts

/-- What is decoded is an instruction with nothing behind it exactly when none of its proper prefixes
decodes. -/
theorem decodeFields_whole_iff {mode : CpuMode} {csD : Bool} {inst : List UInt8} {w : Vie}
    (h : decodeFields mode csD (vieInit inst) = some w) :
    w.numProcessed = inst.length ↔
      ∀ k < inst.length, decodeFields mode csD (vieInit (inst.take k)) = none := by
  have hbound : w.numProcessed ≤ inst.length :=
    (decodeFields_streams mode csD).bound h (Nat.zero_le _)
  constructor
  · intro hwhole k hk
    rw [← List.take_append_drop k inst] at h
    apply decodeFields_strict_prefix h
    rw [List.length_take]
    omega
  · intro hnone
    by_contra hne
    have hcut := (decodeFields_cuts mode csD).cut h w.numProcessed le_rfl
    have hno := hnone w.numProcessed (by omega)
    exact Option.some_ne_none _ (hcut.symm.trans hno)

end Xhyve.Vmm.Decode
