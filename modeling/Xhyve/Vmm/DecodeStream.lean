import Xhyve.Vmm.Decode

/-!
# The decoder reads a stream

Every phase of the decoder only looks at bytes it then consumes, so what it does on a
buffer it also does on a longer one, and it never runs past the end. A buffer that ends
inside the instruction a longer buffer holds therefore does not decode.
-/

namespace Xhyve.Vmm.Decode

open Lib

/-- The same buffer with more bytes fetched. -/
def Vie.more (v : Vie) (ys : List UInt8) : Vie := { v with inst := v.inst ++ ys }

/-- A phase that stays inside the buffer and does the same when it is longer. -/
structure Streams (f : Vie → Option Vie) : Prop where
  inst : ∀ {v w}, f v = some w → w.inst = v.inst
  bound : ∀ {v w}, f v = some w → v.numProcessed ≤ v.inst.length → w.numProcessed ≤ v.inst.length
  more : ∀ {v w}, f v = some w → ∀ ys, f (v.more ys) = some (w.more ys)

theorem Streams.bind {f g : Vie → Option Vie} (hf : Streams f) (hg : Streams g) :
    Streams fun v => (f v).bind g where
  inst h := by
    obtain ⟨u, hu, hw⟩ := Option.bind_eq_some_iff.mp h
    rw [hg.inst hw, hf.inst hu]
  bound h hb := by
    obtain ⟨u, hu, hw⟩ := Option.bind_eq_some_iff.mp h
    have hbu := hf.bound hu hb
    rw [← hf.inst hu] at hbu ⊢
    exact hg.bound hw hbu
  more h ys := by
    obtain ⟨u, hu, hw⟩ := Option.bind_eq_some_iff.mp h
    rw [hf.more hu ys, Option.bind_some, hg.more hw ys]

theorem viePeek_more {v : Vie} {x : UInt8} (h : viePeek v = some x) (ys : List UInt8) :
    viePeek (v.more ys) = some x := by
  obtain ⟨hlt, -⟩ := List.getElem?_eq_some_iff.mp h
  rw [viePeek, Vie.more, List.getElem?_append_left hlt]
  exact h

theorem lt_of_viePeek {v : Vie} {x : UInt8} (h : viePeek v = some x) :
    v.numProcessed < v.inst.length :=
  (List.getElem?_eq_some_iff.mp h).1

/-- A change of decoded fields that neither reads nor moves along the buffer. -/
structure FieldsOnly (f : Vie → Vie) : Prop where
  inst : ∀ v, (f v).inst = v.inst
  numProcessed : ∀ v, (f v).numProcessed = v.numProcessed
  more : ∀ v ys, f (v.more ys) = (f v).more ys

/-- A phase that reads one byte and moves past it. -/
theorem Streams.byte {f : Vie → Option Vie} (g : UInt8 → Vie → Option Vie)
    (hf : ∀ v, f v = (viePeek v).bind fun x => g x v)
    (hg : ∀ x v w, g x v = some w → w.inst = v.inst ∧ w.numProcessed = v.numProcessed + 1 ∧
      ∀ ys, g x (v.more ys) = some (w.more ys)) : Streams f := by
  have hsome : ∀ {v w}, f v = some w → ∃ x, viePeek v = some x ∧ g x v = some w :=
    fun h => Option.bind_eq_some_iff.mp (hf _ ▸ h)
  refine ⟨fun h => ?_, fun h _ => ?_, fun h ys => ?_⟩
  · obtain ⟨x, -, hw⟩ := hsome h
    exact (hg x _ _ hw).1
  · obtain ⟨x, hx, hw⟩ := hsome h
    rw [(hg x _ _ hw).2.1]
    exact lt_of_viePeek hx
  · obtain ⟨x, hx, hw⟩ := hsome h
    rw [hf, viePeek_more hx ys, Option.bind_some]
    exact (hg x _ _ hw).2.2 ys

/-- A phase that some decoded fields switch off. -/
theorem Streams.skip {f : Vie → Option Vie} {P : Vie → Prop} [DecidablePred P]
    (hP : ∀ v ys, P (v.more ys) ↔ P v) (hf : Streams f) :
    Streams fun v => if P v then some v else f v := by
  refine ⟨fun {v w} h => ?_, fun {v w} h hb => ?_, fun {v w} h ys => ?_⟩
  · by_cases hp : P v
    · rw [if_pos hp] at h
      rw [Option.some.inj h]
    · rw [if_neg hp] at h
      exact hf.inst h
  · by_cases hp : P v
    · rw [if_pos hp] at h
      rwa [← Option.some.inj h]
    · rw [if_neg hp] at h
      exact hf.bound h hb
  · by_cases hp : P v
    · rw [if_pos hp] at h
      rw [if_pos ((hP v ys).mpr hp), Option.some.inj h]
    · rw [if_neg hp] at h
      rw [if_neg fun hm => hp ((hP v ys).mp hm), hf.more h ys]

theorem applyPrefix_more (x : UInt8) (v : Vie) (ys : List UInt8) :
    applyPrefix x (v.more ys) = (applyPrefix x v).map (·.more ys) := by
  unfold applyPrefix
  split_ifs
  · rfl
  · rfl
  · rfl
  · rfl
  · cases segmentOverride x <;> rfl

theorem applyPrefix_cursor {x : UInt8} {v w : Vie} (h : applyPrefix x v = some w) :
    w.inst = v.inst ∧ w.numProcessed = v.numProcessed := by
  unfold applyPrefix at h
  split_ifs at h
  · obtain rfl := Option.some.inj h
    exact ⟨rfl, rfl⟩
  · obtain rfl := Option.some.inj h
    exact ⟨rfl, rfl⟩
  · obtain rfl := Option.some.inj h
    exact ⟨rfl, rfl⟩
  · obtain rfl := Option.some.inj h
    exact ⟨rfl, rfl⟩
  · cases hs : segmentOverride x with
    | none => simp [hs] at h
    | some seg =>
      simp only [hs, Option.some.injEq] at h
      subst h
      exact ⟨rfl, rfl⟩

/-- The prefix loop ends at a byte it has looked at but not consumed. -/
theorem prefixLoop_streams {fuel : Nat} {v w : Vie} {x : UInt8}
    (h : prefixLoop fuel v = some (x, w)) :
    w.inst = v.inst ∧ viePeek w = some x ∧
      ∀ ys, prefixLoop fuel (v.more ys) = some (x, w.more ys) := by
  induction fuel generalizing v with
  | zero => simp [prefixLoop] at h
  | succ fuel ih =>
    rw [prefixLoop] at h
    cases hp : viePeek v with
    | none => simp [hp] at h
    | some y =>
      simp only [hp] at h
      cases ha : applyPrefix y v with
      | none =>
        simp only [ha, Option.some.injEq, Prod.mk.injEq] at h
        obtain ⟨rfl, rfl⟩ := h
        refine ⟨rfl, hp, fun ys => ?_⟩
        simp only [prefixLoop, viePeek_more hp ys, applyPrefix_more, ha, Option.map_none]
      | some u =>
        simp only [ha] at h
        obtain ⟨hi, hx, hm⟩ := ih h
        refine ⟨hi.trans (applyPrefix_cursor ha).1, hx, fun ys => ?_⟩
        simp only [prefixLoop, viePeek_more hp ys, applyPrefix_more, ha, Option.map_some]
        exact hm ys

theorem decodeSizes_fields (mode : CpuMode) (csD : Bool) : FieldsOnly (decodeSizes mode csD) := by
  unfold decodeSizes
  by_cases hm : mode = .mode64
  · simp only [if_pos hm]
    exact ⟨fun _ => rfl, fun _ => rfl, fun _ _ => rfl⟩
  · by_cases hd : csD = true
    · simp only [if_neg hm, if_pos hd]
      exact ⟨fun _ => rfl, fun _ => rfl, fun _ _ => rfl⟩
    · simp only [if_neg hm, if_neg hd]
      exact ⟨fun _ => rfl, fun _ => rfl, fun _ _ => rfl⟩

theorem decodeRex_more (mode : CpuMode) (x : UInt8) (v : Vie) (ys : List UInt8) :
    decodeRex mode x (v.more ys) = (decodeRex mode x v).more ys := by
  unfold decodeRex
  split <;> rfl

theorem decodeRex_cursor (mode : CpuMode) (x : UInt8) (v : Vie) :
    (decodeRex mode x v).inst = v.inst ∧
      (decodeRex mode x v).numProcessed ≤ v.numProcessed + 1 := by
  unfold decodeRex
  split
  · exact ⟨rfl, le_rfl⟩
  · exact ⟨rfl, Nat.le_succ _⟩

theorem decodePrefixes_streams (mode : CpuMode) (csD : Bool) :
    Streams (decodePrefixes mode csD) := by
  have hsome : ∀ {v w}, decodePrefixes mode csD v = some w → ∃ x u,
      prefixLoop (vieInstSize + 1) v = some (x, u) ∧ decodeSizes mode csD (decodeRex mode x u) = w := by
    intro v w h
    obtain ⟨⟨x, u⟩, hu, hw⟩ := Option.map_eq_some_iff.mp h
    exact ⟨x, u, hu, hw⟩
  have hsizes := decodeSizes_fields mode csD
  refine ⟨fun h => ?_, fun h _ => ?_, fun h ys => ?_⟩
  · obtain ⟨x, u, hu, rfl⟩ := hsome h
    rw [hsizes.inst, (decodeRex_cursor mode x u).1, (prefixLoop_streams hu).1]
  · obtain ⟨x, u, hu, rfl⟩ := hsome h
    obtain ⟨hi, hx, -⟩ := prefixLoop_streams hu
    have hlt := lt_of_viePeek hx
    rw [hsizes.numProcessed]
    rw [hi] at hlt
    exact (decodeRex_cursor mode x u).2.trans hlt
  · obtain ⟨x, u, hu, rfl⟩ := hsome h
    rw [decodePrefixes, (prefixLoop_streams hu).2.2 ys, Option.map_some]
    simp only [decodeRex_more, hsizes.more]

theorem decodeTwoByteOpcode_streams : Streams decodeTwoByteOpcode := by
  refine Streams.byte (fun x v =>
    if (twoByteOpcodes x).opType = .none then none
    else some (vieAdvance { v with op := twoByteOpcodes x })) (fun v => ?_) fun x v w h => ?_
  · unfold decodeTwoByteOpcode
    cases viePeek v <;> rfl
  · obtain ⟨hne, ⟨⟩⟩ := Option.ite_none_left_eq_some.mp h
    exact ⟨rfl, rfl, fun ys => if_neg hne⟩

/-- The first opcode byte alone. -/
def opcodeByte (v : Vie) : Option Vie :=
  (viePeek v).bind fun x =>
    if (oneByteOpcodes x).opType = .none then none
    else some (vieAdvance { v with op := oneByteOpcodes x })

theorem opcodeByte_streams : Streams opcodeByte := by
  refine Streams.byte (fun x v =>
    if (oneByteOpcodes x).opType = .none then none
    else some (vieAdvance { v with op := oneByteOpcodes x })) (fun _ => rfl) fun x v w h => ?_
  obtain ⟨hne, ⟨⟩⟩ := Option.ite_none_left_eq_some.mp h
  exact ⟨rfl, rfl, fun ys => if_neg hne⟩

/-- The second opcode byte, where the first announces one. -/
def escapedByte (v : Vie) : Option Vie :=
  if v.op.opType ≠ .twoByte then some v else decodeTwoByteOpcode v

theorem escapedByte_streams : Streams escapedByte :=
  Streams.skip (fun _ _ => Iff.rfl) decodeTwoByteOpcode_streams

theorem decodeOpcode_eq : decodeOpcode = fun v => (opcodeByte v).bind escapedByte := by
  funext v
  unfold decodeOpcode opcodeByte
  cases viePeek v with
  | none => rfl
  | some x =>
    simp only [Option.bind_some]
    split_ifs <;> simp_all [escapedByte, vieAdvance]

theorem decodeOpcode_streams : Streams decodeOpcode := by
  rw [decodeOpcode_eq]
  exact opcodeByte_streams.bind escapedByte_streams

/-- The ModRM byte of an opcode that has one. -/
def modrmByte (mode : CpuMode) (x : UInt8) (v : Vie) : Option Vie :=
  if mode = .real then none
  else if (modrmFields x v).mod = 3 then none
  else if (modrmFields x v).rm = 4 then some (vieAdvance (modrmFields x v))
  else some (vieAdvance (modrmAddress mode (modrmFields x v)))

theorem decodeModrm_eq (mode : CpuMode) : decodeModrm mode = fun v =>
    if v.op.opFlags.noModrm = true then some v else (viePeek v).bind fun x => modrmByte mode x v := by
  funext v
  unfold decodeModrm modrmByte
  cases viePeek v <;> simp

theorem modrmByte_streams (mode : CpuMode) :
    Streams fun v => (viePeek v).bind fun x => modrmByte mode x v := by
  refine Streams.byte (modrmByte mode) (fun _ => rfl) fun x v w h => ?_
  have hmod : ∀ ys, (modrmFields x (v.more ys)).mod = (modrmFields x v).mod := fun _ => rfl
  have hrm : ∀ ys, (modrmFields x (v.more ys)).rm = (modrmFields x v).rm := fun _ => rfl
  unfold modrmByte at h ⊢
  simp only [hmod, hrm]
  split_ifs at h with h1 h2 h3
  · obtain rfl := Option.some.inj h
    refine ⟨rfl, rfl, fun ys => ?_⟩
    rw [if_neg h1, if_neg h2, if_pos h3]
    rfl
  · obtain rfl := Option.some.inj h
    refine ⟨rfl, rfl, fun ys => ?_⟩
    rw [if_neg h1, if_neg h2, if_neg h3]
    rfl

theorem decodeModrm_streams (mode : CpuMode) : Streams (decodeModrm mode) := by
  rw [decodeModrm_eq]
  exact Streams.skip (fun _ _ => Iff.rfl) (modrmByte_streams mode)

theorem decodeSib_eq : decodeSib = fun v => if v.mod = 3 ∨ v.rm ≠ 4 then some v
    else (viePeek v).bind fun x => some (vieAdvance (sibAddress (sibFields x v))) := by
  funext v
  unfold decodeSib
  cases viePeek v <;> rfl

theorem decodeSib_streams : Streams decodeSib := by
  rw [decodeSib_eq]
  refine Streams.skip (fun _ _ => Iff.rfl) (Streams.byte
    (fun x v => some (vieAdvance (sibAddress (sibFields x v)))) (fun _ => rfl) fun x v w h => ?_)
  obtain rfl := Option.some.inj h
  exact ⟨rfl, rfl, fun _ => rfl⟩

theorem takeBytes_streams {n : Nat} {v w : Vie} {bs : List UInt8}
    (h : takeBytes n v = some (bs, w)) :
    w = { v with numProcessed := v.numProcessed + n } ∧
    (v.numProcessed ≤ v.inst.length → v.numProcessed + n ≤ v.inst.length) ∧
    ∀ ys, takeBytes n (v.more ys) = some (bs, w.more ys) := by
  induction n generalizing v w bs with
  | zero =>
    obtain ⟨rfl, rfl⟩ := Prod.mk.inj (Option.some.inj h)
    exact ⟨rfl, fun hb => hb, fun _ => rfl⟩
  | succ n ih =>
    rw [takeBytes] at h
    cases hp : viePeek v with
    | none => simp [hp] at h
    | some x =>
      simp only [hp] at h
      obtain ⟨⟨xs, u⟩, hu, hw⟩ := Option.map_eq_some_iff.mp h
      obtain ⟨rfl, rfl⟩ := Prod.mk.inj hw
      obtain ⟨rfl, hb, hm⟩ := ih hu
      have hlt := lt_of_viePeek hp
      refine ⟨?_, fun _ => ?_, fun ys => ?_⟩
      · simp only [vieAdvance, Nat.add_assoc, Nat.add_comm 1 n]
      · have := hb (by simpa [vieAdvance] using hlt)
        simp only [vieAdvance] at this
        omega
      · rw [takeBytes, viePeek_more hp ys]
        exact congrArg (Option.map _) (hm ys)

/-- A phase that reads a field of a size decoded before and stores it. -/
theorem Streams.field (size : Vie → Nat) (store : List UInt8 → Vie → Vie)
    (hsize : ∀ v ys, size (v.more ys) = size v) (hstore : ∀ bs, FieldsOnly (store bs)) :
    Streams fun v => (takeBytes (size v) v).map fun (bs, v) => store bs v := by
  have hsome : ∀ {v w}, ((takeBytes (size v) v).map fun (bs, v) => store bs v) = some w →
      ∃ bs u, takeBytes (size v) v = some (bs, u) ∧ store bs u = w := by
    intro v w h
    obtain ⟨⟨bs, u⟩, hu, hw⟩ := Option.map_eq_some_iff.mp h
    exact ⟨bs, u, hu, hw⟩
  refine ⟨fun {v w} h => ?_, fun {v w} h hb => ?_, fun {v w} h ys => ?_⟩
  · obtain ⟨bs, u, hu, rfl⟩ := hsome h
    rw [(hstore bs).inst, (takeBytes_streams hu).1]
  · obtain ⟨bs, u, hu, rfl⟩ := hsome h
    rw [(hstore bs).numProcessed, (takeBytes_streams hu).1]
    exact (takeBytes_streams hu).2.1 hb
  · obtain ⟨bs, u, hu, rfl⟩ := hsome h
    rw [hsize, (takeBytes_streams hu).2.2 ys, Option.map_some]
    exact congrArg some ((hstore bs).more u ys)

theorem decodeDisplacement_streams : Streams decodeDisplacement :=
  Streams.skip (fun _ _ => Iff.rfl) (Streams.field Vie.dispBytes
    (fun bs v => { v with displacement := LittleEndian.toInt bs }) (fun _ _ => rfl)
    fun _ => ⟨fun _ => rfl, fun _ => rfl, fun _ _ => rfl⟩)

theorem decodeImmediate_eq : decodeImmediate = fun v =>
    (some { v with immBytes := immediateSize v }).bind fun v =>
      if v.immBytes = 0 then some v
      else (takeBytes v.immBytes v).map fun (bs, v) =>
        { v with immediate := LittleEndian.toInt bs } := rfl

theorem decodeImmediate_streams : Streams decodeImmediate := by
  rw [decodeImmediate_eq]
  refine Streams.bind ⟨fun h => ?_, fun h hb => ?_, fun h ys => ?_⟩
    (Streams.skip (fun _ _ => Iff.rfl) (Streams.field Vie.immBytes
      (fun bs v => { v with immediate := LittleEndian.toInt bs }) (fun _ _ => rfl)
      fun _ => ⟨fun _ => rfl, fun _ => rfl, fun _ _ => rfl⟩))
  · obtain rfl := Option.some.inj h
    rfl
  · obtain rfl := Option.some.inj h
    exact hb
  · obtain rfl := Option.some.inj h
    rfl

theorem decodeMoffset_streams : Streams decodeMoffset := by
  have hstore : ∀ bs, FieldsOnly fun v =>
      { v with displacement := asInt64 (LittleEndian.toNat bs) } := by
    intro bs
    generalize asInt64 (LittleEndian.toNat bs) = d
    exact ⟨fun _ => rfl, fun _ => rfl, fun _ _ => rfl⟩
  exact Streams.skip (fun _ _ => Iff.rfl)
    (Streams.field Vie.addrsize _ (fun _ _ => rfl) hstore)

theorem decodeFields_streams (mode : CpuMode) (csD : Bool) : Streams (decodeFields mode csD) :=
  ((((((decodePrefixes_streams mode csD).bind decodeOpcode_streams).bind
    (decodeModrm_streams mode)).bind decodeSib_streams).bind
    decodeDisplacement_streams).bind decodeImmediate_streams).bind decodeMoffset_streams

/-- A buffer cut short of the length a longer one decodes to does not decode. -/
theorem decodeFields_strict_prefix {mode : CpuMode} {csD : Bool} {xs ys : List UInt8} {w : Vie}
    (h : decodeFields mode csD (vieInit (xs ++ ys)) = some w) (hlt : xs.length < w.numProcessed) :
    decodeFields mode csD (vieInit xs) = none := by
  by_contra hne
  obtain ⟨u, hu⟩ := Option.ne_none_iff_exists'.mp hne
  have hstream := decodeFields_streams mode csD
  have hmore := hstream.more hu ys
  have hw : u.more ys = w := Option.some.inj (hmore.symm.trans h)
  have hb : u.numProcessed ≤ xs.length := hstream.bound hu (Nat.zero_le _)
  have hn : u.numProcessed = w.numProcessed := by
    rw [← hw]
    rfl
  omega

end Xhyve.Vmm.Decode
