import Xhyve.Virtio.GuestRam

/-!
# What a request reaches

The accesses of one `vq_getchain`: the descriptors it reads, as an index into a table, the buffers it
records and the indirect tables it follows. Reading a descriptor that is not listed changes nothing of
the result, and the recorded buffers are the entries handed to the device.
-/

namespace Xhyve.Virtio

/-- One access of the walk. -/
inductive Access
  /-- `&table[index]` of a table of `size` descriptors is read. -/
  | read (table index size : Nat)
  /-- The buffer of a descriptor becomes an iovec entry. -/
  | record (vd : VirtioDesc)
  /-- The buffer of a descriptor is taken for an indirect table. -/
  | follow (vd : VirtioDesc)
deriving DecidableEq, Repr

variable (g : GuestMem) (a : ChainArgs)

def recorded (i : Nat) (vd : VirtioDesc) : List Access := if i ≥ a.nIov then [] else [.record vd]

/-- The accesses of `indirectChain`. -/
def indirectAccesses (vindir nIndir : Nat) : Nat → Nat → Nat → List Access
  | 0, _, _ => []
  | fuel + 1, i, next =>
    let vp := g.descAt (descSlot vindir next)
    .read vindir next nIndir ::
      if vp.vdFlags &&& vringDescFIndirect ≠ 0 then []
      else
        recorded a i vp ++
          if i + 1 > vqMaxDescriptors then []
          else if vp.vdFlags &&& vringDescFNext = 0 then []
          else if vp.vdNext.toNat ≥ nIndir then []
          else indirectAccesses vindir nIndir fuel (i + 1) vp.vdNext.toNat

/-- The accesses of `directDesc`. -/
def descAccesses (vdir : VirtioDesc) (i : Nat) : List Access :=
  if vdir.vdFlags &&& vringDescFIndirect = 0 then recorded a i vdir
  else if a.indirectDesc = false then []
  else
    let nIndir := vdir.vdLen.toNat / 16
    if vdir.vdLen &&& 0xf ≠ 0 ∨ nIndir = 0 then []
    else
      .follow vdir ::
        match g.paddrGuest2host vdir.vdAddr vdir.vdLen with
        | none => []
        | some vindir => indirectAccesses g a vindir nIndir (vqMaxDescriptors + 1 - i) i 0

/-- The accesses of `directChain`. -/
def directAccesses (vq : VqueueInfo) : Nat → Nat → Nat → ChainOut → List Access
  | 0, _, _, _ => []
  | fuel + 1, i, next, out =>
    if i < vqMaxDescriptors then
      if next ≥ vq.vqQsize.toNat then []
      else
        let vdir := g.descAt (descSlot vq.vqDesc next)
        .read vq.vqDesc next vq.vqQsize.toNat :: descAccesses g a vdir i ++
          match directDesc g a vdir i out with
          | (_, .error _) => []
          | (out, .ok i) =>
            if vdir.vdFlags &&& vringDescFNext = 0 then []
            else directAccesses vq fuel i vdir.vdNext.toNat out
    else []

/-- The accesses of `vqGetchain`. -/
def accesses (vq : VqueueInfo) : List Access :=
  let idx := vq.vqLastAvail
  let ndesc := vq.vqAvail.vaIdx - idx
  if ndesc = 0 then []
  else if ndesc > vq.vqQsize then []
  else
    let next := vq.vqAvail.vaRing (idx &&& (vq.vqQsize - 1)).toNat
    directAccesses g a vq vqMaxDescriptors 0 next.toNat ⟨[], []⟩

/-- The iovec entry of a recorded buffer. -/
def entry : Access → Option Iovec
  | .record vd => some ⟨g.paddrGuest2host vd.vdAddr vd.vdLen, vd.vdLen⟩
  | _ => none

/-! ## The recorded buffers are the entries -/

theorem vqRecord_iov (i : Nat) (vd : VirtioDesc) (out : ChainOut) :
    (vqRecord g a i vd out).iov = out.iov ++ (recorded a i vd).filterMap (entry g) := by
  unfold vqRecord recorded
  split
  · rw [List.filterMap_nil, List.append_nil]
  · rfl

theorem indirectChain_iov (vindir nIndir : Nat) (fuel i next : Nat) (out : ChainOut) :
    (indirectChain g a vindir nIndir fuel i next out).1.iov =
      out.iov ++ (indirectAccesses g a vindir nIndir fuel i next).filterMap (entry g) := by
  induction fuel generalizing i next out with
  | zero => simp [indirectChain, indirectAccesses]
  | succ fuel ih =>
    unfold indirectChain indirectAccesses
    simp only
    rw [List.filterMap_cons_none rfl]
    split
    · rw [List.filterMap_nil, List.append_nil]
    · rw [List.filterMap_append, ← List.append_assoc, ← vqRecord_iov]
      split
      · rw [List.filterMap_nil, List.append_nil]
      · split
        · rw [List.filterMap_nil, List.append_nil]
        · split
          · rw [List.filterMap_nil, List.append_nil]
          · exact ih _ _ _

theorem directDesc_iov (vdir : VirtioDesc) (i : Nat) (out : ChainOut) :
    (directDesc g a vdir i out).1.iov =
      out.iov ++ (descAccesses g a vdir i).filterMap (entry g) := by
  unfold directDesc descAccesses
  split
  · exact vqRecord_iov g a i vdir out
  · split
    · rw [List.filterMap_nil, List.append_nil]
    · simp only
      split
      · rw [List.filterMap_nil, List.append_nil]
      · rw [List.filterMap_cons_none rfl]
        cases g.paddrGuest2host vdir.vdAddr vdir.vdLen with
        | none => exact (List.append_nil _).symm
        | some vindir => exact indirectChain_iov g a _ _ _ _ _ _

theorem directChain_iov (vq : VqueueInfo) (fuel i next : Nat) (out : ChainOut) :
    (directChain g a vq fuel i next out).1.iov =
      out.iov ++ (directAccesses g a vq fuel i next out).filterMap (entry g) := by
  induction fuel generalizing i next out with
  | zero => simp [directChain, directAccesses]
  | succ fuel ih =>
    unfold directChain directAccesses
    split
    · split
      · rw [List.filterMap_nil, List.append_nil]
      · simp only
        have hdesc := directDesc_iov g a (g.descAt (descSlot vq.vqDesc next)) i out
        rw [List.cons_append, List.filterMap_cons_none rfl, List.filterMap_append,
          ← List.append_assoc, ← hdesc]
        split
        · rename_i heq
          rw [heq, List.filterMap_nil, List.append_nil]
        · rename_i heq
          rw [heq]
          split
          · rw [List.filterMap_nil, List.append_nil]
          · exact ih _ _ _
    · rw [List.filterMap_nil, List.append_nil]

theorem getchain_iov (vq : VqueueInfo) :
    (vqGetchain g a vq).out.iov = (accesses g a vq).filterMap (entry g) := by
  unfold vqGetchain accesses
  simp only
  split
  · rfl
  · split
    · rfl
    · exact directChain_iov g a vq _ _ _ _

/-! ## No descriptor is read that is not listed -/

section Reads
variable {g a} {descAt : Nat → VirtioDesc}

/-- The memory has the same descriptors wherever the accesses read one. -/
def AgreeOn (g : GuestMem) (descAt : Nat → VirtioDesc) (l : List Access) : Prop :=
  ∀ table index size, .read table index size ∈ l →
    descAt (descSlot table index) = g.descAt (descSlot table index)

theorem AgreeOn.head {table index size : Nat} {l : List Access}
    (h : AgreeOn g descAt (.read table index size :: l)) :
    descAt (descSlot table index) = g.descAt (descSlot table index) :=
  h _ _ _ List.mem_cons_self

theorem AgreeOn.mono {l m : List Access} (h : AgreeOn g descAt m) (hl : ∀ x ∈ l, x ∈ m) :
    AgreeOn g descAt l :=
  fun _ _ _ hx => h _ _ _ (hl _ hx)

theorem indirectChain_congr {vindir nIndir fuel i next : Nat} {out : ChainOut}
    (h : AgreeOn g descAt (indirectAccesses g a vindir nIndir fuel i next)) :
    indirectChain { g with descAt := descAt } a vindir nIndir fuel i next out =
      indirectChain g a vindir nIndir fuel i next out := by
  induction fuel generalizing i next out with
  | zero => rfl
  | succ fuel ih =>
    unfold indirectAccesses at h
    unfold indirectChain
    simp only at h ⊢
    rw [h.head]
    split
    · rfl
    · rename_i hind
      rw [if_neg hind] at h
      split
      · rfl
      · rename_i hmax
        split
        · rfl
        · rename_i hnext
          split
          · rfl
          · rename_i hlt
            rw [if_neg hmax, if_neg hnext, if_neg hlt] at h
            exact ih (h.mono fun x hx =>
              List.mem_cons_of_mem _ (List.mem_append_right _ hx))

theorem directDesc_congr {vdir : VirtioDesc} {i : Nat} {out : ChainOut}
    (h : AgreeOn g descAt (descAccesses g a vdir i)) :
    directDesc { g with descAt := descAt } a vdir i out = directDesc g a vdir i out := by
  unfold descAccesses at h
  unfold directDesc
  split
  · rfl
  · rename_i hind
    split
    · rfl
    · rename_i hcap
      simp only
      split
      · rfl
      · rename_i hlen
        simp only at h
        rw [if_neg hind, if_neg hcap, if_neg hlen] at h
        cases hmap : g.paddrGuest2host vdir.vdAddr vdir.vdLen with
        | none => rfl
        | some vindir =>
          rw [hmap] at h
          exact indirectChain_congr (h.mono fun x hx => List.mem_cons_of_mem _ hx)

theorem directChain_congr {vq : VqueueInfo} {fuel i next : Nat} {out : ChainOut}
    (h : AgreeOn g descAt (directAccesses g a vq fuel i next out)) :
    directChain { g with descAt := descAt } a vq fuel i next out =
      directChain g a vq fuel i next out := by
  induction fuel generalizing i next out with
  | zero => rfl
  | succ fuel ih =>
    unfold directAccesses at h
    unfold directChain
    split
    · rename_i hmax
      split
      · rfl
      · rename_i hlt
        rw [if_pos hmax, if_neg hlt] at h
        simp only at h ⊢
        rw [h.head, directDesc_congr (h.mono fun x hx =>
          List.mem_cons_of_mem _ (List.mem_append_left _ hx))]
        split
        · rfl
        · rename_i heq
          split
          · rfl
          · rename_i hnext
            rw [heq] at h
            simp only [if_neg hnext] at h
            exact ih (h.mono fun x hx => List.mem_cons_of_mem _ (List.mem_append_right _ hx))
    · rfl

/-- What is stored anywhere but in the listed descriptors has no part in the result. -/
theorem getchain_congr {vq : VqueueInfo} (h : AgreeOn g descAt (accesses g a vq)) :
    vqGetchain { g with descAt := descAt } a vq = vqGetchain g a vq := by
  unfold accesses at h
  unfold vqGetchain
  simp only at h ⊢
  split
  · rfl
  · rename_i hne
    split
    · rfl
    · rename_i hle
      rw [if_neg hne, if_neg hle] at h
      rw [directChain_congr h]

end Reads

/-! ## Every read is of a table, inside it -/

section Tables
variable {g a}

theorem mem_recorded {x : Access} {i : Nat} {vd : VirtioDesc} (h : x ∈ recorded a i vd) :
    x = .record vd := by
  unfold recorded at h
  split at h
  · cases h
  · exact List.mem_singleton.mp h

theorem indirect_reads {vindir nIndir fuel i next : Nat} (hnext : next < nIndir) {x : Access}
    (h : x ∈ indirectAccesses g a vindir nIndir fuel i next) :
    (∃ index < nIndir, x = .read vindir index nIndir) ∨ ∃ vd, x = .record vd := by
  induction fuel generalizing i next with
  | zero => cases h
  | succ fuel ih =>
    unfold indirectAccesses at h
    simp only at h
    rcases List.mem_cons.mp h with rfl | h
    · exact Or.inl ⟨next, hnext, rfl⟩
    · split at h
      · cases h
      · rcases List.mem_append.mp h with h | h
        · exact Or.inr ⟨_, mem_recorded h⟩
        · split at h
          · cases h
          · split at h
            · cases h
            · split at h
              · cases h
              · rename_i hlt
                exact ih (Nat.lt_of_not_le hlt) h

/-- What an access of one direct descriptor can be. -/
theorem desc_accesses {vdir : VirtioDesc} {i : Nat} {x : Access} (h : x ∈ descAccesses g a vdir i) :
    (∃ vd, x = .record vd) ∨ x = .follow vdir ∨
      (.follow vdir ∈ descAccesses g a vdir i ∧ ∃ vindir index size,
        x = .read vindir index size ∧ index < size ∧ 16 * size ≤ vdir.vdLen.toNat ∧
          g.paddrGuest2host vdir.vdAddr vdir.vdLen = some vindir) := by
  unfold descAccesses at h ⊢
  split at h
  · exact Or.inl ⟨vdir, mem_recorded h⟩
  · rename_i hind
    split at h
    · cases h
    · rename_i hcap
      simp only at h
      split at h
      · cases h
      · rename_i hlen
        rw [if_neg hind, if_neg hcap]
        simp only
        rw [if_neg hlen]
        rcases List.mem_cons.mp h with rfl | h
        · exact Or.inr (Or.inl rfl)
        · cases hmap : g.paddrGuest2host vdir.vdAddr vdir.vdLen with
          | none =>
            rw [hmap] at h
            cases h
          | some vindir =>
            rw [hmap] at h
            have hpos : 0 < vdir.vdLen.toNat / 16 := by
              by_contra hno
              exact hlen (Or.inr (Nat.eq_zero_of_not_pos hno))
            rcases indirect_reads hpos h with ⟨index, hlt, rfl⟩ | hrec
            · refine Or.inr (Or.inr ⟨List.mem_cons_self, vindir, index, _, rfl, hlt, ?_, rfl⟩)
              exact Nat.mul_div_le _ _
            · exact Or.inl hrec

theorem direct_reads {vq : VqueueInfo} {fuel i next : Nat} {out : ChainOut}
    {table index size : Nat} (h : .read table index size ∈ directAccesses g a vq fuel i next out) :
    index < size ∧ (table = vq.vqDesc ∧ size = vq.vqQsize.toNat ∨
      ∃ vd, .follow vd ∈ directAccesses g a vq fuel i next out ∧ 16 * size ≤ vd.vdLen.toNat ∧
        g.paddrGuest2host vd.vdAddr vd.vdLen = some table) := by
  induction fuel generalizing i next out with
  | zero => cases h
  | succ fuel ih =>
    unfold directAccesses at h ⊢
    split at h
    · rename_i hmax
      split at h
      · cases h
      · rename_i hlt
        rw [if_pos hmax, if_neg hlt]
        simp only at h ⊢
        rcases List.mem_cons.mp h with heq | h
        · cases heq
          exact ⟨Nat.lt_of_not_le hlt, Or.inl ⟨rfl, rfl⟩⟩
        · rcases List.mem_append.mp h with h | h
          · rcases desc_accesses h with ⟨vd, heq⟩ | heq | ⟨hmem, vindir, k, n, heq, hk, hn, hmap⟩
            · cases heq
            · cases heq
            · cases heq
              exact ⟨hk, Or.inr ⟨_, List.mem_cons_of_mem _ (List.mem_append_left _ hmem), hn, hmap⟩⟩
          · split at h
            · cases h
            · rename_i heq
              split at h
              · cases h
              · rename_i hnext
                obtain ⟨hk, htable | ⟨vd, hmem, hn, hmap⟩⟩ := ih h
                · exact ⟨hk, Or.inl htable⟩
                · refine ⟨hk, Or.inr ⟨vd, ?_, hn, hmap⟩⟩
                  rw [if_neg hnext]
                  exact List.mem_cons_of_mem _ (List.mem_append_right _ hmem)
    · cases h

/-- Every index is checked against its table before it is used. -/
theorem accesses_reads {vq : VqueueInfo} {table index size : Nat}
    (h : .read table index size ∈ accesses g a vq) :
    index < size ∧ (table = vq.vqDesc ∧ size = vq.vqQsize.toNat ∨
      ∃ vd, .follow vd ∈ accesses g a vq ∧ 16 * size ≤ vd.vdLen.toNat ∧
        g.paddrGuest2host vd.vdAddr vd.vdLen = some table) := by
  unfold accesses at h ⊢
  simp only at h ⊢
  split at h
  · cases h
  · rename_i hne
    split at h
    · cases h
    · rename_i hle
      rw [if_neg hne, if_neg hle]
      exact direct_reads h

/-! ## An indirect table outside guest memory is dereferenced -/

/-- Some table that is followed is not mapped. -/
def Unmapped (g : GuestMem) (l : List Access) : Prop :=
  ∃ vd, .follow vd ∈ l ∧ g.paddrGuest2host vd.vdAddr vd.vdLen = none

theorem not_unmapped_nil : ¬ Unmapped g [] := by
  intro h
  obtain ⟨_, hmem, _⟩ := h
  cases hmem

theorem unmapped_read_append {table index size : Nat} {l m : List Access} :
    Unmapped g (.read table index size :: l ++ m) ↔ Unmapped g l ∨ Unmapped g m := by
  unfold Unmapped
  simp only [List.cons_append, List.mem_cons, List.mem_append, reduceCtorEq, false_or]
  constructor
  · intro h
    obtain ⟨vd, hmem | hmem, hmap⟩ := h
    · exact Or.inl ⟨vd, hmem, hmap⟩
    · exact Or.inr ⟨vd, hmem, hmap⟩
  · intro h
    rcases h with ⟨vd, hmem, hmap⟩ | ⟨vd, hmem, hmap⟩
    · exact ⟨vd, Or.inl hmem, hmap⟩
    · exact ⟨vd, Or.inr hmem, hmap⟩

theorem indirectChain_noFault (vindir nIndir fuel i next : Nat) (out : ChainOut) :
    (indirectChain g a vindir nIndir fuel i next out).2 ≠ .error .fault := by
  induction fuel generalizing i next out with
  | zero => exact fun h => by cases h
  | succ fuel ih =>
    unfold indirectChain
    simp only
    split
    · exact fun h => by cases h
    · split
      · exact fun h => by cases h
      · split
        · exact fun h => by cases h
        · split
          · exact fun h => by cases h
          · exact ih _ _ _

theorem not_unmapped_of_records {l : List Access} (h : ∀ vd, .follow vd ∉ l) : ¬ Unmapped g l := by
  intro hun
  obtain ⟨vd, hmem, _⟩ := hun
  exact h vd hmem

theorem directDesc_fault_iff (vdir : VirtioDesc) (i : Nat) (out : ChainOut) :
    (directDesc g a vdir i out).2 = .error .fault ↔ Unmapped g (descAccesses g a vdir i) := by
  unfold directDesc descAccesses
  split
  · refine iff_of_false (fun h => by cases h) (not_unmapped_of_records fun vd hmem => ?_)
    cases mem_recorded hmem
  · split
    · exact iff_of_false (fun h => by cases h) not_unmapped_nil
    · simp only
      split
      · exact iff_of_false (fun h => by cases h) not_unmapped_nil
      · rename_i hlen
        cases hmap : g.paddrGuest2host vdir.vdAddr vdir.vdLen with
        | none => exact iff_of_true rfl ⟨vdir, List.mem_cons_self, hmap⟩
        | some vindir =>
          refine iff_of_false (indirectChain_noFault _ _ _ _ _ _) fun h => ?_
          obtain ⟨vd, hmem, hnone⟩ := h
          rcases List.mem_cons.mp hmem with heq | hmem
          · cases heq
            rw [hmap] at hnone
            cases hnone
          · have hpos : 0 < vdir.vdLen.toNat / 16 := by
              by_contra hno
              exact hlen (Or.inr (Nat.eq_zero_of_not_pos hno))
            rcases indirect_reads hpos hmem with ⟨_, _, heq⟩ | ⟨_, heq⟩
            · cases heq
            · cases heq

theorem directChain_fault_iff (vq : VqueueInfo) (fuel i next : Nat) (out : ChainOut) :
    (directChain g a vq fuel i next out).2 = .error .fault ↔
      Unmapped g (directAccesses g a vq fuel i next out) := by
  induction fuel generalizing i next out with
  | zero => exact iff_of_false (fun h => by cases h) not_unmapped_nil
  | succ fuel ih =>
    unfold directChain directAccesses
    split
    · split
      · exact iff_of_false (fun h => by cases h) not_unmapped_nil
      · simp only
        have hdesc := directDesc_fault_iff (g := g) (a := a) (g.descAt (descSlot vq.vqDesc next)) i out
        rw [unmapped_read_append]
        generalize directDesc g a (g.descAt (descSlot vq.vqDesc next)) i out = r at hdesc ⊢
        obtain ⟨out, ret⟩ := r
        cases ret with
        | error e =>
          simp only [not_unmapped_nil, or_false]
          exact hdesc
        | ok n =>
          have hno : ¬ Unmapped g (descAccesses g a (g.descAt (descSlot vq.vqDesc next)) i) :=
            fun h => by cases hdesc.mpr h
          simp only [hno, false_or]
          split
          · exact iff_of_false (fun h => by cases h) not_unmapped_nil
          · exact ih _ _ _
    · exact iff_of_false (fun h => by cases h) not_unmapped_nil

theorem getchain_fault_iff (vq : VqueueInfo) :
    (vqGetchain g a vq).ret = .error .fault ↔ Unmapped g (accesses g a vq) := by
  unfold vqGetchain accesses
  simp only
  split
  · exact iff_of_false (fun h => by cases h) not_unmapped_nil
  · split
    · exact iff_of_false (fun h => by cases h) not_unmapped_nil
    · exact directChain_fault_iff vq _ _ _ _

end Tables

/-! ## Containment -/

/-- What a call sees of guest memory, through `xh_vm_map_gpa`. -/
def ramMem (ram : GuestRam) (descAt : Nat → VirtioDesc) : GuestMem :=
  ⟨fun addr len => xhVmMapGpa ram addr.toNat len.toNat, descAt⟩

/-- One call stays inside guest memory: it dereferences no unmapped table, every entry it hands over and
every descriptor it reads lies there, and no index goes past its table or ring. -/
structure ChainContained (ram : GuestRam) (g : GuestMem) (a : ChainArgs) (vq : VqueueInfo) : Prop where
  noFault : (vqGetchain g a vq).ret ≠ .error .fault
  entries : ∀ e ∈ (vqGetchain g a vq).out.iov,
    ∃ p, e.iovBase = some p ∧ InRam ram p e.iovLen.toNat
  reads : ∀ table index size, .read table index size ∈ accesses g a vq →
    index < size ∧ InRam ram (descSlot table index) 16
  head : (vqGetchain g a vq).pidx.isSome = true →
    (vq.vqLastAvail &&& (vq.vqQsize - 1)).toNat < vq.vqQsize.toNat

theorem mask_lt {x q : UInt16} (hq : q ≠ 0) : (x &&& (q - 1)).toNat < q.toNat := by
  have hpos : 0 < q.toNat := by
    rw [Nat.pos_iff_ne_zero]
    exact fun h => hq (UInt16.toNat_inj.mp h)
  have hle : (x &&& (q - 1)).toNat ≤ (q - 1).toNat := by
    rw [UInt16.toNat_and]
    exact Nat.and_le_right
  have hsub : (q - 1).toNat = q.toNat - 1 := UInt16.toNat_sub_of_le _ _ hpos
  omega

/-- A head is only looked up in a ring that has room for one. -/
theorem getchain_head {g : GuestMem} {a : ChainArgs} {vq : VqueueInfo}
    (h : (vqGetchain g a vq).pidx.isSome = true) :
    (vq.vqLastAvail &&& (vq.vqQsize - 1)).toNat < vq.vqQsize.toNat := by
  apply mask_lt
  intro hzero
  unfold vqGetchain at h
  simp only at h
  split at h
  · cases h
  · rename_i hne
    split at h
    · cases h
    · rename_i hle
      rw [hzero] at hle
      have hnonneg : vq.vqAvail.vaIdx - vq.vqLastAvail = 0 :=
        UInt16.le_antisymm (UInt16.not_lt.mp hle) (UInt16.zero_le)
      exact hne hnonneg

theorem descLen_le (vd : VirtioDesc) : vd.vdLen.toNat ≤ 2 ^ 32 := Nat.le_of_lt vd.vdLen.toNat_lt

/-- For every content of the rings and descriptors: the queue's rings and a call's accesses stay inside
guest memory exactly when the range of the rings does and so does the range of every descriptor that
the call records or follows. -/
theorem queue_contained_iff (ram : GuestRam) (descAt : Nat → VirtioDesc) (a : ChainArgs)
    (vq : VqueueInfo) (pfn : UInt32) :
    (RingsContained ram vq.vqQsize.toNat (viVqInit ram vq.vqQsize pfn) ∧
      ChainContained ram (ramMem ram descAt) a
        { vq with vqDesc := (viVqInit ram vq.vqQsize pfn).vqDesc }) ↔
    (InGuestRam ram (pfn.toNat <<< 12) (vringSize vq.vqQsize.toNat) ∧
      ∀ vd, .record vd ∈ accesses (ramMem ram descAt) a
            { vq with vqDesc := (viVqInit ram vq.vqQsize pfn).vqDesc } ∨
          .follow vd ∈ accesses (ramMem ram descAt) a
            { vq with vqDesc := (viVqInit ram vq.vqQsize pfn).vqDesc } →
        InGuestRam ram vd.vdAddr.toNat vd.vdLen.toNat) := by
  rw [ringsContained_iff]
  refine and_congr_right fun hring => ?_
  have hdesc := (ringsContained_iff vq.vqQsize pfn).mpr hring
  generalize hq : ({ vq with vqDesc := (viVqInit ram vq.vqQsize pfn).vqDesc } : VqueueInfo) = q
  have htable : InRam ram q.vqDesc (16 * q.vqQsize.toNat) := by
    rw [← hq]
    exact hdesc.desc
  constructor
  · intro h vd hmem
    -- a buffer outside is an entry with no address, a table outside a fault
    cases hmap : xhVmMapGpa ram vd.vdAddr.toNat vd.vdLen.toNat with
    | some p => exact (mapGpa_spec (descLen_le vd) hmap).1
    | none =>
      exfalso
      rcases hmem with hrec | hfol
      · have hentry : (⟨none, vd.vdLen⟩ : Iovec) ∈ (vqGetchain (ramMem ram descAt) a q).out.iov := by
          rw [getchain_iov, List.mem_filterMap]
          refine ⟨_, hrec, ?_⟩
          rw [entry, ← hmap]
          rfl
        obtain ⟨p, hp, _⟩ := h.entries _ hentry
        cases hp
      · exact h.noFault ((getchain_fault_iff q).mpr ⟨vd, hfol, hmap⟩)
  · intro h
    have hmapped : ∀ vd, .record vd ∈ accesses (ramMem ram descAt) a q ∨
        .follow vd ∈ accesses (ramMem ram descAt) a q →
        ∃ p, xhVmMapGpa ram vd.vdAddr.toNat vd.vdLen.toNat = some p ∧
          InRam ram p vd.vdLen.toNat := by
      intro vd hmem
      obtain ⟨p, hp⟩ := mapGpa_isSome (descLen_le vd) (h vd hmem)
      exact ⟨p, hp, (mapGpa_spec (descLen_le vd) hp).2.1⟩
    refine ⟨fun hfault => ?_, fun e he => ?_, fun table index size hread => ?_, getchain_head⟩
    · obtain ⟨vd, hmem, hnone⟩ := (getchain_fault_iff q).mp hfault
      obtain ⟨p, hp, _⟩ := hmapped vd (Or.inr hmem)
      have hnone' : xhVmMapGpa ram vd.vdAddr.toNat vd.vdLen.toNat = none := hnone
      rw [hp] at hnone'
      cases hnone'
    · rw [getchain_iov, List.mem_filterMap] at he
      obtain ⟨x, hx, hentry⟩ := he
      cases x with
      | read table index size => cases hentry
      | follow vd => cases hentry
      | record vd =>
        obtain rfl := Option.some.inj hentry
        obtain ⟨p, hp, hin⟩ := hmapped vd (Or.inl hx)
        exact ⟨p, hp, hin⟩
    · obtain ⟨hlt, htab⟩ := accesses_reads hread
      refine ⟨hlt, ?_⟩
      unfold descSlot
      rcases htab with ⟨rfl, rfl⟩ | ⟨vd, hmem, hsize, hmap⟩
      · exact htable.mono (by omega) (by omega)
      · obtain ⟨p, hp, hin⟩ := hmapped vd (Or.inr hmem)
        have hp' : xhVmMapGpa ram vd.vdAddr.toNat vd.vdLen.toNat = some table := hmap
        obtain rfl := Option.some.inj (hp.symm.trans hp')
        exact hin.mono (by omega) (by omega)

/-- One mebibyte of guest memory. -/
def smallRam : GuestRam where
  lowmem := 0x100000
  highmem := 0
  lowmemAddr := 0x10000000
  highmemAddr := 0
  lowmem_lt := by decide
  highmem_lt := by decide
  lowmemAddr_aligned := by decide
  highmemAddr_aligned := by decide
  lowmemAddr_pos _ := by decide
  highmemAddr_pos h := h

/-- A queue of eight with one request available, whose rings are in page 1. -/
def smallQueue : VqueueInfo where
  vqQsize := 8
  vqFlags := vqAlloc
  vqLastAvail := 0
  vqDesc := (viVqInit smallRam 8 1).vqDesc
  vqAvail := ⟨1, fun _ => 0⟩
  vqUsed := ⟨0, fun _ => ⟨0, 0⟩⟩

def fourEntries : ChainArgs := ⟨"vtblk", true, 4, false⟩

/-- Nothing is reported for rings outside guest memory, whose pointers count from NULL; nor for a buffer
outside, which becomes an entry without an address; and a table outside is dereferenced. -/
theorem queue_not_contained :
    ¬ RingsContained smallRam 8 (viVqInit smallRam 8 0xfffff) ∧
    (vqGetchain (ramMem smallRam fun _ => ⟨0x40000000, 512, 0, 0⟩) fourEntries smallQueue).ret.toOption =
      some 1 ∧
    (vqGetchain (ramMem smallRam fun _ => ⟨0x40000000, 512, 0, 0⟩) fourEntries smallQueue).out.iov =
      [⟨none, 512⟩] ∧
    (vqGetchain (ramMem smallRam fun _ => ⟨0x40000000, 512, vringDescFIndirect, 0⟩) fourEntries
      smallQueue).ret = .error .fault := by
  refine ⟨fun h => ?_, by decide, by decide, rfl⟩
  have hnull : (viVqInit smallRam 8 0xfffff).vqDesc = 0 := by decide
  have hdesc := h.desc
  rw [hnull] at hdesc
  exact not_inRam_null (by decide) hdesc

end Xhyve.Virtio
