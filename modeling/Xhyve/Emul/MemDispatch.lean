import Xhyve.Emul.Mem

/-!
# Dispatch refines plain look-up

The registry without trees, pointers or cache is two lists of ranges, searched from the
front. The code's registry simulates it: the trees hold the listed ranges in order, every
node is live memory, and a cached pointer names a node of the root tree. The last fact is
what `unregister_mem` restores by flushing the cache, and it is enough, because only
look-ups in the root tree fill the cache.
-/

namespace Xhyve.Emul.Mem

open Xhyve.Lib

def MemRange.contains (mr : MemRange) (paddr : Nat) : Bool :=
  mr.base ≤ paddr ∧ paddr < mr.base + mr.size

def MemRange.overlaps (mr mr' : MemRange) : Bool :=
  mr.base < mr'.base + mr'.size ∧ mr'.base < mr.base + mr.size

/-- The installed ranges. -/
structure Plain where
  root : List MemRange
  fallback : List MemRange
deriving DecidableEq, Repr

namespace Plain

def register (l : List MemRange) (memp : MemRange) : Errno × List MemRange :=
  if l.any (·.contains memp.base) then (.ok, l)
  else if l.any (·.overlaps memp) then (.eexist, l)
  else (.ok, memp :: l)

def unregister (l : List MemRange) (memp : MemRange) : Option (Errno × List MemRange) :=
  match l.find? (·.contains memp.base) with
  | none => some (.enoent, l)
  | some mr => if unregisterAsserts mr memp then some (.ok, l.erase mr) else none

/-- The root range that contains the address, else the fallback range that does. -/
def lookup (P : Plain) (paddr : Nat) : Option MemRange :=
  (P.root.find? (·.contains paddr)).or (P.fallback.find? (·.contains paddr))

def step (P : Plain) : Op → Option (Errno × Plain)
  | .registerMem none _ | .registerMemFallback none _ => some (.enomem, P)
  | .registerMem (some _) memp =>
    let r := register P.root memp
    some (r.1, { P with root := r.2 })
  | .registerMemFallback (some _) memp =>
    let r := register P.fallback memp
    some (r.1, { P with fallback := r.2 })
  | .unregisterMem memp => (unregister P.root memp).map fun r => (r.1, { P with root := r.2 })
  | .emulateMem _ paddr => some (if (P.lookup paddr).isSome then .ok else .esrch, P)
  | .emulateReturn _ => some (.ok, P)

end Plain

/-! ## One tree and its list -/

/-- A node holds the bounds of its parameter block. -/
structure Node (e : MmioRbRange) : Prop where
  base : e.mrBase = e.mrParam.base
  limit : e.mrEnd + 1 = e.mrParam.base + e.mrParam.size
  pos : 0 < e.mrParam.size

/-- The tree holds the listed ranges, in address order. -/
structure Holds (t : SearchTree MmioRbRange) (l : List MemRange) : Prop where
  node : ∀ e ∈ t.toList, Node e
  sorted : t.toList.Pairwise fun a b => a.mrEnd < b.mrBase
  perm : (t.toList.map MmioRbRange.mrParam).Perm l

section Tree
variable {t : SearchTree MmioRbRange} {l : List MemRange} {e : MmioRbRange} {base limit : Nat}

theorem Node.base_le (h : Node e) : e.mrBase ≤ e.mrEnd := by
  have := h.base
  have := h.limit
  have := h.pos
  omega

theorem compare_eq_iff : mmioRbRangeCompare base limit e = .eq ↔
    e.mrBase ≤ limit ∧ base ≤ e.mrEnd := by
  unfold mmioRbRangeCompare
  split_ifs <;> simp <;> omega

theorem compare_lt_iff : mmioRbRangeCompare base limit e = .lt ↔ limit < e.mrBase := by
  unfold mmioRbRangeCompare
  split_ifs <;> simp <;> omega

theorem compare_gt_iff (hle : base ≤ limit) (he : Node e) :
    mmioRbRangeCompare base limit e = .gt ↔ e.mrEnd < base := by
  have := he.base_le
  unfold mmioRbRangeCompare
  split_ifs <;> simp <;> omega

theorem Holds.separates (h : Holds t l) (hle : base ≤ limit) :
    SearchTree.Separates (mmioRbRangeCompare base limit) t.toList := by
  refine (List.Pairwise.and_mem.mp h.sorted).imp ?_
  rintro a b ⟨ha, hb, hab⟩
  rw [compare_lt_iff, compare_lt_iff, compare_gt_iff hle (h.node b hb),
    compare_gt_iff hle (h.node a ha)]
  have := (h.node a ha).base_le
  have := (h.node b hb).base_le
  omega

theorem Node.contains_iff (h : Node e) (paddr : Nat) :
    e.mrParam.contains paddr = true ↔ e.mrBase ≤ paddr ∧ paddr ≤ e.mrEnd := by
  have := h.base
  have := h.limit
  simp only [MemRange.contains, decide_eq_true_eq]
  omega

theorem Holds.lt_or_lt (h : Holds t l) {a b : MmioRbRange} (ha : a ∈ t.toList)
    (hb : b ∈ t.toList) (hne : a ≠ b) : a.mrEnd < b.mrBase ∨ b.mrEnd < a.mrBase := by
  have : Std.Symm fun a b : MmioRbRange => a.mrEnd < b.mrBase ∨ b.mrEnd < a.mrBase :=
    ⟨fun _ _ => Or.symm⟩
  have hpair : t.toList.Pairwise fun a b => a.mrEnd < b.mrBase ∨ b.mrEnd < a.mrBase :=
    h.sorted.imp Or.inl
  exact hpair.forall ha hb hne

/-- Distinct nodes share no address. -/
theorem Holds.eq_of_contains (h : Holds t l) {a b : MmioRbRange} {paddr : Nat}
    (ha : a ∈ t.toList) (hb : b ∈ t.toList) (hca : a.mrBase ≤ paddr ∧ paddr ≤ a.mrEnd)
    (hcb : b.mrBase ≤ paddr ∧ paddr ≤ b.mrEnd) : a = b := by
  by_contra hne
  have := h.lt_or_lt ha hb hne
  omega

theorem Holds.mem_iff (h : Holds t l) {mr : MemRange} :
    mr ∈ l ↔ ∃ e ∈ t.toList, e.mrParam = mr := by
  rw [← h.perm.mem_iff, List.mem_map]

/-- The listed ranges share no address either. -/
theorem Holds.param_eq_of_contains (h : Holds t l) {mr mr' : MemRange} {paddr : Nat}
    (hmr : mr ∈ l) (hmr' : mr' ∈ l) (hc : mr.contains paddr) (hc' : mr'.contains paddr) :
    mr = mr' := by
  obtain ⟨e, he, rfl⟩ := h.mem_iff.mp hmr
  obtain ⟨e', he', rfl⟩ := h.mem_iff.mp hmr'
  rw [(h.node e he).contains_iff] at hc
  rw [(h.node e' he').contains_iff] at hc'
  rw [h.eq_of_contains he he' hc hc']

/-- The search of the list finds the range of the node that contains the address. -/
theorem Holds.find?_eq (h : Holds t l) {paddr : Nat} (he : e ∈ t.toList)
    (hin : e.mrBase ≤ paddr ∧ paddr ≤ e.mrEnd) :
    l.find? (·.contains paddr) = some e.mrParam := by
  have hmr : e.mrParam ∈ l := h.mem_iff.mpr ⟨e, he, rfl⟩
  have hc : e.mrParam.contains paddr := (h.node e he).contains_iff paddr |>.mpr hin
  cases hl : l.find? (·.contains paddr) with
  | none => exact absurd hc (List.find?_eq_none.mp hl _ hmr)
  | some mr =>
    have hc' : mr.contains paddr := by simpa using List.find?_some hl
    rw [h.param_eq_of_contains (List.mem_of_find?_eq_some hl) hmr hc' hc]

/-- A look-up in the tree is a search of the list. -/
theorem Holds.lookup (h : Holds t l) (paddr : Nat) :
    (mmioRbLookup t paddr).map MmioRbRange.mrParam = l.find? (·.contains paddr) := by
  cases hf : mmioRbLookup t paddr with
  | none =>
    have hnone := SearchTree.find_none (h.separates le_rfl) hf
    symm
    rw [Option.map_none, List.find?_eq_none]
    intro mr hmr
    obtain ⟨e, he, rfl⟩ := h.mem_iff.mp hmr
    rw [(h.node e he).contains_iff, ← compare_eq_iff]
    exact hnone e he
  | some e =>
    obtain ⟨he, heq⟩ := SearchTree.find_some hf
    rw [h.find?_eq he (compare_eq_iff.mp heq), Option.map_some]

theorem lookup_mem {paddr : Nat} (hf : mmioRbLookup t paddr = some e) :
    e ∈ t.toList ∧ e.mrBase ≤ paddr ∧ paddr ≤ e.mrEnd := by
  obtain ⟨he, heq⟩ := SearchTree.find_some hf
  exact ⟨he, compare_eq_iff.mp heq⟩

theorem Holds.any_contains (h : Holds t l) (paddr : Nat) :
    l.any (·.contains paddr) = (mmioRbLookup t paddr).isSome := by
  rw [← Option.isSome_map (f := MmioRbRange.mrParam), h.lookup, Bool.eq_iff_iff]
  simp

theorem node_newNode {p : Nat} {memp : MemRange} (hpos : 0 < memp.size)
    (hwrap : memp.base + memp.size ≤ 2 ^ 64) : Node (newNode p memp) where
  base := rfl
  limit := by
    simp only [newNode]
    omega
  pos := hpos

theorem Node.overlaps_iff {e e' : MmioRbRange} (h : Node e) (h' : Node e') :
    e.mrParam.overlaps e'.mrParam = true ↔ e.mrBase ≤ e'.mrEnd ∧ e'.mrBase ≤ e.mrEnd := by
  have := h.base
  have := h.limit
  have := h'.base
  have := h'.limit
  simp only [MemRange.overlaps, decide_eq_true_eq]
  omega

theorem Holds.any_overlaps (h : Holds t l) (he : Node e) :
    l.any (·.overlaps e.mrParam) = true ↔
      ∃ a ∈ t.toList, mmioRbRangeCompare e.mrBase e.mrEnd a = .eq := by
  rw [List.any_eq_true]
  constructor
  · rintro ⟨mr, hmr, hov⟩
    obtain ⟨a, ha, rfl⟩ := h.mem_iff.mp hmr
    exact ⟨a, ha, compare_eq_iff.mpr (((h.node a ha).overlaps_iff he).mp hov)⟩
  · rintro ⟨a, ha, heq⟩
    exact ⟨_, h.mem_iff.mpr ⟨a, ha, rfl⟩,
      ((h.node a ha).overlaps_iff he).mpr (compare_eq_iff.mp heq)⟩

theorem Holds.disjoint (h : Holds t l) : l.Pairwise fun a b => a.overlaps b = false := by
  have hsymm : ∀ {a b : MemRange}, a.overlaps b = false → b.overlaps a = false := by
    intro a b hab
    simp only [MemRange.overlaps, decide_eq_false_iff_not] at hab ⊢
    tauto
  refine h.perm.pairwise (List.pairwise_map.mpr ?_) hsymm
  refine (List.Pairwise.and_mem.mp h.sorted).imp ?_
  rintro a b ⟨ha, hb, hab⟩
  rw [Bool.eq_false_iff, ne_eq, (h.node a ha).overlaps_iff (h.node b hb)]
  omega

/-- Inserting a node that compares equal with none. -/
theorem Holds.insert (h : Holds t l) (he : Node e) {t' : SearchTree MmioRbRange}
    {l₁ l₂ : List MmioRbRange} (ht : t.toList = l₁ ++ l₂) (ht' : t'.toList = l₁ ++ e :: l₂)
    (hgt : ∀ a ∈ l₁, mmioRbRangeCompare e.mrBase e.mrEnd a = .gt)
    (hlt : ∀ a ∈ l₂, mmioRbRangeCompare e.mrBase e.mrEnd a = .lt) :
    Holds t' (e.mrParam :: l) where
  node := by
    intro a ha
    rw [ht', List.mem_append, List.mem_cons] at ha
    rcases ha with ha | rfl | ha
    · exact h.node a (ht ▸ List.mem_append_left _ ha)
    · exact he
    · exact h.node a (ht ▸ List.mem_append_right _ ha)
  sorted := by
    have hsorted := h.sorted
    rw [ht, List.pairwise_append] at hsorted
    obtain ⟨h₁, h₂, h₁₂⟩ := hsorted
    have hbelow : ∀ a ∈ l₁, a.mrEnd < e.mrBase := fun a ha =>
      (compare_gt_iff he.base_le (h.node a (ht ▸ List.mem_append_left _ ha))).mp (hgt a ha)
    have habove : ∀ a ∈ l₂, e.mrEnd < a.mrBase := fun a ha => compare_lt_iff.mp (hlt a ha)
    rw [ht', List.pairwise_append, List.pairwise_cons]
    refine ⟨h₁, ⟨habove, h₂⟩, fun a ha b hb => ?_⟩
    rcases List.mem_cons.mp hb with rfl | hb
    · exact hbelow a ha
    · exact h₁₂ a ha b hb
  perm := by
    have hperm := h.perm
    rw [ht, List.map_append] at hperm
    rw [ht', List.map_append, List.map_cons]
    exact List.perm_middle.trans (hperm.cons e.mrParam)

/-- The three ways `register_mem_int` can go: the first address is covered, some other
address is, or the range is installed. -/
theorem Holds.registerMemInt_cases (h : Holds t l) (R : SearchTree.Rebalance MmioRbRange)
    (heap : Nat → Option MmioRbRange) (p : Nat) {memp : MemRange} (hpos : 0 < memp.size)
    (hwrap : memp.base + memp.size ≤ 2 ^ 64) :
    (registerMemInt R heap t (some p) memp =
        (.ok, Function.update heap p (some (newNode p memp)), t) ∧
      Plain.register l memp = (.ok, l)) ∨
    (registerMemInt R heap t (some p) memp = (.eexist, Function.update heap p none, t) ∧
      Plain.register l memp = (.eexist, l)) ∨
    ∃ t', registerMemInt R heap t (some p) memp =
        (.ok, Function.update heap p (some (newNode p memp)), t') ∧
      Plain.register l memp = (.ok, memp :: l) ∧ Holds t' (memp :: l) ∧
      ∀ a, a ∈ t'.toList ↔ a = newNode p memp ∨ a ∈ t.toList := by
  have hnew : Node (newNode p memp) := node_newNode hpos hwrap
  have hov := h.any_overlaps hnew
  unfold registerMemInt Plain.register
  rw [h.any_contains]
  cases hf : mmioRbLookup t memp.base with
  | some e => exact .inl ⟨rfl, rfl⟩
  | none =>
    right
    rcases SearchTree.insert_cases (x := newNode p memp) (h.separates hnew.base_le) with
      ⟨a, herr, ha, heq⟩ | ⟨t', l₁, l₂, hok, ht, ht', hgt, hlt⟩
    · left
      have hadd : mmioRbAdd R t (newNode p memp) = (.eexist, t) := by rw [mmioRbAdd, herr]
      have hany : l.any (·.overlaps memp) = true := hov.mpr ⟨a, ha, heq⟩
      simp [hadd, hany]
    · right
      have hadd : mmioRbAdd R t (newNode p memp) = (.ok, R.onInsert t') := by rw [mmioRbAdd, hok]
      have hany : l.any (·.overlaps memp) = false := by
        rw [Bool.eq_false_iff]
        intro hany
        obtain ⟨a, ha, heq⟩ := hov.mp hany
        rw [ht, List.mem_append] at ha
        rcases ha with ha | ha
        · simp [hgt a ha] at heq
        · simp [hlt a ha] at heq
      have hlist : (R.onInsert t').toList = l₁ ++ newNode p memp :: l₂ := by
        rw [R.toList_onInsert, ht']
      refine ⟨R.onInsert t', ?_, by simp [hany], h.insert hnew ht hlist hgt hlt, fun a => ?_⟩
      · simp [hadd]
      · rw [hlist, ht]
        simp only [List.mem_append, List.mem_cons]
        tauto

/-- Removing the node a look-up found. -/
theorem Holds.remove (h : Holds t l) (R : SearchTree.Rebalance MmioRbRange)
    (he : e ∈ t.toList) :
    Holds (R.onRemove (t.remove e)) (l.erase e.mrParam) ∧
    ∀ a, a ∈ (R.onRemove (t.remove e)).toList ↔ a ∈ t.toList ∧ a ≠ e := by
  have hlist : (R.onRemove (t.remove e)).toList = t.toList.filter (· ≠ e) := by
    rw [R.toList_onRemove, SearchTree.toList_remove]
  have hmem : ∀ a, a ∈ (R.onRemove (t.remove e)).toList ↔ a ∈ t.toList ∧ a ≠ e := fun a => by
    rw [hlist, List.mem_filter, decide_eq_true_eq]
  have hnodup : t.toList.Nodup := (List.Pairwise.and_mem.mp h.sorted).imp fun ⟨ha, _, hlt⟩ heq => by
    have := (h.node _ ha).base_le
    rw [heq] at this hlt
    omega
  refine ⟨⟨fun a ha => h.node a ((hmem a).mp ha).1, ?_, ?_⟩, hmem⟩
  · rw [hlist]
    exact h.sorted.filter _
  · have hfilter : t.toList.filter (· ≠ e) = t.toList.erase e := by
      rw [hnodup.erase_eq_filter]
      exact List.filter_congr fun a _ => by rw [Bool.eq_iff_iff]; simp
    have hperm : t.toList.Perm (e :: t.toList.erase e) := List.perm_cons_erase he
    rw [hlist, hfilter]
    have hl : (e.mrParam :: (t.toList.erase e).map MmioRbRange.mrParam).Perm l :=
      (hperm.map MmioRbRange.mrParam).symm.trans h.perm
    have := hl.erase e.mrParam
    rwa [List.erase_cons_head] at this

end Tree

/-! ## The whole registry -/

/-- The code's registry in agreement with the plain one. -/
structure Sim (s : Registry) (P : Plain) : Prop where
  root : Holds s.mmioRbRoot P.root
  fallback : Holds s.mmioRbFallback P.fallback
  liveRoot : ∀ e ∈ s.mmioRbRoot.toList, s.heap e.ptr = some e
  liveFallback : ∀ e ∈ s.mmioRbFallback.toList, s.heap e.ptr = some e
  apart : ∀ e ∈ s.mmioRbRoot.toList, ∀ e' ∈ s.mmioRbFallback.toList, e.ptr ≠ e'.ptr
  hint : ∀ v < vmMaxcpu, ∀ p ∈ s.mmioHint v, ∃ e ∈ s.mmioRbRoot.toList, e.ptr = p
  running : ∀ v < vmMaxcpu, ∀ e ∈ s.running v,
    e ∈ s.mmioRbRoot.toList ∨ e ∈ s.mmioRbFallback.toList

section Sim
variable {R : SearchTree.Rebalance MmioRbRange} {s s' : Registry} {P : Plain} {err : Errno}

theorem holds_nil : Holds .nil [] := ⟨by simp [SearchTree.toList], .nil, .nil⟩

theorem sim_init : Sim initMem ⟨[], []⟩ where
  root := holds_nil
  fallback := holds_nil
  liveRoot := by simp [initMem, SearchTree.toList]
  liveFallback := by simp [initMem, SearchTree.toList]
  apart := by simp [initMem, SearchTree.toList]
  hint := by simp [initMem]
  running := by simp [initMem]

/-- A live node is not at an address `malloc` can return. -/
theorem ptr_ne {heap : Nat → Option MmioRbRange} {e : MmioRbRange} {p : Nat}
    (he : heap e.ptr = some e) (hp : heap p = none) : e.ptr ≠ p := by
  rintro rfl
  rw [he] at hp
  cases hp

theorem update_of_live {heap : Nat → Option MmioRbRange} {e : MmioRbRange} {p : Nat}
    {o : Option MmioRbRange} (he : heap e.ptr = some e) (hp : heap p = none) :
    Function.update heap p o e.ptr = some e := by
  rw [Function.update_of_ne (ptr_ne he hp), he]

/-- A tree with a new node, once the node is in memory. -/
theorem live_of_insert {heap : Nat → Option MmioRbRange} {t t' : SearchTree MmioRbRange} {p : Nat}
    {memp : MemRange} (hlive : ∀ e ∈ t.toList, heap e.ptr = some e) (hp : heap p = none)
    (hmem : ∀ a, a ∈ t'.toList ↔ a = newNode p memp ∨ a ∈ t.toList) {e : MmioRbRange}
    (he : e ∈ t'.toList) : Function.update heap p (some (newNode p memp)) e.ptr = some e := by
  rcases (hmem e).mp he with rfl | he
  · exact Function.update_self ..
  · exact update_of_live (hlive e he) hp

/-- Allocating at an unused address, whether or not the memory is kept. -/
theorem Sim.alloc (h : Sim s P) {p : Nat} (hp : s.heap p = none) (o : Option MmioRbRange) :
    Sim { s with heap := Function.update s.heap p o } P where
  root := h.root
  fallback := h.fallback
  liveRoot e he := update_of_live (h.liveRoot e he) hp
  liveFallback e he := update_of_live (h.liveFallback e he) hp
  apart := h.apart
  hint := h.hint
  running := h.running

theorem Sim.registerMem (h : Sim s P) {mrp : Option Nat} {memp : MemRange}
    (hmrp : ∀ p ∈ mrp, s.heap p = none) (hpos : 0 < memp.size)
    (hwrap : memp.base + memp.size ≤ 2 ^ 64) :
    ∃ P', P.step (.registerMem mrp memp) = some ((registerMem R s mrp memp).1, P') ∧
      Sim (registerMem R s mrp memp).2 P' := by
  cases mrp with
  | none => exact ⟨P, rfl, h⟩
  | some p =>
    have hp := hmrp p rfl
    unfold Mem.registerMem
    rcases h.root.registerMemInt_cases R s.heap p hpos hwrap with
      ⟨heq, hplain⟩ | ⟨heq, hplain⟩ | ⟨t', heq, hplain, hholds, hmem⟩
    · exact ⟨P, by simp [Plain.step, heq, hplain], by simpa [heq] using h.alloc hp _⟩
    · exact ⟨P, by simp [Plain.step, heq, hplain], by simpa [heq] using h.alloc hp _⟩
    · refine ⟨{ P with root := memp :: P.root }, by simp [Plain.step, heq, hplain], ?_⟩
      rw [heq]
      exact {
        root := hholds
        fallback := h.fallback
        liveRoot := fun e he => live_of_insert h.liveRoot hp hmem he
        liveFallback := fun e he => update_of_live (h.liveFallback e he) hp
        apart := fun e he e' he' => by
          rcases (hmem e).mp he with rfl | he
          · exact (ptr_ne (h.liveFallback e' he') hp).symm
          · exact h.apart e he e' he'
        hint := fun v hv q hq => by
          obtain ⟨e, he, hptr⟩ := h.hint v hv q hq
          exact ⟨e, (hmem e).mpr (.inr he), hptr⟩
        running := fun v hv e he =>
          (h.running v hv e he).imp_left fun hroot => (hmem e).mpr (.inr hroot) }

theorem Sim.registerMemFallback (h : Sim s P) {mrp : Option Nat} {memp : MemRange}
    (hmrp : ∀ p ∈ mrp, s.heap p = none) (hpos : 0 < memp.size)
    (hwrap : memp.base + memp.size ≤ 2 ^ 64) :
    ∃ P', P.step (.registerMemFallback mrp memp) = some ((registerMemFallback R s mrp memp).1, P') ∧
      Sim (registerMemFallback R s mrp memp).2 P' := by
  cases mrp with
  | none => exact ⟨P, rfl, h⟩
  | some p =>
    have hp := hmrp p rfl
    unfold Mem.registerMemFallback
    rcases h.fallback.registerMemInt_cases R s.heap p hpos hwrap with
      ⟨heq, hplain⟩ | ⟨heq, hplain⟩ | ⟨t', heq, hplain, hholds, hmem⟩
    · exact ⟨P, by simp [Plain.step, heq, hplain], by simpa [heq] using h.alloc hp _⟩
    · exact ⟨P, by simp [Plain.step, heq, hplain], by simpa [heq] using h.alloc hp _⟩
    · refine ⟨{ P with fallback := memp :: P.fallback }, by simp [Plain.step, heq, hplain], ?_⟩
      rw [heq]
      exact {
        root := h.root
        fallback := hholds
        liveRoot := fun e he => update_of_live (h.liveRoot e he) hp
        liveFallback := fun e he => live_of_insert h.liveFallback hp hmem he
        apart := fun e he e' he' => by
          rcases (hmem e').mp he' with rfl | he'
          · exact ptr_ne (h.liveRoot e he) hp
          · exact h.apart e he e' he'
        hint := h.hint
        running := fun v hv e he =>
          (h.running v hv e he).imp_right fun hroot => (hmem e).mpr (.inr hroot) }

/-- While a tree can be changed, only immutable ranges are in use. -/
theorem immutable_of_writable (hw : s.writable) {v : Nat} (hv : v < vmMaxcpu)
    {e : MmioRbRange} (he : e ∈ s.running v) : e.mrParam.immutable = true := by
  have hfree := List.all_eq_true.mp hw v (List.mem_range.mpr hv)
  have hrun : s.running v = some e := he
  simpa [Registry.holdsLock, hrun] using hfree

/-- Freed memory is named neither by a node nor by a cached pointer. -/
theorem Sim.unregisterMem (h : Sim s P) {memp : MemRange} (hw : s.writable)
    (hs : unregisterMem R s memp = some (err, s')) :
    ∃ P', P.step (.unregisterMem memp) = some (err, P') ∧ Sim s' P' := by
  have hfind := h.root.lookup memp.base
  unfold Mem.unregisterMem at hs
  cases hf : mmioRbLookup s.mmioRbRoot memp.base with
  | none =>
    rw [hf] at hs hfind
    obtain ⟨rfl, rfl⟩ : Errno.enoent = err ∧ s = s' := by simpa using hs
    exact ⟨P, by simp [Plain.step, Plain.unregister, ← hfind], h⟩
  | some entry =>
    rw [hf] at hs hfind
    obtain ⟨hentry, -⟩ := lookup_mem hf
    by_cases hassert : unregisterAsserts entry.mrParam memp = true
    · simp only [hassert, if_true, Option.some.injEq, Prod.mk.injEq] at hs
      obtain ⟨rfl, rfl⟩ := hs
      obtain ⟨hholds, hmem⟩ := h.root.remove R hentry
      have hmut : entry.mrParam.immutable = false := by
        simp only [unregisterAsserts, decide_eq_true_eq] at hassert
        simpa using hassert.2.2.2
      -- nodes other than the freed one keep their memory
      have hkeep : ∀ e : MmioRbRange, s.heap e.ptr = some e → e ≠ entry →
          Function.update s.heap entry.ptr none e.ptr = some e := fun e he hne => by
        rw [Function.update_of_ne, he]
        intro hptr
        rw [hptr, h.liveRoot entry hentry] at he
        exact hne (Option.some.inj he).symm
      refine ⟨{ P with root := P.root.erase entry.mrParam },
        by simp [Plain.step, Plain.unregister, ← hfind, hassert], ?_⟩
      exact {
        root := hholds
        fallback := h.fallback
        liveRoot := fun e he =>
          hkeep e (h.liveRoot e ((hmem e).mp he).1) ((hmem e).mp he).2
        liveFallback := fun e he => hkeep e (h.liveFallback e he) (by
          rintro rfl
          exact h.apart e hentry e he rfl)
        apart := fun e he e' he' => h.apart e ((hmem e).mp he).1 e' he'
        hint := fun v hv p hp => by
          have hp' : (if v < vmMaxcpu ∧ s.mmioHint v = some entry.ptr then none
            else s.mmioHint v) = some p := hp
          split at hp'
          · cases hp'
          · rename_i hne
            obtain ⟨e, he, hptr⟩ := h.hint v hv p hp'
            refine ⟨e, (hmem e).mpr ⟨he, ?_⟩, hptr⟩
            rintro rfl
            exact hne ⟨hv, hptr ▸ hp'⟩
        running := fun v hv e he => by
          have himm := immutable_of_writable hw hv he
          refine (h.running v hv e he).imp_left fun hroot => (hmem e).mpr ⟨hroot, ?_⟩
          rintro rfl
          rw [hmut] at himm
          cases himm }
    · simp [hassert] at hs

theorem Sim.emulateSlow (h : Sim s P) {v : Nat} (hv : v < vmMaxcpu) (paddr : Nat) :
    Sim (emulateSlow s v paddr).2 P ∧
    ((∃ e, (emulateSlow s v paddr).1 = .entry e ∧ P.lookup paddr = some e.mrParam ∧
      (e ∈ (emulateSlow s v paddr).2.mmioRbRoot.toList ∨
        e ∈ (emulateSlow s v paddr).2.mmioRbFallback.toList)) ∨
    (emulateSlow s v paddr).1 = .esrch ∧ P.lookup paddr = none) := by
  have hroot := h.root.lookup paddr
  have hfall := h.fallback.lookup paddr
  unfold Mem.emulateSlow Plain.lookup
  cases hr : mmioRbLookup s.mmioRbRoot paddr with
  | some e =>
    obtain ⟨he, -⟩ := lookup_mem hr
    rw [hr] at hroot
    refine ⟨?_, .inl ⟨e, rfl, by simp [← hroot], .inl he⟩⟩
    exact {
      root := h.root
      fallback := h.fallback
      liveRoot := h.liveRoot
      liveFallback := h.liveFallback
      apart := h.apart
      running := h.running
      hint := fun w hw p hp => by
        have hp' : Function.update s.mmioHint v (some e.ptr) w = some p := hp
        by_cases hwv : w = v
        · subst hwv
          rw [Function.update_self] at hp'
          exact ⟨e, he, Option.some.inj hp'⟩
        · rw [Function.update_of_ne hwv] at hp'
          exact h.hint w hw p hp' }
  | none =>
    rw [hr] at hroot
    cases hf : mmioRbLookup s.mmioRbFallback paddr with
    | some e =>
      rw [hf] at hfall
      exact ⟨h, .inl ⟨e, rfl, by simp [← hroot, ← hfall], .inr (lookup_mem hf).1⟩⟩
    | none =>
      rw [hf] at hfall
      exact ⟨h, .inr ⟨rfl, by simp [← hroot, ← hfall]⟩⟩

/-- The cache makes no difference to where an access goes. -/
theorem Sim.emulateMem (h : Sim s P) {v : Nat} (hv : v < vmMaxcpu) (paddr : Nat) :
    Sim (emulateMem s v paddr).2 P ∧
    ((∃ e, (emulateMem s v paddr).1 = .entry e ∧ P.lookup paddr = some e.mrParam ∧
      (e ∈ (emulateMem s v paddr).2.mmioRbRoot.toList ∨
        e ∈ (emulateMem s v paddr).2.mmioRbFallback.toList)) ∨
    (emulateMem s v paddr).1 = .esrch ∧ P.lookup paddr = none) := by
  unfold Mem.emulateMem
  cases hh : s.mmioHint v with
  | none => exact h.emulateSlow hv paddr
  | some p =>
    obtain ⟨e, he, rfl⟩ := h.hint v hv p hh
    simp only [h.liveRoot e he]
    split
    · rename_i hin
      refine ⟨h, .inl ⟨e, rfl, ?_, .inl he⟩⟩
      -- the plain search finds the same range, because no other root range contains it
      rw [Plain.lookup, h.root.find?_eq he hin, Option.some_or]
    · exact h.emulateSlow hv paddr

theorem Sim.setRunning (h : Sim s P) (vcpu : Nat) {o : Option MmioRbRange}
    (ho : ∀ e ∈ o, e ∈ s.mmioRbRoot.toList ∨ e ∈ s.mmioRbFallback.toList) :
    Sim { s with running := Function.update s.running vcpu o } P where
  root := h.root
  fallback := h.fallback
  liveRoot := h.liveRoot
  liveFallback := h.liveFallback
  apart := h.apart
  hint := h.hint
  running v hv e he := by
    have he' : Function.update s.running vcpu o v = some e := he
    by_cases hvc : v = vcpu
    · rw [hvc, Function.update_self] at he'
      exact ho e he'
    · rw [Function.update_of_ne hvc] at he'
      exact h.running v hv e he'

theorem Sim.step (h : Sim s P) {op : Op} (hok : Admissible s op)
    (hs : step R s op = some (err, s')) :
    ∃ P', P.step op = some (err, P') ∧ Sim s' P' := by
  cases op with
  | registerMem mrp memp =>
    obtain ⟨hmrp, hpos, hwrap, -⟩ := hok
    obtain ⟨P', hP, hsim⟩ := h.registerMem (R := R) hmrp hpos hwrap
    have heq : Mem.registerMem R s mrp memp = (err, s') := Option.some.inj hs
    rw [heq] at hP hsim
    exact ⟨P', hP, hsim⟩
  | registerMemFallback mrp memp =>
    obtain ⟨hmrp, hpos, hwrap, -⟩ := hok
    obtain ⟨P', hP, hsim⟩ := h.registerMemFallback (R := R) hmrp hpos hwrap
    have heq : Mem.registerMemFallback R s mrp memp = (err, s') := Option.some.inj hs
    rw [heq] at hP hsim
    exact ⟨P', hP, hsim⟩
  | unregisterMem memp => exact h.unregisterMem hok hs
  | emulateMem vcpu paddr =>
    obtain ⟨hsim, hcase⟩ := h.emulateMem hok.1 paddr
    rcases hm : Mem.emulateMem s vcpu paddr with ⟨d, s₁⟩
    rw [hm] at hsim hcase
    rcases hcase with ⟨e, hd, hlook, hin⟩ | ⟨hd, hlook⟩
    · subst hd
      obtain ⟨rfl, rfl⟩ : Errno.ok = err ∧ _ = s' := by simpa [Mem.step, hm] using hs
      refine ⟨P, by simp [Plain.step, hlook], ?_⟩
      exact hsim.setRunning vcpu (fun e' he' => Option.some.inj he' ▸ hin)
    · subst hd
      obtain ⟨rfl, rfl⟩ : Errno.esrch = err ∧ s₁ = s' := by simpa [Mem.step, hm] using hs
      exact ⟨P, by simp [Plain.step, hlook], hsim⟩
  | emulateReturn vcpu =>
    obtain ⟨rfl, rfl⟩ : Errno.ok = err ∧ _ = s' := by simpa [Mem.step] using hs
    exact ⟨P, rfl, h.setRunning vcpu (by simp)⟩

end Sim

/-- One admissible call, made on the code's registry and on the plain one. -/
def next (R : SearchTree.Rebalance MmioRbRange) (c : Registry × Plain) (op : Op) :
    Option (Registry × Plain) :=
  if Admissible c.1 op then
    (step R c.1 op).map fun r => (r.2, ((c.2.step op).map Prod.snd).getD c.2)
  else none

def system (R : SearchTree.Rebalance MmioRbRange) : System (Registry × Plain) Op :=
  System.ofFn (· = (initMem, ⟨[], []⟩)) (next R)

theorem sim_reachable {R : SearchTree.Rebalance MmioRbRange} {c : Registry × Plain}
    (hc : (system R).Reachable c) : Sim c.1 c.2 := by
  have hind : (system R).Inductive fun c => Sim c.1 c.2 := by
    constructor
    · rintro _ rfl
      exact sim_init
    · rintro ⟨s, P⟩ op c' hsim hstep
      obtain ⟨hok, ⟨err, s'⟩, hs, rfl⟩ : Admissible s op ∧ ∃ r, step R s op = some r ∧
          (r.2, ((P.step op).map Prod.snd).getD P) = c' := by
        simpa [system, System.ofFn, next] using hstep
      obtain ⟨P', hP, hsim'⟩ := hsim.step hok hs
      simpa [hP] using hsim'
  exact hind.reachable hc

/-- Dispatch through the per-vCPU cache is plain look-up among the ranges registered and not
unregistered since. -/
theorem emulateMem_refines_lookup (R : SearchTree.Rebalance MmioRbRange) (s : Registry)
    (P : Plain) (hc : (system R).Reachable (s, P)) :
    -- the ranges in the root tree are the plain ones and pairwise disjoint
    (s.mmioRbRoot.toList.map MmioRbRange.mrParam).Perm P.root ∧
    P.root.Pairwise (fun a b => a.overlaps b = false) ∧
    -- an access goes where the plain search says, whatever the cache holds
    (∀ vcpu < vmMaxcpu, ∀ paddr,
      (∀ mr, P.lookup paddr = some mr →
        ∃ e, (emulateMem s vcpu paddr).1 = .entry e ∧ e.mrParam = mr ∧
          (emulateMem s vcpu paddr).2.heap e.ptr = some e) ∧
      (P.lookup paddr = none → (emulateMem s vcpu paddr).1 = .esrch)) ∧
    -- a handler that is still running belongs to an installed range
    (∀ vcpu < vmMaxcpu, ∀ e ∈ s.running vcpu,
      (e.mrParam ∈ P.root ∨ e.mrParam ∈ P.fallback) ∧ s.heap e.ptr = some e) ∧
    -- every call returns what it returns on the plain registry
    (∀ op, Admissible s op → ∀ err s', step R s op = some (err, s') →
      ∃ P', P.step op = some (err, P')) ∧
    -- and unregistering an installed range does not abort
    ∀ memp ∈ P.root, memp.immutable = false → (unregisterMem R s memp).isSome := by
  have h : Sim s P := sim_reachable hc
  refine ⟨h.root.perm, h.root.disjoint, ?_, ?_, ?_, ?_⟩
  · intro vcpu hv paddr
    obtain ⟨hsim, ⟨e, hd, hlook, hin⟩ | ⟨hd, hlook⟩⟩ := h.emulateMem hv paddr
    · refine ⟨fun mr hmr => ⟨e, hd, ?_, ?_⟩, fun hnone => ?_⟩
      · rw [hlook] at hmr
        exact Option.some.inj hmr
      · rcases hin with hin | hin
        · exact hsim.liveRoot e hin
        · exact hsim.liveFallback e hin
      · rw [hlook] at hnone
        cases hnone
    · exact ⟨fun mr hmr => by simp [hlook] at hmr, fun _ => hd⟩
  · intro vcpu hv e he
    rcases h.running vcpu hv e he with hin | hin
    · exact ⟨.inl (h.root.mem_iff.mpr ⟨e, hin, rfl⟩), h.liveRoot e hin⟩
    · exact ⟨.inr (h.fallback.mem_iff.mpr ⟨e, hin, rfl⟩), h.liveFallback e hin⟩
  · intro op hok err s' hs
    obtain ⟨P', hP, -⟩ := h.step hok hs
    exact ⟨P', hP⟩
  · intro memp hmem himm
    obtain ⟨e, he, rfl⟩ := h.root.mem_iff.mp hmem
    have hnode := h.root.node e he
    have hin : e.mrBase ≤ e.mrParam.base ∧ e.mrParam.base ≤ e.mrEnd :=
      ⟨hnode.base.le, hnode.base ▸ hnode.base_le⟩
    have hlook := h.root.lookup e.mrParam.base
    rw [h.root.find?_eq he hin] at hlook
    obtain ⟨entry, hentry, heq⟩ := Option.map_eq_some_iff.mp hlook
    have hassert : unregisterAsserts entry.mrParam e.mrParam = true := by
      simp [unregisterAsserts, heq, himm]
    simp [unregisterMem, hentry, hassert]

/-- A range is cached and unregistered, and its memory is reused for another range at the
same addresses: the access goes to the new handler. -/
theorem emulateMem_after_reuse :
    let R : SearchTree.Rebalance MmioRbRange := ⟨id, id, fun _ => rfl, fun _ => rfl⟩
    let mr : MemRange := ⟨1, 3, 10, 0, 0, 0x1000, 0x100⟩
    let mr' : MemRange := ⟨2, 3, 20, 0, 0, 0x1000, 0x100⟩
    ∃ s, System.exec (next R) (initMem, ⟨[], []⟩) [.registerMem (some 7) mr,
        .emulateMem 0 0x1010, .emulateReturn 0, .unregisterMem mr, .registerMem (some 7) mr'] =
          some (s, ⟨[mr'], []⟩) ∧
      ∃ e, (emulateMem s 0 0x1010).1 = .entry e ∧ e.mrParam = mr' := by
  intro R mr mr'
  have hplain : (System.exec (next R) (initMem, ⟨[], []⟩) [.registerMem (some 7) mr,
      .emulateMem 0 0x1010, .emulateReturn 0, .unregisterMem mr, .registerMem (some 7) mr']).map
        Prod.snd = some ⟨[mr'], []⟩ := by decide +kernel
  obtain ⟨⟨s, P⟩, hrun, rfl⟩ := Option.map_eq_some_iff.mp hplain
  have hreach : (system R).Reachable (s, ⟨[mr'], []⟩) := System.exec_reachable (.init rfl) hrun
  obtain ⟨-, -, hdispatch, -⟩ := emulateMem_refines_lookup R s ⟨[mr'], []⟩ hreach
  obtain ⟨e, he, hmr, -⟩ := (hdispatch 0 (by decide) 0x1010).1 mr' rfl
  exact ⟨s, hrun, e, he, hmr⟩

end Xhyve.Emul.Mem
