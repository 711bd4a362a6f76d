import Xhyve.Emul.MemDispatch

/-!
# What `register_mem` reports

An overlap is looked for twice: at the first address, where one is passed over in silence, and by the insertion.
Ranges without an address and ranges that go beyond the last one are followed too: their end is taken modulo 2^64, and
what is inserted then is found at no address.
-/

namespace Xhyve.Emul.Mem

open Xhyve.Lib

/-- The addresses of a range are of 64 bits. -/
def MemRange.has (mr : MemRange) (paddr : Nat) : Prop := paddr < 2 ^ 64 ∧ mr.contains paddr = true

/-- The call returns 0 exactly for a range that shares no address with a registered one and is found afterwards at each of
its addresses; then it can be unregistered. -/
structure Truthful (R : SearchTree.Rebalance MmioRbRange) (s : Registry) (l : List MemRange) (mrp : Option Nat)
    (memp : MemRange) : Prop where
  zero : (registerMem R s mrp memp).1 = .ok ↔
    (∀ mr ∈ l, ∀ paddr, mr.has paddr → ¬ memp.has paddr) ∧
      ∀ paddr, memp.has paddr → (mmioRbLookup (registerMem R s mrp memp).2.mmioRbRoot paddr).map MmioRbRange.mrParam = some memp
  unchanged : (registerMem R s mrp memp).1 ≠ .ok → (registerMem R s mrp memp).2.mmioRbRoot = s.mmioRbRoot
  /-- `unregister_mem` finds that very range, and takes it out where ranges may be taken out. -/
  unregisters : (registerMem R s mrp memp).1 = .ok →
    ((mmioRbLookup (registerMem R s mrp memp).2.mmioRbRoot memp.base).map MmioRbRange.mrParam = some memp) ∧
      (memp.immutable = false → ∃ s', unregisterMem R (registerMem R s mrp memp).2 memp = some (.ok, s') ∧
        (s'.mmioRbRoot.toList.map MmioRbRange.mrParam).Perm l)

/-- Where the call reports the truth: there is no memory for a node, or the range ends inside the address space and does not
begin in a registered one. -/
def Reported (l : List MemRange) (mrp : Option Nat) (memp : MemRange) : Prop :=
  if memp.size = 0 then memp.base = 0 ∧ mrp.isSome ∧ l = []
  else mrp = none ∨ memp.base + memp.size ≤ 2 ^ 64 ∧ ∀ mr ∈ l, mr.contains memp.base = false

section Register
variable {R : SearchTree.Rebalance MmioRbRange} {t : SearchTree MmioRbRange} {l : List MemRange} {memp : MemRange} {p : Nat}
  {s : Registry}

/-- The comparison of a node is monotone along the tree, whatever its bounds. -/
theorem Holds.separates_any (h : Holds t l) (base limit : Nat) :
    SearchTree.Separates (mmioRbRangeCompare base limit) t.toList := by
  refine (List.Pairwise.and_mem.mp h.sorted).imp ?_
  rintro a b ⟨ha, hb, hab⟩
  have := (h.node a ha).base_le
  have := (h.node b hb).base_le
  unfold mmioRbRangeCompare
  constructor
  · intro hlt
    rw [if_pos]
    by_contra hno
    split_ifs at hlt
    omega
  · intro hgt
    split_ifs at hgt with h₁ h₂
    rw [if_neg (by omega), if_pos (by omega)]

theorem first_address (hpos : 0 < memp.size) (hbase : memp.base < 2 ^ 64) : memp.has memp.base := by
  refine ⟨hbase, ?_⟩
  simp only [MemRange.contains, decide_eq_true_eq]
  omega

theorem lookup_none_iff (h : Holds t l) (paddr : Nat) :
    mmioRbLookup t paddr = none ↔ ∀ mr ∈ l, mr.contains paddr = false := by
  rw [← Option.map_eq_none_iff (f := MmioRbRange.mrParam), h.lookup, List.find?_eq_none]
  simp

/-- A range that is in the tree is unregistered. -/
theorem unregister_held (h : Holds s.mmioRbRoot l) (hmem : memp ∈ l) (himm : memp.immutable = false) :
    ∃ s', unregisterMem R s memp = some (.ok, s') ∧
      (s'.mmioRbRoot.toList.map MmioRbRange.mrParam).Perm (l.erase memp) := by
  obtain ⟨e, he, rfl⟩ := h.mem_iff.mp hmem
  have hnode := h.node e he
  have hin : e.mrBase ≤ e.mrParam.base ∧ e.mrParam.base ≤ e.mrEnd :=
    ⟨hnode.base.le, hnode.base ▸ hnode.base_le⟩
  have hlook := h.lookup e.mrParam.base
  rw [h.find?_eq he hin] at hlook
  obtain ⟨entry, hentry, heq⟩ := Option.map_eq_some_iff.mp hlook
  have hassert : unregisterAsserts entry.mrParam e.mrParam = true := by
    simp [unregisterAsserts, heq, himm]
  obtain ⟨hremoved, -⟩ := h.remove R (lookup_mem hentry).1
  rw [heq] at hremoved
  unfold unregisterMem
  rw [hentry]
  dsimp only
  rw [if_pos hassert]
  exact ⟨_, rfl, hremoved.perm⟩

/-- Without memory for a node the call fails, and the range is not found. -/
theorem truthful_enomem (h : Holds s.mmioRbRoot l) (hpos : 0 < memp.size) (hbase : memp.base < 2 ^ 64) :
    Truthful R s l none memp := by
  refine ⟨⟨nofun, ?_⟩, fun _ => rfl, nofun⟩
  intro ⟨hapart, hfound⟩
  have hhas := first_address hpos hbase
  obtain ⟨e, he, heq⟩ := Option.map_eq_some_iff.mp (hfound memp.base hhas)
  have hmem : memp ∈ l := h.mem_iff.mpr ⟨e, (lookup_mem he).1, heq⟩
  exact absurd hhas (hapart memp hmem memp.base hhas)

/-- The three ways the call can go with a node, whatever its bounds. -/
theorem registerMem_cases (h : Holds s.mmioRbRoot l) (R : SearchTree.Rebalance MmioRbRange) (p : Nat) (memp : MemRange) :
    ((mmioRbLookup s.mmioRbRoot memp.base).isSome ∧ (registerMem R s (some p) memp).1 = .ok ∧
      (registerMem R s (some p) memp).2.mmioRbRoot = s.mmioRbRoot) ∨
    mmioRbLookup s.mmioRbRoot memp.base = none ∧
      (((∃ a ∈ s.mmioRbRoot.toList, mmioRbRangeCompare memp.base (newNode p memp).mrEnd a = .eq) ∧
        (registerMem R s (some p) memp).1 = .eexist ∧ (registerMem R s (some p) memp).2.mmioRbRoot = s.mmioRbRoot) ∨
      ((registerMem R s (some p) memp).1 = .ok ∧
        (∀ a ∈ s.mmioRbRoot.toList, mmioRbRangeCompare memp.base (newNode p memp).mrEnd a ≠ .eq) ∧
        ∃ l₁ l₂, s.mmioRbRoot.toList = l₁ ++ l₂ ∧
          (registerMem R s (some p) memp).2.mmioRbRoot.toList = l₁ ++ newNode p memp :: l₂)) := by
  unfold registerMem registerMemInt
  cases hf : mmioRbLookup s.mmioRbRoot memp.base with
  | some e => exact .inl ⟨rfl, rfl, rfl⟩
  | none =>
    refine .inr ⟨rfl, ?_⟩
    have hsep := h.separates_any (newNode p memp).mrBase (newNode p memp).mrEnd
    rcases SearchTree.insert_cases (x := newNode p memp) hsep with
      ⟨a, herr, ha, heq⟩ | ⟨t', l₁, l₂, hok, ht, ht', hgt, hlt⟩
    · have hadd : mmioRbAdd R s.mmioRbRoot (newNode p memp) = (.eexist, s.mmioRbRoot) := by rw [mmioRbAdd, herr]
      dsimp only
      rw [hadd]
      exact .inl ⟨⟨a, ha, heq⟩, rfl, rfl⟩
    · have hadd : mmioRbAdd R s.mmioRbRoot (newNode p memp) = (.ok, R.onInsert t') := by rw [mmioRbAdd, hok]
      dsimp only
      rw [hadd]
      refine .inr ⟨rfl, ?_, l₁, l₂, ht, (R.toList_onInsert t').trans ht'⟩
      intro a ha heq
      rw [ht, List.mem_append] at ha
      rcases ha with ha | ha
      · have hboth := (hgt a ha).symm.trans heq
        cases hboth
      · have hboth := (hlt a ha).symm.trans heq
        cases hboth

/-- A range without an address in the tree's order is inserted and never found. -/
theorem inverted_lookup (h : Holds s.mmioRbRoot l) (hinv : (newNode p memp).mrEnd < memp.base) :
    (registerMem R s (some p) memp).1 = .ok ∧
      (mmioRbLookup (registerMem R s (some p) memp).2.mmioRbRoot memp.base).map MmioRbRange.mrParam =
        (mmioRbLookup s.mmioRbRoot memp.base).map MmioRbRange.mrParam := by
  rcases registerMem_cases h R p memp with ⟨-, hok, hroot⟩ | ⟨hnone, ⟨⟨a, ha, heq⟩, -⟩ | ⟨hok, -, l₁, l₂, ht, ht'⟩⟩
  · exact ⟨hok, by rw [hroot]⟩
  · -- what compares equal contains the first address
    have hmiss := SearchTree.find_none (h.separates_any memp.base memp.base) hnone a ha
    obtain ⟨hle, hge⟩ := compare_eq_iff.mp heq
    exact absurd (compare_eq_iff.mpr ⟨by omega, hge⟩) hmiss
  · refine ⟨hok, ?_⟩
    rw [hnone]
    cases hf : mmioRbLookup (registerMem R s (some p) memp).2.mmioRbRoot memp.base with
    | none => rfl
    | some e =>
      obtain ⟨he, hin⟩ := lookup_mem hf
      rw [ht', List.mem_append, List.mem_cons] at he
      have hold : e ∈ s.mmioRbRoot.toList := by
        rw [ht, List.mem_append]
        rcases he with he | rfl | he
        · exact .inl he
        · have hnew : (newNode p memp).mrBase = memp.base := rfl
          omega
        · exact .inr he
      have hmiss := SearchTree.find_none (h.separates_any memp.base memp.base) hnone e hold
      exact absurd (compare_eq_iff.mpr hin) hmiss

/-- A range that goes beyond the last address, or has none, is lost. -/
theorem not_truthful_inverted (h : Holds s.mmioRbRoot l) (hinv : (newNode p memp).mrEnd < memp.base)
    (hnew : memp.size = 0 ∨ 2 ^ 64 < memp.base + memp.size) (hbounds : ∀ mr ∈ l, 0 < mr.size ∧ mr.base + mr.size ≤ 2 ^ 64) :
    ¬ Truthful R s l (some p) memp := by
  intro htrue
  obtain ⟨hok, hlook⟩ := inverted_lookup (R := R) h hinv
  have hfound := (htrue.unregisters hok).1
  rw [hlook] at hfound
  obtain ⟨e, he, rfl⟩ := Option.map_eq_some_iff.mp hfound
  obtain ⟨hpos, hend⟩ := hbounds _ (h.mem_iff.mpr ⟨e, (lookup_mem he).1, rfl⟩)
  omega

theorem Holds.size_pos (h : Holds t l) {mr : MemRange} (hmr : mr ∈ l) : 0 < mr.size := by
  obtain ⟨e, he, rfl⟩ := h.mem_iff.mp hmr
  exact (h.node e he).pos

/-- Ranges that overlap share an address. -/
theorem shared_address {mr mr' : MemRange} (hpos : 0 < mr.size) (hpos' : 0 < mr'.size) (hend : mr'.base + mr'.size ≤ 2 ^ 64)
    (hov : mr.overlaps mr' = true) : ∃ paddr, mr.has paddr ∧ mr'.has paddr := by
  simp only [MemRange.overlaps, decide_eq_true_eq] at hov
  refine ⟨max mr.base mr'.base, ?_⟩
  simp only [MemRange.has, MemRange.contains, decide_eq_true_eq]
  omega

theorem apart_of_not_overlaps {mr mr' : MemRange} (hov : mr.overlaps mr' = false) {paddr : Nat} (hhas : mr.has paddr) :
    ¬ mr'.has paddr := by
  simp only [MemRange.overlaps, decide_eq_false_iff_not, MemRange.has, MemRange.contains, decide_eq_true_eq] at hov hhas ⊢
  omega

/-- A range that was inserted. -/
theorem truthful_inserted (hclear : l.any (·.overlaps memp) = false)
    (hok : (registerMem R s (some p) memp).1 = .ok)
    (hholds : Holds (registerMem R s (some p) memp).2.mmioRbRoot (memp :: l)) (hpos : 0 < memp.size) :
    Truthful R s l (some p) memp := by
  have hfound : ∀ paddr, memp.contains paddr = true →
      (mmioRbLookup (registerMem R s (some p) memp).2.mmioRbRoot paddr).map MmioRbRange.mrParam = some memp := by
    intro paddr hin
    rw [hholds.lookup]
    exact List.find?_cons_of_pos hin
  have hfirst : memp.contains memp.base = true := by
    simp only [MemRange.contains, decide_eq_true_eq]
    omega
  refine ⟨⟨fun _ => ⟨?_, fun paddr hin => hfound paddr hin.2⟩, fun _ => hok⟩, fun hno => absurd hok hno, fun _ => ⟨hfound _ hfirst, ?_⟩⟩
  · intro mr hmr paddr hhas
    exact apart_of_not_overlaps (by simpa using List.any_eq_false.mp hclear mr hmr) hhas
  · intro himm
    obtain ⟨s', hs', hperm⟩ := unregister_held (R := R) hholds (List.mem_cons_self ..) himm
    rw [List.erase_cons_head] at hperm
    exact ⟨s', hs', hperm⟩

/-- An ordinary range is reported on truthfully unless it begins in a registered one. -/
theorem truthful_iff (h : Holds s.mmioRbRoot l) (hpos : 0 < memp.size) (hend : memp.base + memp.size ≤ 2 ^ 64) :
    Truthful R s l (some p) memp ↔ ∀ mr ∈ l, mr.contains memp.base = false := by
  have hhas := first_address hpos (show memp.base < 2 ^ 64 by omega)
  constructor
  · intro htrue mr hmr
    by_contra hin
    -- a range beginning in another one is passed over, and 0 is returned
    rcases registerMem_cases h R p memp with ⟨-, hok, -⟩ | ⟨hnone, -⟩
    · obtain ⟨hapart, -⟩ := htrue.zero.mp hok
      exact hapart mr hmr memp.base ⟨hhas.1, by simpa using hin⟩ hhas
    · exact hin ((lookup_none_iff h _).mp hnone mr hmr)
  · intro hclear
    have hnone : l.any (·.contains memp.base) = false := by simpa using hclear
    have hplain : Plain.register l memp = if l.any (·.overlaps memp) then (.eexist, l) else (.ok, memp :: l) := by
      unfold Plain.register
      rw [hnone, if_neg nofun]
    rcases h.registerMemInt_cases R s.heap p hpos hend with ⟨-, hsame⟩ | ⟨heq, hsame⟩ | ⟨t', heq, hsame, hholds, -⟩
    · rw [hplain] at hsame
      split at hsame
      · cases hsame
      · exact absurd (congrArg Prod.snd hsame) (List.cons_ne_self memp l)
    · have herr : (registerMem R s (some p) memp).1 = .eexist := by rw [registerMem, heq]
      have hroot : (registerMem R s (some p) memp).2.mmioRbRoot = s.mmioRbRoot := by rw [registerMem, heq]
      rw [hplain] at hsame
      split at hsame
      · rename_i hany
        rw [List.any_eq_true] at hany
        obtain ⟨mr, hmr, hov⟩ := hany
        obtain ⟨paddr, hin, hin'⟩ := shared_address (h.size_pos hmr) hpos hend hov
        refine ⟨⟨?_, fun hboth => absurd hin' (hboth.1 mr hmr paddr hin)⟩, fun _ => hroot, ?_⟩
        · rw [herr]
          exact nofun
        · rw [herr]
          exact nofun
      · cases hsame
    · rw [hplain] at hsame
      split at hsame
      · cases hsame
      · rename_i hany
        exact truthful_inserted (by simpa using hany) (by rw [registerMem, heq]) (by rw [registerMem, heq]; exact hholds) hpos

/-- The whole of the address space is all that an empty tree holds then. -/
theorem truthful_alone (h : Holds s.mmioRbRoot []) (hwhole : memp.base ≤ (newNode p memp).mrEnd) (hnone : ∀ paddr, ¬ memp.has paddr) :
    Truthful R s [] (some p) memp := by
  have hempty : s.mmioRbRoot.toList = [] := List.map_eq_nil_iff.mp h.perm.eq_nil
  rcases registerMem_cases h R p memp with ⟨hsome, -⟩ | ⟨-, ⟨⟨a, ha, -⟩, -⟩ | ⟨hok, -, l₁, l₂, ht, ht'⟩⟩
  · rw [(lookup_none_iff h _).mpr (fun _ hmr => absurd hmr List.not_mem_nil)] at hsome
    cases hsome
  · rw [hempty] at ha
    exact absurd ha List.not_mem_nil
  · obtain ⟨rfl, rfl⟩ := List.append_eq_nil_iff.mp (ht.symm.trans hempty)
    rw [List.nil_append] at ht'
    have hfind : mmioRbLookup (registerMem R s (some p) memp).2.mmioRbRoot memp.base = some (newNode p memp) := by
      cases hf : mmioRbLookup (registerMem R s (some p) memp).2.mmioRbRoot memp.base with
      | none =>
        have hmiss := SearchTree.find_none (by rw [ht']; exact List.pairwise_singleton _ _) hf (newNode p memp)
          (by rw [ht']; exact List.mem_singleton_self _)
        exact absurd (compare_eq_iff.mpr ⟨le_refl _, hwhole⟩) hmiss
      | some e =>
        have he := (lookup_mem hf).1
        rw [ht'] at he
        rw [List.mem_singleton.mp he]
    refine ⟨⟨fun _ => ⟨nofun, fun paddr hhas => absurd hhas (hnone paddr)⟩, fun _ => hok⟩, fun hno => absurd hok hno, fun _ => ⟨?_, ?_⟩⟩
    · rw [hfind]
      rfl
    · intro himm
      have hassert : unregisterAsserts (newNode p memp).mrParam memp = true := by
        simp [unregisterAsserts, newNode, himm]
      unfold unregisterMem
      rw [hfind]
      dsimp only
      rw [if_pos hassert]
      refine ⟨_, rfl, ?_⟩
      have hgone : (R.onRemove ((registerMem R s (some p) memp).2.mmioRbRoot.remove (newNode p memp))).toList = [] := by
        rw [R.toList_onRemove, SearchTree.toList_remove, ht']
        simp
      rw [hgone]
      exact List.Perm.refl _

/-- Without an address a range takes part only as the whole of the address space, in an empty tree. -/
theorem truthful_empty_iff (h : Holds s.mmioRbRoot l) (hsize : memp.size = 0) (hbase : memp.base < 2 ^ 64)
    (hbounds : ∀ mr ∈ l, 0 < mr.size ∧ mr.base + mr.size ≤ 2 ^ 64) (mrp : Option Nat) :
    Truthful R s l mrp memp ↔ memp.base = 0 ∧ mrp.isSome ∧ l = [] := by
  have hnone : ∀ paddr, ¬ memp.has paddr := by
    intro paddr
    simp only [MemRange.has, MemRange.contains, decide_eq_true_eq]
    omega
  have hright : (∀ mr ∈ l, ∀ paddr, mr.has paddr → ¬ memp.has paddr) ∧ ∀ paddr, memp.has paddr →
      (mmioRbLookup (registerMem R s mrp memp).2.mmioRbRoot paddr).map MmioRbRange.mrParam = some memp :=
    ⟨fun _ _ paddr _ => hnone paddr, fun paddr hhas => absurd hhas (hnone paddr)⟩
  cases mrp with
  | none =>
    constructor
    · intro htrue
      have hok := htrue.zero.mpr hright
      cases hok
    · intro hcond
      exact absurd hcond.2.1 Bool.false_ne_true
  | some p =>
    by_cases hzero : memp.base = 0
    · have hend : (newNode p memp).mrEnd = 2 ^ 64 - 1 := by
        show (memp.base + memp.size + (2 ^ 64 - 1)) % 2 ^ 64 = _
        omega
      refine ⟨fun htrue => ⟨hzero, rfl, ?_⟩, ?_⟩
      · by_contra hne
        obtain ⟨mr, hmr⟩ := List.exists_mem_of_ne_nil l hne
        obtain ⟨e, he, rfl⟩ := h.mem_iff.mp hmr
        have hok := htrue.zero.mpr hright
        rcases registerMem_cases h R p memp with ⟨-, -, hroot⟩ | ⟨-, ⟨-, herr, -⟩ | ⟨-, hmiss, -⟩⟩
        · have hfound := (htrue.unregisters hok).1
          rw [hroot] at hfound
          obtain ⟨e', he', rfl⟩ := Option.map_eq_some_iff.mp hfound
          have hpos := h.size_pos (h.mem_iff.mpr ⟨e', (lookup_mem he').1, rfl⟩)
          omega
        · rw [hok] at herr
          cases herr
        · have hnode := h.node e he
          have hlimit := (hbounds _ hmr).2
          have := hnode.limit
          have := hnode.base_le
          exact hmiss e he (compare_eq_iff.mpr (by omega))
      · rintro ⟨-, -, rfl⟩
        exact truthful_alone h (by omega) hnone
    · refine ⟨fun htrue => absurd htrue (not_truthful_inverted h ?_ (.inl hsize) hbounds), fun hcond => absurd hcond.1 hzero⟩
      show (memp.base + memp.size + (2 ^ 64 - 1)) % 2 ^ 64 < memp.base
      omega

end Register

theorem bounds_register {memp : MemRange} {l : List MemRange} (hl : ∀ mr ∈ l, 0 < mr.size ∧ mr.base + mr.size ≤ 2 ^ 64)
    (hmemp : 0 < memp.size ∧ memp.base + memp.size ≤ 2 ^ 64) :
    ∀ mr ∈ (Plain.register l memp).2, 0 < mr.size ∧ mr.base + mr.size ≤ 2 ^ 64 := by
  unfold Plain.register
  split_ifs
  · exact hl
  · exact hl
  · intro mr hmr
    rcases List.mem_cons.mp hmr with rfl | hmr
    · exact hmemp
    · exact hl mr hmr

theorem bounds_unregister {memp : MemRange} {l : List MemRange} (hl : ∀ mr ∈ l, 0 < mr.size ∧ mr.base + mr.size ≤ 2 ^ 64)
    {r : Errno × List MemRange} (hr : Plain.unregister l memp = some r) :
    ∀ mr ∈ r.2, 0 < mr.size ∧ mr.base + mr.size ≤ 2 ^ 64 := by
  unfold Plain.unregister at hr
  cases hf : l.find? (·.contains memp.base) with
  | none =>
    rw [hf] at hr
    obtain rfl := Option.some.inj hr
    exact hl
  | some mr' =>
    rw [hf] at hr
    dsimp only at hr
    split_ifs at hr
    obtain rfl := Option.some.inj hr
    exact fun mr hmr => hl mr (List.mem_of_mem_erase hmr)

theorem bounds_step {s : Registry} {P : Plain} {op : Op} (hok : Admissible s op)
    (hP : ∀ mr ∈ P.root, 0 < mr.size ∧ mr.base + mr.size ≤ 2 ^ 64) :
    ∀ mr ∈ (((P.step op).map Prod.snd).getD P).root, 0 < mr.size ∧ mr.base + mr.size ≤ 2 ^ 64 := by
  cases op with
  | registerMem mrp memp =>
    cases mrp with
    | none => exact hP
    | some p => exact bounds_register hP ⟨hok.2.1, hok.2.2.1⟩
  | registerMemFallback mrp memp =>
    cases mrp with
    | none => exact hP
    | some p => exact hP
  | unregisterMem memp =>
    cases hr : Plain.unregister P.root memp with
    | none => simpa [Plain.step, hr] using hP
    | some r => simpa [Plain.step, hr] using bounds_unregister hP hr
  | emulateMem vcpu paddr => exact hP
  | emulateReturn vcpu => exact hP

/-- The registered ranges have addresses and end inside the address space. -/
theorem bounds_reachable {R : SearchTree.Rebalance MmioRbRange} {c : Registry × Plain} (hc : (system R).Reachable c) :
    ∀ mr ∈ c.2.root, 0 < mr.size ∧ mr.base + mr.size ≤ 2 ^ 64 := by
  have hind : (system R).Inductive fun c => ∀ mr ∈ c.2.root, 0 < mr.size ∧ mr.base + mr.size ≤ 2 ^ 64 := by
    constructor
    · rintro _ rfl mr hmr
      cases hmr
    · rintro ⟨s, P⟩ op c' hbounds hstep mr hmr
      obtain ⟨hok, ⟨err, s'⟩, hs, rfl⟩ : Admissible s op ∧ ∃ r, step R s op = some r ∧
          (r.2, ((P.step op).map Prod.snd).getD P) = c' := by
        simpa [system, System.ofFn, next] using hstep
      exact bounds_step hok hbounds mr hmr
  exact hind.reachable hc

/-- For any set of registered ranges and any new one, `register_mem` reports the truth, and a range it has taken can be
unregistered, exactly if there is no memory for a node, or the range has addresses, ends inside the address space and does not
begin in a registered range. -/
theorem registerMem_truthful (R : SearchTree.Rebalance MmioRbRange) (s : Registry) (P : Plain)
    (hc : (system R).Reachable (s, P)) (mrp : Option Nat) (memp : MemRange) (hbase : memp.base < 2 ^ 64)
    (hsize : memp.size < 2 ^ 64) : Truthful R s P.root mrp memp ↔ Reported P.root mrp memp := by
  have hsim : Sim s P := sim_reachable hc
  have hbounds := bounds_reachable hc
  unfold Reported
  by_cases hzero : memp.size = 0
  · rw [if_pos hzero]
    exact truthful_empty_iff hsim.root hzero hbase hbounds mrp
  · rw [if_neg hzero]
    have hpos : 0 < memp.size := by omega
    cases mrp with
    | none => exact ⟨fun _ => .inl rfl, fun _ => truthful_enomem hsim.root hpos hbase⟩
    | some p =>
      simp only [reduceCtorEq, false_or]
      by_cases hend : memp.base + memp.size ≤ 2 ^ 64
      · rw [truthful_iff hsim.root hpos hend]
        exact ⟨fun hclear => ⟨hend, hclear⟩, fun hboth => hboth.2⟩
      · have hinv : (newNode p memp).mrEnd < memp.base := by
          show (memp.base + memp.size + (2 ^ 64 - 1)) % 2 ^ 64 < memp.base
          omega
        exact ⟨fun htrue => absurd htrue (not_truthful_inverted hsim.root hinv (.inr (by omega)) hbounds),
          fun hboth => absurd hboth.1 hend⟩

/-- A range that abuts a registered one. -/
theorem registerMem_abutting :
    let R : SearchTree.Rebalance MmioRbRange := ⟨id, id, fun _ => rfl, fun _ => rfl⟩
    let mr : MemRange := ⟨1, 3, 10, 0, 0, 0x1000, 0x100⟩
    ∃ s, System.exec (next R) (initMem, ⟨[], []⟩) [.registerMem (some 7) mr] = some (s, ⟨[mr], []⟩) ∧
      Truthful R s [mr] (some 8) ⟨2, 3, 20, 0, 0, 0x1100, 0x100⟩ := by
  intro R mr
  have hplain : (System.exec (next R) (initMem, ⟨[], []⟩) [.registerMem (some 7) mr]).map Prod.snd = some ⟨[mr], []⟩ := by
    decide +kernel
  obtain ⟨⟨s, P⟩, hrun, rfl⟩ := Option.map_eq_some_iff.mp hplain
  have hreach : (system R).Reachable (s, ⟨[mr], []⟩) := System.exec_reachable (.init rfl) hrun
  refine ⟨s, hrun, ?_⟩
  have htrue := registerMem_truthful R s ⟨[mr], []⟩ hreach (some 8) ⟨2, 3, 20, 0, 0, 0x1100, 0x100⟩ (by decide) (by decide)
  refine htrue.mpr (.inr ⟨by decide, ?_⟩)
  decide

/-- A range that begins in the middle of a registered one: 0 is returned and the tree is left as it was. -/
theorem registerMem_swallowed :
    let R : SearchTree.Rebalance MmioRbRange := ⟨id, id, fun _ => rfl, fun _ => rfl⟩
    let mr : MemRange := ⟨1, 3, 10, 0, 0, 0x1000, 0x100⟩
    let memp : MemRange := ⟨2, 3, 20, 0, 0, 0x1080, 0x100⟩
    ∃ s, System.exec (next R) (initMem, ⟨[], []⟩) [.registerMem (some 7) mr] = some (s, ⟨[mr], []⟩) ∧
      (registerMem R s (some 8) memp).1 = .ok ∧
      (registerMem R s (some 8) memp).2.mmioRbRoot = s.mmioRbRoot ∧ ¬ Truthful R s [mr] (some 8) memp := by
  intro R mr memp
  have hplain : (System.exec (next R) (initMem, ⟨[], []⟩) [.registerMem (some 7) mr]).map Prod.snd = some ⟨[mr], []⟩ := by
    decide +kernel
  obtain ⟨⟨s, P⟩, hrun, rfl⟩ := Option.map_eq_some_iff.mp hplain
  have hreach : (system R).Reachable (s, ⟨[mr], []⟩) := System.exec_reachable (.init rfl) hrun
  have hsim : Sim s ⟨[mr], []⟩ := sim_reachable hreach
  have hcovered : ¬ ∀ mr' ∈ [mr], mr'.contains memp.base = false := by decide
  refine ⟨s, hrun, ?_⟩
  rcases registerMem_cases hsim.root R 8 memp with ⟨-, hok, hroot⟩ | ⟨hnone, -⟩
  · exact ⟨hok, hroot, fun htrue => hcovered ((truthful_iff hsim.root (by decide) (by decide)).mp htrue)⟩
  · exact absurd ((lookup_none_iff hsim.root _).mp hnone) hcovered

end Xhyve.Emul.Mem
