import Xhyve.Vmm.TaskSwitchFrame

/-!
# Exceptions of a task switch

Helpers that access guest memory return 0 with a fault flag behind an exception; those that check
selectors and descriptors return 1. `CHKERR` knows the first convention only, so a switch returns to the
guest with its exception exactly if no check fails.
-/

namespace Xhyve.Vmm.TaskSwitch

open Xhyve.Lib Xhyve.Lib.Mem Xhyve.Lib.Fallible
open Xhyve.Vmm.PageWalk

/-! ## From the commit on -/

/-- The switch is going on, with a CR3 that can be walked. -/
def Running (g : Guest) : Prop := g.pending = none ∧ PagingOk g.paging

section Enter
variable {vm : Vm} {x : TaskExit}

theorem Going.running {g g' : Guest} (h : Going vm g g') (hg : Running g) : Running g' :=
  ⟨h.2, h.1.paging ▸ hg.2⟩

/-- A part that only accesses memory. -/
theorem running_spec (vm : Vm) {α : Type} {y : TaskM α} {g : Guest} (hg : Running g)
    (h : Spec (Going vm g) y (fun _ => Going vm g) (Halted vm g)) :
    Spec (fun t => t = g) y (fun _ => Running) Tells :=
  h.weaken (fun _ hs => hs.symm ▸ .refl vm hg.1) (fun _ _ hs => hs.running hg) fun _ _ he => he.1

theorem setreg_spec (r : Reg) (val : Nat) : Spec Running (setreg r val) (fun _ => Running) Tells :=
  Spec.modify fun _ hs => hs

theorem updateSegDesc_spec (seg : Seg) (sd : SegDesc) :
    Spec Running (updateSegDesc seg sd) (fun _ => Running) Tells :=
  Spec.modify fun _ hs => hs

theorem commit_spec (nt : NewTask) : Spec Running (commit x nt) (fun _ => Running) Tells := by
  refine Spec.bind (setreg_spec _ _) fun _ => Spec.bind (updateSegDesc_spec _ _) fun _ => ?_
  refine Spec.bind (Q := fun _ => Running) ?_ fun cr0 => ?_
  · exact Spec.bind_get fun g hg => Spec.pure fun s hs => hs ▸ hg
  exact Spec.bind (setreg_spec _ _) fun _ => setreg_spec _ _

theorem restorePdptes_spec (cr3 : Nat) : Spec Running (restorePdptes vm cr3) (fun _ => Running) Tells := by
  unfold restorePdptes
  cases mapGpa vm (cr3 &&& 0xffffffe0) 32 with
  | none => exact Spec.throw fun s hs => hs.1
  | some va =>
    refine Spec.bind_get fun g hg => ?_
    refine Spec.bind (Q := fun _ => Running) ?_ fun _ => Spec.forM fun i => setreg_spec _ _
    refine Spec.check (fun _ => ?_) fun _ s hs => hs ▸ hg
    exact running_spec vm hg (inject_spec (Or.inr (Or.inl rfl)) _)

theorem restoreCr3_spec {cr3 : Nat} (h : cr3 < 2 ^ 32) :
    Spec Running (restoreCr3 vm cr3) (fun _ => Running) Tells := by
  refine Spec.bind_get fun g hg => ?_
  refine Spec.bind (Q := fun _ => Running) ?_ fun _ => ?_
  · refine Spec.check (fun _ => ?_) fun _ s hs => hs ▸ hg
    exact (restorePdptes_spec cr3).weaken (fun s hs => hs ▸ hg) (fun _ _ hs => hs) fun _ _ he => he
  · refine Spec.check (fun _ => ?_) fun _ s hs => hs
    refine Spec.bind (setreg_spec _ _) fun _ => Spec.modify fun s hs => ⟨hs.1, fun _ => ?_⟩
    rw [BitVec.toNat_ofNat]
    omega

theorem restoreRegs_spec (tss : Mem) : Spec Running (restoreRegs x tss) (fun _ => Running) Tells := by
  refine Spec.bind (setreg_spec _ _) fun _ => Spec.bind (setreg_spec _ _) fun _ => ?_
  exact Spec.bind (Spec.forM fun f => setreg_spec _ _) fun _ => Spec.forM fun f => setreg_spec _ _

theorem inTable_of_selFits {g : Guest} {kind : SegKind} {sel : Nat} (h : selFits g kind sel = true) :
    inTable g sel = true := by
  unfold selFits at h
  simp only [decide_eq_true_eq] at h
  exact h.2.1

theorem validateSegDesc_spec {seg : Seg} (hseg : seg ≠ .tr) :
    Spec Running (validateSegDesc vm x seg) (fun _ => Running) Tells := by
  unfold validateSegDesc
  cases hkind : seg.kind with
  | none =>
    have htr : seg = .tr := by
      cases seg <;> first | rfl | cases hkind
    exact absurd htr hseg
  | some kind =>
    refine Spec.bind_get fun g hg => running_spec vm hg ?_
    simp only
    generalize g.regs (.sel seg) % 2 ^ 16 = sel
    refine Spec.bind (Q := fun _ t => selFits g kind sel = true ∧ Going vm g t) ?_ fun _ =>
      Spec.assume fun hfits => Spec.ite (fun _ => Spec.pure fun _ hs => hs) fun _ => ?_
    · refine Spec.check (fun _ => raise_spec (Or.inr (Or.inl rfl)) _ _ _) fun hfits s hs => ⟨?_, hs⟩
      simpa using hfits
    refine Spec.bind (descTableRead_spec (pagingOk_sup hg.2) (inTable_of_selFits hfits)) fun usd => ?_
    refine Spec.bind (Q := fun _ => Going vm g) ?_ fun _ => Spec.pure fun _ hs => hs
    exact Spec.check (fun _ => raise_spec (Or.inr (Or.inl rfl)) _ _ _) fun _ s hs => hs

theorem loadSeg_spec {seg : Seg} (hseg : seg ≠ .tr) :
    Spec Running (loadSeg vm x seg) (fun _ => Running) Tells :=
  Spec.bind (validateSegDesc_spec hseg) fun sd => updateSegDesc_spec seg sd

theorem restoreSegs_spec (tss : Mem) : Spec Running (restoreSegs vm x tss) (fun _ => Running) Tells := by
  refine Spec.bind (loadSeg_spec (by decide)) fun _ => ?_
  refine Spec.bind (validateSegDesc_spec (by decide)) fun cs => ?_
  refine Spec.bind (validateSegDesc_spec (by decide)) fun ss => ?_
  refine Spec.bind (updateSegDesc_spec _ _) fun _ => Spec.bind (updateSegDesc_spec _ _) fun _ => ?_
  refine Spec.bind (Q := fun _ => Running) (Spec.modify fun _ hs => hs) fun _ => ?_
  refine Spec.bind (loadSeg_spec (by decide)) fun _ => Spec.bind (loadSeg_spec (by decide)) fun _ => ?_
  exact Spec.bind (loadSeg_spec (by decide)) fun _ => loadSeg_spec (by decide)

theorem tss32Restore_spec (otSel : Nat) (tss : Mem) (iov : Iov) :
    Spec Running (tss32Restore vm x otSel tss iov) (fun _ => Running) Tells := by
  refine Spec.bind (setreg_spec _ _) fun _ => ?_
  refine Spec.bind (restoreCr3_spec (load_lt 4 _ _)) fun _ => Spec.bind (restoreRegs_spec _) fun _ => ?_
  refine Spec.bind (Q := fun _ => Running) ?_ fun _ => restoreSegs_spec _
  exact Spec.check (fun _ => Spec.modify fun _ hs => hs) fun _ _ hs => hs

theorem pushErrcode_spec (type errcode : Nat) :
    Spec Running (pushErrcode vm type errcode) (fun _ => Running) Tells := by
  refine Spec.bind_get fun g hg => ?_
  simp only
  have hbytes : (if type = sdtSys386bsy ∨ type = sdtSys386tss then 4 else 2) ≤ 4096 := by
    split <;> omega
  generalize (if type = sdtSys386bsy ∨ type = sdtSys386tss then 4 else 2) = bytes at hbytes ⊢
  have hgoing : ∀ s, s = g → Going vm g s := fun s hs => hs.symm ▸ .refl vm hg.1
  split
  · exact (raise_spec (Or.inl rfl) _ _ _).weaken hgoing (fun _ _ hs => hs) fun _ _ he => he.1
  rename_i gla _
  suffices h : Spec (Going vm g) _ (fun _ => Running) (Halted vm g) from
    h.weaken hgoing (fun _ _ hs => hs) fun _ _ he => he.1
  refine Spec.bind (Q := fun _ => Going vm g) ?_ fun _ => ?_
  · exact Spec.check (fun _ => inject_spec (Or.inl rfl) _) fun _ _ hs => hs
  refine Spec.bind (copySetup_spec hg.2 hbytes) fun iov => ?_
  refine Spec.bind (Q := fun _ => Running) (Spec.modify fun s hs => hs.running hg) fun _ => ?_
  exact Spec.modify fun _ hs => hs

theorem enterNew_spec (herr : x.errcodeValid = true → x.ext = true ∧ x.reason = .idtGate) (nt : NewTask)
    (ot : OldTask) : Spec Running (enterNew vm x nt ot) (fun _ => Running) Tells := by
  refine Spec.bind (commit_spec nt) fun _ => Spec.bind (tss32Restore_spec _ _ _) fun _ => ?_
  refine Spec.bind (Q := fun _ => Running) ?_ fun _ => ?_
  · refine Spec.check (fun hvalid => ?_) fun _ _ hs => hs
    obtain ⟨hext, hreason⟩ := herr hvalid
    refine Spec.bind (Q := fun _ => Running) ?_ fun _ => pushErrcode_spec _ _
    refine Spec.check (fun hbad => ?_) fun _ _ hs => hs
    rw [hext, hreason] at hbad
    simp at hbad
  · exact Spec.check (fun _ => Spec.modify fun _ hs => hs) fun _ _ hs => hs

end Enter

/-! ## The whole switch -/

section Whole
variable {vm : Vm} {x : TaskExit} {g : Guest}

theorem Promised.running (h : Promised x g) {g' : Guest} (hw : Written g g') : Running g' :=
  ⟨hw.2, by rw [hw.1.paging, h.paging]; exact h.cr3⟩

theorem leaveOld_spec (h : Promised x g) :
    Spec (fun t => t = g) (leaveOld vm x) (fun _ => Running) Tells := by
  rw [leaveOld_eq]
  refine Spec.bind (h.saved.weaken (fun _ hs => hs) (fun _ _ hs => hs) fun _ _ he => he.1) fun p =>
    Spec.assume fun hin => ?_
  exact Spec.bind (markNew_spec h.cr3 hin p.1) fun _ => Spec.pure fun _ hs => h.running hs

/-- Every stop tells whether an exception is pending, and no assertion but that of `CHKERR` fails. -/
theorem taskSwitch_spec (h : Promised x g) :
    Spec (fun t => t = g) (taskSwitch vm x) (fun _ => Running) Tells :=
  Spec.bind (leaveOld_spec h) fun p => enterNew_spec h.errcode p.1 p.2

end Whole

/-! ## Helpers that `CHKERR` understands -/

/-- The two stops that do not lead back to the run loop. -/
def Unhandled (r : Ret) : Prop := r = .one ∨ r = .null

section Handled
variable {vm : Vm} {x : TaskExit} {pg : GuestPaging} {sel : Nat}

theorem injectFault_handled (e : PendingException) (g : Guest) : Never Unhandled (injectFault e) g := by
  refine never_bind_of (fun _ => never_get) (fun s => never_bind_of (fun _ => ?_) fun _ _ => ?_) g
  · exact never_check fun _ => never_throw.mpr (by simp [Unhandled])
  · exact never_modify

theorem inject_handled {α : Type} {r : Ret} (hr : ¬ Unhandled r) (e : PendingException) (g : Guest) :
    Never Unhandled (do injectFault e; throw r : TaskM α) g :=
  never_bind_of (injectFault_handled e) (fun _ _ => never_throw.mpr hr) g

theorem gla2gpa_handled (gla prot : Nat) (g : Guest) : Never Unhandled (gla2gpa vm pg gla prot) g := by
  refine never_bind_of (fun _ => never_get) (fun s t => ?_) g
  split
  · exact never_throw.mpr (by simp [Unhandled])
  · refine never_bind_of (fun _ => never_modify) (fun _ t => ?_) t
    split
    · exact never_pure
    · exact inject_handled (by simp [Unhandled]) _ t
    · exact inject_handled (by simp [Unhandled]) _ t
    · exact never_throw.mpr (by simp [Unhandled])

theorem copySetup_handled (prot iovcnt gla len : Nat) (g : Guest) :
    Never Unhandled (copySetup vm pg prot iovcnt gla len) g := by
  induction iovcnt generalizing gla len g with
  | zero =>
    cases len with
    | zero => exact never_pure
    | succ len => exact never_throw.mpr (by simp [Unhandled])
  | succ iovcnt ih =>
    cases len with
    | zero => exact never_pure
    | succ len =>
      rw [copySetup]
      refine never_bind_of (gla2gpa_handled gla prot) (fun gpa t => ?_) g
      simp only
      split
      · exact never_throw.mpr (by simp [Unhandled])
      · exact never_bind_of (ih _ _) (fun _ _ => never_pure) t

theorem descTableSetup_handled (prot : Nat) (g : Guest) :
    Never Unhandled (descTableSetup vm pg sel prot) g := by
  refine never_bind_of (fun _ => never_get) (fun s => never_bind_of (fun _ => ?_) fun _ => ?_) g
  · exact never_check fun _ => never_throw.mpr (by simp [Unhandled])
  · exact copySetup_handled _ _ _ _

theorem copyin_handled (iov : Iov) (g : Guest) : Never Unhandled (copyin iov) g :=
  never_bind_of (fun _ => never_get) (fun _ _ => never_pure) g

theorem descTableRead_handled (g : Guest) : Never Unhandled (descTableRead vm pg sel) g :=
  never_bind_of (descTableSetup_handled _)
    (fun iov => never_bind_of (copyin_handled iov) fun _ _ => never_pure) g

theorem descTableWrite_handled (usd : Nat) (g : Guest) :
    Never Unhandled (descTableWrite vm pg sel usd) g :=
  never_bind_of (descTableSetup_handled _) (fun _ _ => never_modify) g

theorem saveOld_handled (nt : NewTask) (ot : OldTask) (g : Guest) :
    Never Unhandled (saveOld vm x nt ot) g := by
  refine never_bind_of (fun t => ?_) (fun _ => never_bind_of (fun t => ?_) fun _ => ?_) g
  · exact never_check fun _ => descTableWrite_handled _ t
  · exact never_check fun _ => never_throw.mpr (by simp [Unhandled])
  · exact never_bind_of (fun _ => never_get) fun _ _ => never_modify

theorem markNew_handled (nt : NewTask) (g : Guest) : Never Unhandled (markNew vm x nt) g :=
  never_check fun _ => descTableWrite_handled _ g

theorem commit_handled (nt : NewTask) (g : Guest) : Never Unhandled (commit x nt) g := by
  refine never_bind_of (fun _ => never_modify) (fun _ => never_bind_of (fun _ => never_modify) fun _ => ?_) g
  refine never_bind_of (never_bind_of (fun _ => never_get) fun _ _ => never_pure) fun _ => ?_
  exact never_bind_of (fun _ => never_modify) fun _ _ => never_modify

theorem restoreRegs_handled (tss : Mem) (g : Guest) : Never Unhandled (restoreRegs x tss) g := by
  refine never_bind_of (fun _ => never_modify) (fun _ => never_bind_of (fun _ => never_modify) fun _ => ?_) g
  exact never_bind_of (never_forM fun _ _ => never_modify) fun _ => never_forM fun _ _ => never_modify

theorem pushErrcode_handled (type errcode : Nat) (g : Guest) :
    Never Unhandled (pushErrcode vm type errcode) g := by
  refine never_bind_of (fun _ => never_get) (fun s t => ?_) g
  simp only
  split
  · exact inject_handled (by simp [Unhandled]) _ t
  · refine never_bind_of (fun _ => never_check fun _ => inject_handled (by simp [Unhandled]) _ _) (fun _ => ?_) t
    refine never_bind_of (copySetup_handled _ _ _ _) fun _ => ?_
    exact never_bind_of (fun _ => never_modify) fun _ _ => never_modify

end Handled

/-! ## The checks -/

/-- The selector and the descriptor of a segment pass their checks. -/
def SegPasses (vm : Vm) (seg : Seg) (g : Guest) : Prop :=
  ∀ kind, seg.kind = some kind →
    let sel := g.regs (.sel seg) % 2 ^ 16
    selFits g kind sel = true ∧ (idxsel sel ≠ 0 → After (descTableRead vm (sup g.paging) sel)
      (fun usd _ => descFits kind (selRpl (g.regs (.sel .cs) % 2 ^ 16)) sel usd = true) g)

/-- The PDPTEs are in guest memory and have no reserved bit set. -/
def PdptesPass (vm : Vm) (cr3 : Nat) (g : Guest) : Prop :=
  g.paging.pagingMode = .pae → ∃ va, mapGpa vm (cr3 &&& 0xffffffe0) 32 = some va ∧
    ∀ i, pdpteReserved (pdpteAt g.mem va i) = false

section Exact
variable {vm : Vm} {x : TaskExit} {g g₀ : Guest}

theorem inject_unhandled {α : Type} (hg : g.pending = none) (e : PendingException) :
    ¬ Never Unhandled (do injectFault e; throw .one : TaskM α) g := by
  intro h
  refine h .one { g with pending := some e } ?_ (Or.inl rfl)
  rw [bind_of_ok (injectFault_none hg e)]
  rfl

theorem readTssDescriptor_exact {sel : Nat} (hsel : GdtSel sel) :
    Exact Unhandled (Going vm g₀) (readTssDescriptor vm x sel) fun _ => inTable g₀ sel = true := by
  refine Exact.bind_get fun g hg => ?_
  rw [check_neg hsel, pure_bind]
  refine (Exact.refuse_only (fun s hs => ?_) descTableRead_handled).congr fun _ _ => ?_
  · rw [hs]
    exact inject_unhandled hg.2 _
  · rw [inTable_same hg.1.toSame]
    simp

theorem fetchNew_exact (hsel : GdtSel x.tsssel) :
    Exact Unhandled (Going vm g₀) (fetchNew vm x) fun _ => inTable g₀ x.tsssel = true := by
  refine Exact.before (readTssDescriptor_exact hsel) fun desc s => ?_
  cases unfitTss x (usdToSegDesc desc) with
  | some vector => exact inject_handled (by simp [Unhandled]) _ s
  | none =>
    exact never_bind_of (copySetup_handled _ _ _ _)
      (fun iov => never_bind_of (copyin_handled iov) fun _ _ => never_pure) s

theorem fetchOld_exact (htr : trLoaded (g₀.descs .tr).access = true) (nt : NewTask) :
    Exact Unhandled (Going vm g₀) (fetchOld vm x nt)
      fun _ => GdtSel (trSel g₀) → inTable g₀ (trSel g₀) = true := by
  refine Exact.bind_get fun g hg => ?_
  have htrSel : trSel g = trSel g₀ := by rw [trSel, hg.1.regs, trSel]
  rw [show g.regs (.sel .tr) % 2 ^ 16 = trSel g from rfl, htrSel, hg.1.descs, htr]
  simp only
  by_cases hsel : GdtSel (trSel g₀)
  · rw [check_neg hsel, pure_bind, check_neg (by simp), pure_bind]
    have hread : Exact Unhandled (fun t => t = g) (readTssDescriptor vm x (trSel g₀)) _ :=
      fun s hs => readTssDescriptor_exact hsel s (hs ▸ hg)
    refine (Exact.before hread fun desc => ?_).congr fun _ _ => (imp_iff_right hsel).symm
    exact never_bind_of (copySetup_handled _ _ _ _) fun iov =>
      never_bind_of (copyin_handled iov) fun _ _ => never_pure
  · refine fun s hs => iff_of_true ?_ fun h => absurd h hsel
    rw [check_pos (not_not.mp hsel)]
    refine never_bind.mpr ⟨inject_handled (by simp [Unhandled]) _ s, fun _ t ht => ?_⟩
    have hraise : Spec (Going vm g₀) (raise PUnit idtTS (trSel g₀) x.ext .done) (fun _ _ => False)
        (Halted vm g₀) := raise_spec (Or.inr (Or.inr rfl)) _ _ _
    exact absurd ((hraise s (hs ▸ hg)).1 _ t ht) id

theorem leaveOld_exact (h : Promised x g) :
    Exact Unhandled (fun t => t = g) (leaveOld vm x) fun t => inTable g x.tsssel = true ∧
      After (fetchNew vm x) (fun _ _ => GdtSel (trSel g) → inTable g (trSel g) = true) t := by
  have hpg : PagingOk g.paging := h.paging ▸ h.cr3
  suffices hexact : Exact Unhandled (Going vm g) (leaveOld vm x) _ from
    fun t ht => hexact t (ht.symm ▸ .refl vm h.pending)
  rw [leaveOld, check_neg (not_not.mpr h.mode), pure_bind]
  refine Exact.bind (fetchNew_spec hpg h.cr3 h.tss) (fetchNew_exact h.tss) fun nt s hs => ?_
  refine (Exact.before (fetchOld_exact h.task nt) fun ot => ?_) s hs.2
  refine never_bind_of (saveOld_handled nt ot) fun _ => ?_
  exact never_bind_of (markNew_handled nt) fun _ _ => never_pure

theorem restorePdptes_exact (cr3 : Nat) : Exact Unhandled Running (restorePdptes vm cr3) fun g =>
    ∃ va, mapGpa vm (cr3 &&& 0xffffffe0) 32 = some va ∧
      ∀ i, pdpteReserved (pdpteAt g.mem va i) = false := by
  unfold restorePdptes
  cases mapGpa vm (cr3 &&& 0xffffffe0) 32 with
  | none =>
    refine fun s _ => iff_of_false (fun h => ?_) (by simp)
    exact never_throw.mp h (Or.inr rfl)
  | some va =>
    refine Exact.bind_get fun g hg => ?_
    refine (Exact.refuse_only (fun s hs => ?_) (never_forM fun _ _ => never_modify)).congr fun s hs => ?_
    · exact inject_unhandled (hs ▸ hg.1) _
    · rw [hs]
      simp

theorem restoreCr3_exact (cr3 : Nat) :
    Exact Unhandled Running (restoreCr3 vm cr3) (PdptesPass vm cr3) := by
  refine Exact.bind_get fun g hg => ?_
  have hrest : ∀ (a : PUnit) s, Never Unhandled (check (g.paging.pagingMode ≠ .flat) do
      setreg .cr3 cr3
      modify fun g => { g with paging := { g.paging with cr3 := BitVec.ofNat 64 cr3 } }) s :=
    fun _ _ => never_check fun _ => never_bind_of (fun _ => never_modify) (fun _ _ => never_modify) _
  by_cases hpae : g.paging.pagingMode = .pae
  · rw [check_pos hpae]
    have hexact : Exact Unhandled (fun t => t = g) (restorePdptes vm cr3) _ :=
      fun s hs => restorePdptes_exact cr3 s (hs ▸ hg)
    refine (Exact.before hexact hrest).congr fun s hs => ?_
    rw [PdptesPass, hs]
    exact (imp_iff_right hpae).symm
  · rw [check_neg hpae, pure_bind]
    refine fun s hs => iff_of_true (hrest ⟨⟩ s) fun h => ?_
    rw [hs] at h
    contradiction

theorem validateSegDesc_exact (seg : Seg) :
    Exact Unhandled Running (validateSegDesc vm x seg) (SegPasses vm seg) := by
  unfold validateSegDesc SegPasses
  cases seg.kind with
  | none => exact fun s _ => iff_of_true (never_throw.mpr (by simp [Unhandled])) (by simp)
  | some kind =>
    refine Exact.bind_get fun g hg => ?_
    simp only [Option.some.injEq, forall_eq']
    generalize hsel : g.regs (.sel seg) % 2 ^ 16 = sel
    refine (Exact.refuse (C := fun _ => idxsel sel ≠ 0 → After (descTableRead vm (sup g.paging) sel)
      (fun usd _ => descFits kind (selRpl (g.regs (.sel .cs) % 2 ^ 16)) sel usd = true) g)
      (fun s hs => inject_unhandled (hs ▸ hg.1) _) fun hfits => ?_).congr fun s hs => ?_
    · have hin := inTable_of_selFits (by simpa using hfits)
      split
      · exact fun s _ => iff_of_true never_pure fun hbad => absurd ‹_› hbad
      · intro s hs
        rw [hs, imp_iff_right ‹_›]
        refine Exact.behind (descTableRead_spec (pagingOk_sup hg.2) hin) descTableRead_handled
          (fun usd => ?_) g (.refl vm hg.1)
        refine Exact.congr (P := Going vm g) (Exact.refuse_only (fun s hs => ?_) fun _ => never_pure)
          fun _ _ => ?_
        · exact inject_unhandled hs.2 _
        · simp
    · rw [hs, hsel]
      simp

theorem loadSeg_exact (seg : Seg) : Exact Unhandled Running (loadSeg vm x seg) (SegPasses vm seg) :=
  Exact.before (validateSegDesc_exact seg) fun _ _ => never_modify

end Exact

/-- `tss32_restore` from the LDT to the privilege level of the new task. -/
def stackLoaded (vm : Vm) (x : TaskExit) (tss : Mem) : TaskM PUnit := do
  loadSeg vm x .ldtr
  let cs ← validateSegDesc vm x .cs
  let ss ← validateSegDesc vm x .ss
  updateSegDesc .cs cs
  updateSegDesc .ss ss
  modify fun g => { g with paging := { g.paging with cpl := selRpl (load 2 tss 76) } }

/-- What it does between the registers and the checks of a segment. -/
def segsBefore (vm : Vm) (x : TaskExit) (tss : Mem) : Seg → TaskM PUnit
  | .ldtr | .tr => return ⟨⟩
  | .cs => loadSeg vm x .ldtr
  | .ss => do
    loadSeg vm x .ldtr
    let _ ← validateSegDesc vm x .cs
    return ⟨⟩
  | .ds => stackLoaded vm x tss
  | .es => do
    stackLoaded vm x tss
    loadSeg vm x .ds
  | .fs => do
    stackLoaded vm x tss
    loadSeg vm x .ds
    loadSeg vm x .es
  | .gs => do
    stackLoaded vm x tss
    loadSeg vm x .ds
    loadSeg vm x .es
    loadSeg vm x .fs

/-- The image of the new TSS that is restored. -/
def newTss (x : TaskExit) (p : NewTask × OldTask) : Mem := tss32Linked x p.2.sel p.1.tss

/-- The switch up to the load of CR3. -/
def toCr3 (vm : Vm) (x : TaskExit) : TaskM (NewTask × OldTask) := do
  let p ← leaveOld vm x
  commit x p.1
  setreg (.sel .ldtr) (load 2 (newTss x p) tssLdt)
  return p

/-- The switch up to the segments. -/
def toSegs (vm : Vm) (x : TaskExit) : TaskM Mem := do
  let p ← toCr3 vm x
  restoreCr3 vm (load 4 (newTss x p) tssCr3)
  restoreRegs x (newTss x p)
  check (nested x) (copyout (newTss x p) p.1.iov)
  return newTss x p

/-- Every check the switch comes to succeeds. -/
structure ChecksPass (vm : Vm) (x : TaskExit) (g : Guest) : Prop where
  newDesc : inTable g x.tsssel = true
  oldDesc : After (fetchNew vm x) (fun _ _ => GdtSel (trSel g) → inTable g (trSel g) = true) g
  pdptes : After (toCr3 vm x) (fun p => PdptesPass vm (load 4 (newTss x p) tssCr3)) g
  segs : ∀ seg, After (toSegs vm x >>= fun tss => segsBefore vm x tss seg) (fun _ => SegPasses vm seg) g

section ChecksPass
variable {vm : Vm} {x : TaskExit} {g : Guest}

theorem stackLoaded_spec (tss : Mem) : Spec Running (stackLoaded vm x tss) (fun _ => Running) Tells := by
  refine Spec.bind (loadSeg_spec (by decide)) fun _ => ?_
  refine Spec.bind (validateSegDesc_spec (by decide)) fun cs => ?_
  refine Spec.bind (validateSegDesc_spec (by decide)) fun ss => ?_
  refine Spec.bind (updateSegDesc_spec _ _) fun _ => Spec.bind (updateSegDesc_spec _ _) fun _ => ?_
  exact Spec.modify fun _ hs => hs

theorem stackLoaded_exact (tss : Mem) : Exact Unhandled Running (stackLoaded vm x tss) fun g =>
    SegPasses vm .ldtr g ∧ After (loadSeg vm x .ldtr) (fun _ g => SegPasses vm .cs g ∧
      After (validateSegDesc vm x .cs) (fun _ => SegPasses vm .ss) g) g := by
  refine Exact.bind (loadSeg_spec (by decide)) (loadSeg_exact .ldtr) fun _ => ?_
  refine Exact.bind (validateSegDesc_spec (by decide)) (validateSegDesc_exact .cs) fun cs => ?_
  refine Exact.before (validateSegDesc_exact .ss) fun ss => never_bind_of (fun _ => never_modify) fun _ => ?_
  exact never_bind_of (fun _ => never_modify) fun _ _ => never_modify

theorem restoreSegs_eq (tss : Mem) : restoreSegs vm x tss = (do
    stackLoaded vm x tss
    loadSeg vm x .ds
    loadSeg vm x .es
    loadSeg vm x .fs
    loadSeg vm x .gs) := by
  simp only [restoreSegs, stackLoaded, bind_assoc]

theorem forall_seg {P : Seg → Prop} : (∀ seg, P seg) ↔
    P .es ∧ P .cs ∧ P .ss ∧ P .ds ∧ P .fs ∧ P .gs ∧ P .ldtr ∧ P .tr := by
  constructor
  · exact fun h => ⟨h _, h _, h _, h _, h _, h _, h _, h _⟩
  · rintro ⟨hes, hcs, hss, hds, hfs, hgs, hldtr, htr⟩ seg
    cases seg <;> assumption

theorem segPasses_tr (g : Guest) : SegPasses vm .tr g := fun _ hkind => by cases hkind

theorem restoreSegs_exact (tss : Mem) : Exact Unhandled Running (restoreSegs vm x tss) fun g =>
    ∀ seg, After (segsBefore vm x tss seg) (fun _ => SegPasses vm seg) g := by
  rw [restoreSegs_eq]
  refine Exact.congr (Exact.bind (stackLoaded_spec tss) (stackLoaded_exact tss) fun _ =>
    Exact.bind (loadSeg_spec (by decide)) (loadSeg_exact .ds) fun _ =>
    Exact.bind (loadSeg_spec (by decide)) (loadSeg_exact .es) fun _ =>
    Exact.bind (loadSeg_spec (by decide)) (loadSeg_exact .fs) fun _ => loadSeg_exact .gs) fun s _ => ?_
  simp only [forall_seg, segsBefore, after_bind, after_pure, after_and, segPasses_tr]
  tauto

/-- From the load of CR3 on. -/
def RestPasses (vm : Vm) (x : TaskExit) (tss : Mem) (iov : Iov) (g : Guest) : Prop :=
  PdptesPass vm (load 4 tss tssCr3) g ∧ After (restoreCr3 vm (load 4 tss tssCr3)) (fun _ =>
    After (restoreRegs x tss) fun _ => After (check (nested x) (copyout tss iov)) fun _ g =>
      ∀ seg, After (segsBefore vm x tss seg) (fun _ => SegPasses vm seg) g) g

theorem tss32Restore_exact (p : NewTask × OldTask) :
    Exact Unhandled Running (tss32Restore vm x p.2.sel p.1.tss p.1.iov)
      (After (setreg (.sel .ldtr) (load 2 (newTss x p) tssLdt)) fun _ =>
        RestPasses vm x (newTss x p) p.1.iov) := by
  refine Exact.behind (setreg_spec _ _) (fun _ => never_modify) fun _ => ?_
  refine Exact.bind (restoreCr3_spec (load_lt 4 _ _)) (restoreCr3_exact _) fun _ => ?_
  refine Exact.behind (restoreRegs_spec _) (restoreRegs_handled _) fun _ => ?_
  refine Exact.behind (Q := fun _ => Running) (E := Tells) ?_ ?_ fun _ => restoreSegs_exact _
  · exact Spec.check (fun _ => Spec.modify fun _ hs => hs) fun _ _ hs => hs
  · exact fun _ => never_check fun _ => never_modify

theorem enterNew_exact (p : NewTask × OldTask) :
    Exact Unhandled Running (enterNew vm x p.1 p.2) (After (commit x p.1) fun _ =>
      After (setreg (.sel .ldtr) (load 2 (newTss x p) tssLdt)) fun _ =>
        RestPasses vm x (newTss x p) p.1.iov) := by
  refine Exact.behind (commit_spec p.1) (commit_handled p.1) fun _ => ?_
  refine Exact.before (tss32Restore_exact p) fun _ => never_bind_of (fun s => ?_) fun _ _ => ?_
  · refine never_check fun _ => never_bind_of (fun _ => ?_) (fun _ => pushErrcode_handled _ _) s
    exact never_check fun _ => never_throw.mpr (by simp [Unhandled])
  · exact never_check fun _ => never_modify

/-- The checks behind the commit, each at the place the switch comes to it. -/
theorem after_leaveOld_iff : After (leaveOld vm x) (fun p => After (commit x p.1) fun _ =>
      After (setreg (.sel .ldtr) (load 2 (newTss x p) tssLdt)) fun _ =>
        RestPasses vm x (newTss x p) p.1.iov) g ↔
    After (toCr3 vm x) (fun p => PdptesPass vm (load 4 (newTss x p) tssCr3)) g ∧
    ∀ seg, After (toSegs vm x >>= fun tss => segsBefore vm x tss seg) (fun _ => SegPasses vm seg) g := by
  simp only [toSegs, toCr3, after_bind, after_pure, ← after_forall, ← after_and]
  rfl

theorem taskSwitch_exact (h : Promised x g) :
    Exact Unhandled (fun t => t = g) (taskSwitch vm x) (ChecksPass vm x) := by
  refine (Exact.bind (leaveOld_spec h) (leaveOld_exact h) enterNew_exact).congr fun s hs => ?_
  rw [after_leaveOld_iff, hs]
  constructor
  · rintro ⟨⟨hnew, hold⟩, hpdptes, hsegs⟩
    exact ⟨hnew, hold, hpdptes, hsegs⟩
  · rintro ⟨hnew, hold, hpdptes, hsegs⟩
    exact ⟨⟨hnew, hold⟩, hpdptes, hsegs⟩

/-- The exit is answered with a return to the guest or an abort, and with a return exactly where a helper
asked for it, with its exception pending. -/
structure Reports (vm : Vm) (x : TaskExit) (g : Guest) : Prop where
  returns : (vmexitTaskSwitch vm x g).1 = .continue ∨ (vmexitTaskSwitch vm x g).1 = .abort
  abandons : ∀ r g', taskSwitch vm x g = .error r g' → Injected r →
    vmexitTaskSwitch vm x g = (.continue, g') ∧ g'.pending ≠ none
  stops : (vmexitTaskSwitch vm x g).2.pending ≠ none → ∃ r g', taskSwitch vm x g = .error r g' ∧ Injected r

/-- What `CHKERR` makes of a stop it understands. -/
theorem chkerr_cases {r : Ret} (ht : Tells r g) (hn : ¬ Unhandled r) :
    Injected r ∧ chkerr r = .continue ∧ g.pending ≠ none ∨
      ¬ Injected r ∧ chkerr r = .abort ∧ g.pending = none := by
  cases r with
  | fault => exact Or.inl ⟨Or.inl rfl, rfl, ht⟩
  | one => exact absurd (Or.inl rfl) hn
  | efault => exact Or.inr ⟨by simp [Injected], rfl, ht⟩
  | done => exact Or.inl ⟨Or.inr (Or.inr rfl), rfl, ht⟩
  | unsupported => exact Or.inr ⟨by simp [Injected], rfl, ht⟩
  | assertion => exact absurd ht id
  | null => exact absurd (Or.inr rfl) hn
  | diverged => exact absurd ht id

theorem reports_iff_never (h : Promised x g) :
    Reports vm x g ↔ Never Unhandled (taskSwitch vm x) g := by
  have hspec : Spec (fun t => t = g) (taskSwitch vm x) (fun _ => Running) Tells := taskSwitch_spec h
  obtain ⟨hok, herr⟩ := hspec g rfl
  constructor
  · intro hr r g' hrun hbad
    have hret := hr.returns
    unfold vmexitTaskSwitch at hret
    rw [hrun] at hret
    rcases hbad with rfl | rfl <;> simp [chkerr] at hret
  · intro hn
    cases hrun : taskSwitch vm x g with
    | ok a g' =>
      have hexit : vmexitTaskSwitch vm x g = (.continue, g') := by rw [vmexitTaskSwitch, hrun]
      refine ⟨Or.inl (by rw [hexit]), fun r g'' h => (by cases hrun.symm.trans h), fun hp => ?_⟩
      rw [hexit] at hp
      exact absurd (hok a g' hrun).1 hp
    | error r g' =>
      have hexit : vmexitTaskSwitch vm x g = (chkerr r, g') := by rw [vmexitTaskSwitch, hrun]
      rcases chkerr_cases (herr r g' hrun) (hn r g' hrun) with ⟨hr, hc, hp⟩ | ⟨hr, hc, hp⟩
      · rw [hc] at hexit
        refine ⟨Or.inl (by rw [hexit]), fun r' g'' h _ => ?_, fun _ => ⟨r, g', hrun, hr⟩⟩
        cases hrun.symm.trans h
        exact ⟨hexit, hp⟩
      · rw [hc] at hexit
        refine ⟨Or.inr (by rw [hexit]), fun r' g'' h hr' => ?_, fun hp' => ?_⟩
        · cases hrun.symm.trans h
          exact absurd hr' hr
        · rw [hexit] at hp'
          exact absurd hp hp'

end ChecksPass

/-- A task switch reports every exception to the guest exactly if its checks of selectors, PDPTEs and
descriptors succeed. -/
theorem reports_iff_checksPass (vm : Vm) (x : TaskExit) (g : Guest) (h : Promised x g) :
    Reports vm x g ↔ ChecksPass vm x g :=
  (reports_iff_never h).trans (taskSwitch_exact h g rfl)

/-- A guest with flat paging, a GDT of code, data, the TSS of the running task and another TSS, whose
image has the given LDT selector. -/
def flatGuest (ldt : Nat) : Guest where
  regs
    | .sel .tr => 0x18
    | .sel .cs => 0x8
    | _ => 0
  descs
    | .tr => ⟨0x2000, 0x67, 0x8b⟩
    | _ => ⟨0, 0xffffffff, 0xc093⟩
  gdtr := ⟨0x1000, 0x3f, 0⟩
  mem := [(8, 0x1008, 0x00cf9a000000ffff), (8, 0x1010, 0x00cf92000000ffff),
    (8, 0x1018, 0x00008b0020000067), (8, 0x1020, 0x0000890030000067), (4, 0x3020, 0x100),
    (4, 0x3024, 0x2), (2, 0x3048, 0x10), (2, 0x304c, 0x8), (2, 0x3050, 0x10), (2, 0x3054, 0x10),
    (2, 0x3058, 0x10), (2, 0x305c, 0x10), (2, 0x3060, ldt)].foldl
    (fun m w => store w.1 m w.2.1 w.2.2) fun _ => 0
  pending := none
  intinfo := 0
  paging := ⟨0, 0, .protectedMode, .flat⟩

def flatVm : Vm := ⟨[⟨0, 0x10000⟩], 0x10000, 0⟩

/-- A CALL of the other TSS. -/
def flatExit : TaskExit := ⟨0x20, false, 0, false, .call, ⟨0, 0, .protectedMode, .flat⟩, 0x400, 5⟩

theorem promised_flat (ldt : Nat) : Promised flatExit (flatGuest ldt) where
  mode := rfl
  tss := by
    unfold GdtSel
    decide
  task := by
    show trLoaded 0x8b = true
    decide
  errcode := fun h => by cases h
  pending := rfl
  cr3 := fun h => by cases h
  paging := rfl

/-- The switch to a task without an LDT. -/
theorem reports_iff_checksPass_flat :
    Promised flatExit (flatGuest 0) ∧ ChecksPass flatVm flatExit (flatGuest 0) := by
  have h := promised_flat 0
  have hrun : (vmexitTaskSwitch flatVm flatExit (flatGuest 0)).1 = .continue := by decide +kernel
  refine ⟨h, (reports_iff_checksPass flatVm flatExit (flatGuest 0) h).mp ?_⟩
  refine (reports_iff_never h).mpr fun r g' hr hbad => ?_
  rw [vmexitTaskSwitch, hr] at hrun
  rcases hbad with rfl | rfl <;> cases hrun

/-- With an LDT selector behind the end of the GDT, #TS is injected and the process aborts. -/
theorem not_reported :
    Promised flatExit (flatGuest 0x48) ∧
    (vmexitTaskSwitch flatVm flatExit (flatGuest 0x48)).2.pending = some ⟨idtTS, 0x48, none⟩ ∧
    ¬ Reports flatVm flatExit (flatGuest 0x48) := by
  have hrun : (vmexitTaskSwitch flatVm flatExit (flatGuest 0x48)).1 = .assertionFailed := by
    decide +kernel
  refine ⟨promised_flat 0x48, by decide +kernel, fun hr => ?_⟩
  have hret := hr.returns
  rw [hrun] at hret
  simp at hret

end Xhyve.Vmm.TaskSwitch
