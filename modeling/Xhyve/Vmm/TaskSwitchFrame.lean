import Xhyve.Vmm.PageWalkSdm
import Xhyve.Vmm.TaskSwitch

/-!
# What the steps of a task switch leave alone

Reading guest memory sets accessed and dirty flags in page tables and may raise one exception. Nothing
else changes.
-/

namespace Xhyve.Vmm.TaskSwitch

open Xhyve.Lib Xhyve.Lib.Mem Xhyve.Lib.Fallible
open Xhyve.Vmm.PageWalk
open Xhyve.Vmm.PageWalk.Sdm (translate walkFrom mapped Hierarchy)

/-! ## Page offsets -/

section Offset
variable {H : Hierarchy} {segs : List MemSeg} {user write : Bool} {gla gpa : Nat} {m : Mem}

theorem mapped_mod (hp : H.pse36 = false) (gla e k : Nat) :
    mapped H gla (pageShift + k) e % 4096 = gla % 4096 := by
  have hdvd : (4096 : Nat) ∣ 2 ^ (pageShift + k) := by
    rw [pow_add]
    exact Dvd.intro _ rfl
  unfold mapped
  rw [hp, if_neg (by simp), Nat.zero_add, Nat.add_mod,
    Nat.mod_eq_zero_of_dvd (hdvd.mul_left _), Nat.zero_add, Nat.mod_mod, Nat.mod_mod_of_dvd _ hdvd]

theorem walkFrom_offset (hp : H.pse36 = false) {level base : Nat}
    (h : (walkFrom H segs user write gla m level base).outcome = .page gpa) :
    gpa % 4096 = gla % 4096 := by
  induction level generalizing base with
  | zero =>
    unfold walkFrom at h
    simp only at h
    split at h
    · cases h
    · split at h
      · cases h
      · cases h
        exact mapped_mod hp gla _ _
  | succ level ih =>
    unfold walkFrom at h
    simp only at h
    split at h
    · cases h
    · split at h
      · cases h
      · split at h
        · split at h
          · cases h
          · cases h
            exact mapped_mod hp gla _ _
        · exact ih h

/-- Translation keeps the offset in the page. -/
theorem translate_offset {pg : GuestPaging}
    (h : (translate false segs pg gla user write m).outcome = .page gpa) :
    gpa % 4096 = gla % 4096 := by
  unfold Sdm.translate at h
  simp only at h
  split at h
  · cases h
  · split at h
    · cases h
      rfl
    · exact walkFrom_offset rfl h
    · split at h
      · cases h
      · split at h
        · exact walkFrom_offset rfl h
        · cases h
    · exact walkFrom_offset rfl h

end Offset

/-! ## Frames -/

/-- The memory after walks of page tables: each sets the accessed flag of the entries it uses and, on a
write, the dirty flag of the last. -/
inductive OnlyFlags (segs : List MemSeg) (m : Mem) : Mem → Prop
  | refl : OnlyFlags segs m m
  | walk {m' : Mem} (pg : GuestPaging) (gla : Nat) (write : Bool) : OnlyFlags segs m m' →
      OnlyFlags segs m (marked (entrySize pg.pagingMode) write m'
        (translate false segs pg gla (pg.cpl = 3) write m'))

/-- Registers and segments are the same. -/
structure Same (g g' : Guest) : Prop where
  regs : g'.regs = g.regs
  descs : g'.descs = g.descs
  gdtr : g'.gdtr = g.gdtr
  intinfo : g'.intinfo = g.intinfo
  paging : g'.paging = g.paging

/-- And in memory only flags of page tables have changed. -/
structure Quiet (vm : Vm) (g g' : Guest) : Prop extends Same g g' where
  mem : OnlyFlags vm.segs g.mem g'.mem

theorem Same.refl (g : Guest) : Same g g := ⟨rfl, rfl, rfl, rfl, rfl⟩

theorem Quiet.refl (vm : Vm) (g : Guest) : Quiet vm g g := ⟨.refl g, .refl⟩

theorem Same.trans {g g' g'' : Guest} (h : Same g g') (h' : Same g' g'') : Same g g'' :=
  ⟨h'.regs.trans h.regs, h'.descs.trans h.descs, h'.gdtr.trans h.gdtr, h'.intinfo.trans h.intinfo,
    h'.paging.trans h.paging⟩

theorem Same.withMem {g g' : Guest} (h : Same g g') (m : Mem) : Same g { g' with mem := m } :=
  ⟨h.regs, h.descs, h.gdtr, h.intinfo, h.paging⟩

theorem Quiet.withPending {vm : Vm} {g g' : Guest} (h : Quiet vm g g') (e : Option PendingException) :
    Quiet vm g { g' with pending := e } :=
  ⟨⟨h.regs, h.descs, h.gdtr, h.intinfo, h.paging⟩, h.mem⟩

/-- The switch is going on: no exception is pending. -/
def Going (vm : Vm) (g₀ g : Guest) : Prop := Quiet vm g₀ g ∧ g.pending = none

theorem Going.refl (vm : Vm) {g : Guest} (h : g.pending = none) : Going vm g g := ⟨.refl vm g, h⟩

/-- The helper has injected an exception and wants to return to the guest. -/
def Injected (r : Ret) : Prop := r = .fault ∨ r = .one ∨ r = .done

/-- A stop goes with a pending exception or it does not. Two do not occur at all. -/
def Tells (r : Ret) (g : Guest) : Prop :=
  match r with
  | .fault | .one | .done => g.pending ≠ none
  | .efault | .unsupported | .null => g.pending = none
  | .assertion | .diverged => False

theorem tells_of_injected {r : Ret} {g : Guest} (hr : Injected r) (hp : g.pending ≠ none) :
    Tells r g := by
  rcases hr with rfl | rfl | rfl <;> exact hp

/-- The switch has stopped, with the guest as it was if there is an exception. -/
def Halted (vm : Vm) (g₀ : Guest) (r : Ret) (g : Guest) : Prop :=
  Tells r g ∧ (g.pending ≠ none → Quiet vm g₀ g)

/-- CR3 has no more bits than the mode has. -/
def PagingOk (pg : GuestPaging) : Prop := pg.pagingMode = .bits32 → pg.cr3.toNat < 2 ^ 32

theorem pagingOk_sup {pg : GuestPaging} (h : PagingOk pg) : PagingOk (sup pg) := h

/-! ## Exceptions -/

theorem injectFault_none {g : Guest} (h : g.pending = none) (e : PendingException) :
    injectFault e g = .ok ⟨⟩ { g with pending := some e } := by
  unfold injectFault
  rw [bind_of_ok (show (MonadState.get : TaskM Guest) g = .ok g g from rfl)]
  rw [bind_of_ok (a := ⟨⟩) (t := g)]
  · rfl
  · simp [check, h]
    rfl

section Exceptions
variable {vm : Vm} {g₀ : Guest} {α : Type} {Q : α → Guest → Prop} {r : Ret}

/-- An exception is injected, and the helper returns. -/
theorem inject_spec (hr : Injected r) (e : PendingException) :
    Spec (Going vm g₀) (do injectFault e; throw r : TaskM α) Q (Halted vm g₀) := by
  intro g hg
  rw [bind_of_ok (injectFault_none hg.2 e)]
  refine ⟨fun a t hbad => (by cases hbad), fun r' t h => ?_⟩
  cases h
  exact ⟨tells_of_injected hr (Option.some_ne_none e), fun _ => hg.1.withPending _⟩

theorem raise_spec (hr : Injected r) (vector sel : Nat) (ext : Bool) :
    Spec (Going vm g₀) (raise α vector sel ext r) Q (Halted vm g₀) :=
  inject_spec hr _

end Exceptions

/-! ## Accesses -/

section Access
variable {vm : Vm} {g₀ : Guest} {pg : GuestPaging} {gla prot sel : Nat}

theorem Going.walk {g : Guest} (h : Going vm g₀ g) (pg : GuestPaging) (gla : Nat) (write : Bool)
    {w : Sdm.Walk} (hw : translate false vm.segs pg gla (pg.cpl = 3) write g.mem = w) :
    Going vm g₀ { g with mem := marked (entrySize pg.pagingMode) write g.mem w } := by
  subst hw
  exact ⟨⟨h.1.toSame.withMem _, .walk pg gla write h.1.mem⟩, h.2⟩

theorem gla2gpa_spec (hpg : PagingOk pg) : Spec (Going vm g₀) (gla2gpa vm pg gla prot)
    (fun gpa g => gpa % 4096 = gla % 4096 ∧ Going vm g₀ g) (Halted vm g₀) := by
  unfold gla2gpa
  refine Spec.bind_get fun g hg => ?_
  rw [vmGla2gpa_marked hpg (Nat.le_refl 2)]
  simp only
  generalize hw : translate false vm.segs pg (BitVec.ofNat 64 gla).toNat (pg.cpl = 3) (writes prot)
    g.mem = w
  have hgoing := hg.walk pg _ _ hw
  refine Spec.bind (Q := fun _ => Going vm g₀) (Spec.modify fun s hs => ?_) fun _ => ?_
  · rw [hs]
    exact hgoing
  cases hout : w.outcome with
  | page gpa =>
    refine Spec.pure fun s hs => ⟨?_, hs⟩
    rw [← hw] at hout
    rw [translate_offset hout, BitVec.toNat_ofNat]
    omega
  | pageFault p rsvd => exact inject_spec (Or.inl rfl) _
  | generalProtection => exact inject_spec (Or.inl rfl) _
  | outside => exact Spec.throw fun s hs => ⟨hs.2, fun h => absurd hs.2 h⟩

/-- One piece, if the rest of the buffer can be set up. -/
theorem copySetup_piece (hpg : PagingOk pg) {iovcnt len : Nat}
    (hrest : 4096 - gla % 4096 < len → Spec (Going vm g₀)
      (copySetup vm pg prot iovcnt (gla + (4096 - gla % 4096)) (len - (4096 - gla % 4096)))
      (fun _ => Going vm g₀) (Halted vm g₀)) :
    Spec (Going vm g₀) (copySetup vm pg prot (iovcnt + 1) gla len) (fun _ => Going vm g₀)
      (Halted vm g₀) := by
  cases len with
  | zero =>
    rw [copySetup]
    exact Spec.pure fun s hs => hs
  | succ len =>
    rw [copySetup]
    refine Spec.bind (gla2gpa_spec hpg) fun gpa => Spec.assume fun hoff => ?_
    simp only
    cases hmap : mapGpa vm gpa (min (len + 1) (4096 - gpa % 4096)) with
    | none => exact Spec.throw fun s hs => ⟨hs.2, fun h => absurd hs.2 h⟩
    | some va =>
      refine Spec.bind ?_ fun rest => Spec.pure fun s hs => hs
      rw [hoff]
      by_cases hlen : 4096 - gla % 4096 < len + 1
      · rw [Nat.min_eq_right (Nat.le_of_lt hlen)]
        exact hrest hlen
      · rw [Nat.min_eq_left (Nat.le_of_not_lt hlen), Nat.sub_self]
        -- the buffer ends in this page, whatever room is left
        cases iovcnt <;> exact Spec.pure fun s hs => hs

/-- A buffer of at most one page has two pieces at most. -/
theorem copySetup_spec (hpg : PagingOk pg) {len : Nat} (hlen : len ≤ 4096) :
    Spec (Going vm g₀) (copySetup vm pg prot 2 gla len) (fun _ => Going vm g₀) (Halted vm g₀) :=
  copySetup_piece hpg fun _ => copySetup_piece hpg fun hbad => absurd hbad (by omega)

theorem descTable_same {g : Guest} (h : Same g₀ g) (sel : Nat) : descTable g sel = descTable g₀ sel := by
  unfold descTable
  rw [h.descs, h.gdtr]

theorem inTable_same {g : Guest} (h : Same g₀ g) (sel : Nat) : inTable g sel = inTable g₀ sel := by
  unfold inTable
  rw [descTable_same h]

theorem limit_of_inTable (h : inTable g₀ sel = true) : selLimit sel ≤ (descTable g₀ sel).limit := by
  unfold inTable at h
  simp only [decide_eq_true_eq] at h
  exact h.2

theorem descTableSetup_spec (hpg : PagingOk pg) (hin : inTable g₀ sel = true) :
    Spec (Going vm g₀) (descTableSetup vm pg sel prot) (fun _ => Going vm g₀) (Halted vm g₀) := by
  refine Spec.bind_get fun g hg => ?_
  have hlimit := limit_of_inTable hin
  rw [← descTable_same hg.1.toSame] at hlimit
  refine Spec.bind (Q := fun _ => Going vm g₀) ?_ fun _ => copySetup_spec hpg (by decide)
  refine Spec.check (fun hbad => absurd hbad (by omega)) fun _ s hs => ?_
  rw [hs]
  exact hg

theorem copyin_spec {P : Guest → Prop} {E : Ret → Guest → Prop} (iov : Iov) :
    Spec P (copyin iov) (fun _ => P) E :=
  Spec.bind_get fun g hg => Spec.pure fun s hs => hs ▸ hg

theorem descTableRead_spec (hpg : PagingOk pg) (hin : inTable g₀ sel = true) :
    Spec (Going vm g₀) (descTableRead vm pg sel) (fun _ => Going vm g₀) (Halted vm g₀) :=
  Spec.bind (descTableSetup_spec hpg hin) fun iov => Spec.bind (copyin_spec iov) fun _ =>
    Spec.pure fun _ hs => hs

/-- Nothing but memory has changed, and the switch is going on. -/
def Written (g₀ g : Guest) : Prop := Same g₀ g ∧ g.pending = none

theorem Going.written {g : Guest} (h : Going vm g₀ g) : Written g₀ g := ⟨h.1.toSame, h.2⟩

theorem copyout_spec {E : Ret → Guest → Prop} (buf : Mem) (iov : Iov) :
    Spec (Written g₀) (copyout buf iov) (fun _ => Written g₀) E :=
  Spec.modify fun _ hs => ⟨hs.1.withMem _, hs.2⟩

theorem descTableWrite_spec (hpg : PagingOk pg) (hin : inTable g₀ sel = true) (usd : Nat) :
    Spec (Going vm g₀) (descTableWrite vm pg sel usd) (fun _ => Written g₀) (Halted vm g₀) :=
  Spec.bind (descTableSetup_spec hpg hin) fun iov =>
    (copyout_spec _ iov).weaken (fun _ => Going.written) (fun _ _ hs => hs) fun _ _ he => he

end Access

/-! ## Up to the commit -/

section Leave
variable {vm : Vm} {x : TaskExit} {g₀ : Guest}

/-- A selector of a descriptor in the GDT. -/
def GdtSel (sel : Nat) : Prop := ¬ (isldt sel = true ∨ idxsel sel = 0)

theorem readTssDescriptor_spec {sel : Nat} (hpg : PagingOk g₀.paging) (hsel : GdtSel sel) :
    Spec (Going vm g₀) (readTssDescriptor vm x sel)
      (fun _ g => inTable g₀ sel = true ∧ Going vm g₀ g) (Halted vm g₀) := by
  refine Spec.bind_get fun g hg => ?_
  refine Spec.bind (Q := fun _ => Going vm g₀)
    (Spec.check (fun hbad => absurd hbad hsel) fun _ s hs => hs ▸ hg) fun _ => ?_
  refine Spec.bind (Q := fun _ g => inTable g₀ sel = true ∧ Going vm g₀ g) ?_ fun _ => ?_
  · refine Spec.check (fun _ => raise_spec (Or.inr (Or.inl rfl)) _ _ _) fun hin s hs => ⟨?_, hs⟩
    rw [← inTable_same hg.1.toSame]
    simpa using hin
  · refine Spec.assume fun hin => ?_
    rw [hg.1.paging]
    exact (descTableRead_spec (pagingOk_sup hpg) hin).weaken (fun _ hs => hs)
      (fun _ _ hs => ⟨hin, hs⟩) fun _ _ he => he

theorem tssSize_le (type : Nat) : tssSize type ≤ 4096 := by
  unfold tssSize
  split <;> omega

theorem fetchNew_spec (hpg : PagingOk g₀.paging) (hx : PagingOk x.paging) (hsel : GdtSel x.tsssel) :
    Spec (Going vm g₀) (fetchNew vm x)
      (fun _ g => inTable g₀ x.tsssel = true ∧ Going vm g₀ g) (Halted vm g₀) := by
  refine Spec.bind (readTssDescriptor_spec hpg hsel) fun desc => Spec.assume fun hin => ?_
  cases unfitTss x (usdToSegDesc desc) with
  | some vector => exact raise_spec (Or.inr (Or.inr rfl)) _ _ _
  | none =>
    refine Spec.bind (copySetup_spec (pagingOk_sup hx) (tssSize_le _)) fun iov => ?_
    exact Spec.bind (copyin_spec iov) fun _ => Spec.pure fun _ hs => ⟨hin, hs⟩

/-- What the task register holds. -/
def trSel (g : Guest) : Nat := g.regs (.sel .tr) % 2 ^ 16

theorem fetchOld_spec (hpg : PagingOk g₀.paging) (hx : PagingOk x.paging)
    (htr : trLoaded (g₀.descs .tr).access = true) (nt : NewTask) :
    Spec (Going vm g₀) (fetchOld vm x nt)
      (fun ot g => inTable g₀ ot.sel = true ∧ Going vm g₀ g) (Halted vm g₀) := by
  refine Spec.bind_get fun g hg => ?_
  refine Spec.bind (Q := fun _ s => GdtSel (trSel g) ∧ Going vm g₀ s) ?_ fun _ => Spec.assume fun hsel => ?_
  · refine Spec.check (fun _ => ?_) fun hsel s hs => ⟨hsel, hs ▸ hg⟩
    exact (raise_spec (Or.inr (Or.inr rfl)) _ _ _).weaken (fun s hs => hs ▸ hg) (fun _ _ hs => hs)
      fun _ _ he => he
  refine Spec.bind (Q := fun _ => Going vm g₀) ?_ fun _ => ?_
  · refine Spec.check (fun hbad => ?_) fun _ s hs => hs
    rw [hg.1.descs, htr] at hbad
    contradiction
  refine Spec.bind (readTssDescriptor_spec hpg hsel) fun desc => Spec.assume fun hin => ?_
  refine Spec.bind (copySetup_spec (pagingOk_sup hx) (tssSize_le _)) fun iov => ?_
  exact Spec.bind (copyin_spec iov) fun _ => Spec.pure fun _ hs => ⟨hin, hs⟩

theorem saveOld_spec (hx : PagingOk x.paging) (nt : NewTask) {ot : OldTask}
    (hin : inTable g₀ ot.sel = true) :
    Spec (Going vm g₀) (saveOld vm x nt ot) (fun _ => Written g₀) (Halted vm g₀) := by
  refine Spec.bind (Q := fun _ => Written g₀) ?_ fun _ => ?_
  · exact Spec.check (fun _ => descTableWrite_spec (pagingOk_sup hx) hin _) fun _ s hs => hs.written
  refine Spec.bind (Q := fun _ => Written g₀) ?_ fun _ => Spec.bind_get fun g hg => ?_
  · exact Spec.check (fun _ => Spec.throw fun s hs => ⟨hs.2, fun h => absurd hs.2 h⟩) fun _ s hs => hs
  · exact (copyout_spec _ _).weaken (fun s hs => hs ▸ hg) (fun _ _ hs => hs) fun _ _ he => he

theorem markNew_going (hx : PagingOk x.paging) (hin : inTable g₀ x.tsssel = true) (nt : NewTask) :
    Spec (Going vm g₀) (markNew vm x nt) (fun _ => Written g₀) (Halted vm g₀) :=
  Spec.check (fun _ => descTableWrite_spec (pagingOk_sup hx) hin _) fun _ _ hs => hs.written

/-- Memory has changed by now, so an exception no longer leaves the guest as it was. -/
theorem markNew_spec (hx : PagingOk x.paging) (hin : inTable g₀ x.tsssel = true) (nt : NewTask) :
    Spec (Written g₀) (markNew vm x nt) (fun _ => Written g₀) Tells := by
  intro g hg
  have hin' : inTable g x.tsssel = true := (inTable_same hg.1 _).trans hin
  refine ((markNew_going hx hin' nt).weaken (fun _ hs => hs) (fun _ s hs => ?_) fun _ _ he => he.1) g
    (Going.refl vm hg.2)
  exact ⟨hg.1.trans hs.1, hs.2⟩

/-- `leaveOld` without the new task's busy bit. -/
def saved (vm : Vm) (x : TaskExit) : TaskM (NewTask × OldTask) := do
  check (x.paging.cpuMode ≠ .protectedMode) (throw .assertion)
  let nt ← fetchNew vm x
  let ot ← fetchOld vm x nt
  saveOld vm x nt ot
  return (nt, ot)

theorem leaveOld_eq : leaveOld vm x = (do
    let p ← saved vm x
    markNew vm x p.1
    return p) := by
  simp only [leaveOld, saved, bind_assoc, pure_bind]

theorem saved_spec (hpg : PagingOk g₀.paging) (hx : PagingOk x.paging) (hsel : GdtSel x.tsssel)
    (htr : trLoaded (g₀.descs .tr).access = true) (hmode : x.paging.cpuMode = .protectedMode) :
    Spec (Going vm g₀) (saved vm x) (fun _ g => inTable g₀ x.tsssel = true ∧ Written g₀ g)
      (Halted vm g₀) := by
  rw [saved, check_neg (not_not.mpr hmode), pure_bind]
  refine Spec.bind (fetchNew_spec hpg hx hsel) fun nt => Spec.assume fun hnt => ?_
  refine Spec.bind (fetchOld_spec hpg hx htr nt) fun ot => Spec.assume fun hot => ?_
  exact Spec.bind (saveOld_spec hx nt hot) fun _ => Spec.pure fun _ hs => ⟨hnt, hs⟩

end Leave

/-- What the processor and `vmx_exit_process` see to before the exit is handed over. -/
structure Promised (x : TaskExit) (g : Guest) : Prop where
  mode : x.paging.cpuMode = .protectedMode
  tss : GdtSel x.tsssel
  /-- VM entry loads no other task register. -/
  task : trLoaded (g.descs .tr).access = true
  errcode : x.errcodeValid = true → x.ext = true ∧ x.reason = .idtGate
  pending : g.pending = none
  cr3 : PagingOk x.paging
  paging : g.paging = x.paging

theorem Promised.saved {vm : Vm} {x : TaskExit} {g : Guest} (h : Promised x g) :
    Spec (fun t => t = g) (saved vm x) (fun _ s => inTable g x.tsssel = true ∧ Written g s)
      (Halted vm g) :=
  (saved_spec (h.paging ▸ h.cr3) h.cr3 h.tss h.task h.mode).weaken
    (fun _ hs => hs.symm ▸ .refl vm h.pending) (fun _ _ hs => hs) fun _ _ he => he

end Xhyve.Vmm.TaskSwitch
