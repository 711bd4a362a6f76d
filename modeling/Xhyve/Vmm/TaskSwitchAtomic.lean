import Xhyve.Vmm.TaskSwitchFrame

/-!
# Task switches up to the commit

The old task's busy bit and its TSS are written before the last access that can raise an exception in
the old task: the write of the new task's busy bit. An exception of any earlier access leaves the guest
as it was, one of that access does not.
-/

namespace Xhyve.Vmm.TaskSwitch

open Xhyve.Lib Xhyve.Lib.Mem Xhyve.Lib.Fallible
open Xhyve.Vmm.PageWalk

/-! ## Bytes under flags -/

/-- Every byte is the same outside the bits of the accessed and the dirty flag. -/
def SameBits (m m' : Mem) : Prop :=
  ∀ a i, i ≠ 5 → i ≠ 6 → (m' a).toNat.testBit i = (m a).toNat.testBit i

section SameBits
variable {m m' m'' : Mem} {n : Nat}

theorem SameBits.trans (h : SameBits m m') (h' : SameBits m' m'') : SameBits m m'' :=
  fun a i h5 h6 => (h' a i h5 h6).trans (h a i h5 h6)

theorem SameBits.symm (h : SameBits m m') : SameBits m' m :=
  fun a i h5 h6 => (h a i h5 h6).symm

/-- A byte's bits are bits of the word it is in. -/
theorem testBit_byte (hn : 0 < n) (m : Mem) (a i : Nat) : (m a).toNat.testBit i =
    (decide (i < 8) && (load n m (n * (a / n))).testBit (8 * (a % n) + i)) := by
  have hbyte := load_byte (m := m) (a := n * (a / n)) (Nat.mod_lt a hn)
  rw [Nat.div_add_mod] at hbyte
  have hpow : 256 ^ (a % n) = 2 ^ (8 * (a % n)) := (Nat.pow_mul 2 8 _).symm
  rw [← hbyte, hpow, show 256 = 2 ^ 8 by decide, Nat.testBit_mod_two_pow, Nat.testBit_div_two_pow,
    Nat.add_comm i]

theorem sameBits_of_flagEq (hn : 0 < n) (h : FlagEq n m m') : SameBits m m' := by
  intro a i h5 h6
  rw [testBit_byte hn, testBit_byte hn]
  by_cases hi : i < 8
  · -- only the first byte of an entry has the flags
    have hentry := h (n * (a / n)) (Nat.dvd_mul_right ..) (8 * (a % n) + i) (by omega) (by omega)
    rw [hentry]
  · simp [hi]

theorem OnlyFlags.sameBits {segs : List MemSeg} (h : OnlyFlags segs m m') : SameBits m m' := by
  induction h with
  | refl => exact fun _ _ _ _ => rfl
  | walk pg gla write _ ih =>
    obtain ⟨hu, hl⟩ := translate_aligned _ rfl
    have hn := entrySize_pos pg.pagingMode
    exact ih.trans (sameBits_of_flagEq hn (flagEq_marked hn hu fun b hb => hu b (hl b hb)))

end SameBits

/-! ## The late exception -/

/-- If the switch stops in the old task with an exception, the guest is as it was, apart from flags of
page tables. -/
def Atomic (vm : Vm) (x : TaskExit) (g : Guest) : Prop :=
  ∀ r g', leaveOld vm x g = .error r g' → (vmexitTaskSwitch vm x g).2.pending ≠ none →
    Quiet vm g (vmexitTaskSwitch vm x g).2

/-- Once the old task is saved, the new task's busy bit is written without an exception. -/
def BusyWritable (vm : Vm) (x : TaskExit) (g : Guest) : Prop :=
  After (saved vm x) (fun p s => ∀ r s', markNew vm x p.1 s = .error r s' → s'.pending = none) g

section Late
variable {vm : Vm} {x : TaskExit} {g g' : Guest} {r : Ret}

theorem vmexitTaskSwitch_of_leaveOld (h : leaveOld vm x g = .error r g') :
    vmexitTaskSwitch vm x g = (chkerr r, g') := by
  have hrun : taskSwitch vm x g = .error r g' := bind_of_error h
  rw [vmexitTaskSwitch, hrun]

/-- Where `leaveOld` can stop. -/
theorem leaveOld_error (h : leaveOld vm x g = .error r g') :
    saved vm x g = .error r g' ∨ ∃ p s, saved vm x g = .ok p s ∧ markNew vm x p.1 s = .error r g' := by
  rw [leaveOld_eq] at h
  rcases bind_error_iff.mp h with hsaved | ⟨p, s, hsaved, hrest⟩
  · exact Or.inl hsaved
  · rcases bind_error_iff.mp hrest with hmark | ⟨_, _, _, hbad⟩
    · exact Or.inr ⟨p, s, hsaved, hmark⟩
    · cases hbad

theorem atomic_of_busyWritable (h : Promised x g) (hbusy : BusyWritable vm x g) : Atomic vm x g := by
  intro r g' hrun hp
  rw [vmexitTaskSwitch_of_leaveOld hrun] at hp ⊢
  rcases leaveOld_error hrun with hsaved | ⟨p, s, hsaved, hmark⟩
  · exact ((h.saved g rfl).2 r g' hsaved).2 hp
  · exact absurd (hbusy p s hsaved r g' hmark) hp

/-- With a late exception the guest is as it was only if what was saved was there before. -/
theorem sameBits_of_atomic (h : Promised x g) (hat : Atomic vm x g) {p : NewTask × OldTask} {s : Guest}
    (hsaved : saved vm x g = .ok p s) (hmark : markNew vm x p.1 s = .error r g') (hp : g'.pending ≠ none) :
    SameBits g.mem s.mem := by
  obtain ⟨hin, hw⟩ := (h.saved g rfl).1 p s hsaved
  have hin' : inTable s x.tsssel = true := (inTable_same hw.1 _).trans hin
  have hlate := ((markNew_going h.cr3 hin' p.1 s (.refl vm hw.2)).2 r g' hmark).2 hp
  have hrun : leaveOld vm x g = .error r g' := by
    rw [leaveOld_eq]
    exact bind_error_iff.mpr (Or.inr ⟨p, s, hsaved, bind_of_error hmark⟩)
  have hexit := vmexitTaskSwitch_of_leaveOld hrun
  have hquiet := hat r g' hrun
  rw [hexit] at hquiet
  exact (hquiet hp).mem.sameBits.trans hlate.mem.sameBits.symm

end Late

/-- The switch is atomic up to its commit if the new task's busy bit can be written; if it cannot, then
only where saving the old task changes no byte of memory in more than the two flags' bits. -/
theorem taskSwitch_atomic (vm : Vm) (x : TaskExit) (g : Guest) (h : Promised x g) :
    (BusyWritable vm x g → Atomic vm x g) ∧
    (Atomic vm x g → BusyWritable vm x g ∨ After (saved vm x) (fun _ s => SameBits g.mem s.mem) g) := by
  refine ⟨atomic_of_busyWritable h, fun hat => ?_⟩
  by_cases hbusy : BusyWritable vm x g
  · exact Or.inl hbusy
  · refine Or.inr fun p s hsaved => ?_
    unfold BusyWritable After at hbusy
    push Not at hbusy
    obtain ⟨p', s', hsaved', r, g', hmark, hp⟩ := hbusy
    cases hsaved.symm.trans hsaved'
    exact sameBits_of_atomic h hat hsaved hmark hp

/-- A guest whose GDT is in a page that is mapped read-only; everything else is in a writable one. -/
def pagedGuest : Guest where
  regs
    | .sel .tr => 0x18
    | .sel .cs => 0x8
    | _ => 0
  descs
    | .tr => ⟨0x2000, 0x67, 0x8b⟩
    | _ => ⟨0, 0xffffffff, 0xc093⟩
  gdtr := ⟨0x401000, 0x3f, 0⟩
  mem := [(8, 0x1018, 0x00008b0020000067), (8, 0x1020, 0x0000890030000067), (4, 0x4000, 0x83),
    (4, 0x4004, 0x81)].foldl (fun m w => store w.1 m w.2.1 w.2.2) fun _ => 0
  pending := none
  intinfo := 0
  paging := ⟨0x4000, 0, .protectedMode, .bits32⟩

def pagedVm : Vm := ⟨[⟨0, 0x10000⟩], 0x10000, 0⟩

/-- A switch to the other TSS. -/
def pagedExit (reason : Reason) : TaskExit :=
  ⟨0x20, false, 0, false, reason, ⟨0x4000, 0, .protectedMode, .bits32⟩, 0x400, 5⟩

theorem promised_paged (reason : Reason) : Promised (pagedExit reason) pagedGuest where
  mode := rfl
  tss := by
    show GdtSel 0x20
    unfold GdtSel
    decide
  task := by
    show trLoaded 0x8b = true
    decide
  errcode := fun h => by cases h
  pending := rfl
  cr3 := fun _ => by
    show (0x4000 : BitVec 64).toNat < 2 ^ 32
    decide
  paging := rfl

/-- A JMP writes the old task's busy bit first, so its page fault leaves the guest as it was. -/
theorem taskSwitch_atomic_jmp :
    Promised (pagedExit .jmp) pagedGuest ∧
    (vmexitTaskSwitch pagedVm (pagedExit .jmp) pagedGuest).2.pending = some ⟨idtPF, 0x3, some 0x401018⟩ ∧
    Atomic pagedVm (pagedExit .jmp) pagedGuest := by
  have hsaved : (match saved pagedVm (pagedExit .jmp) pagedGuest with
    | .ok .. => false
    | .error .. => true) = true := by decide +kernel
  have h := promised_paged .jmp
  refine ⟨h, by decide +kernel, (taskSwitch_atomic pagedVm (pagedExit .jmp) pagedGuest h).1 ?_⟩
  intro p s hok
  rw [hok] at hsaved
  contradiction

/-- A CALL writes the new task's busy bit only, after the old TSS: its page fault leaves `EIP` there. -/
theorem taskSwitch_not_atomic :
    Promised (pagedExit .call) pagedGuest ∧ pagedGuest.mem 0x2020 = 0 ∧
    (vmexitTaskSwitch pagedVm (pagedExit .call) pagedGuest).2.mem 0x2020 = 0x05 ∧
    ¬ Atomic pagedVm (pagedExit .call) pagedGuest := by
  have hstop : (match leaveOld pagedVm (pagedExit .call) pagedGuest with
    | .ok .. => false
    | .error .. => true) = true := by decide +kernel
  have hmem : (vmexitTaskSwitch pagedVm (pagedExit .call) pagedGuest).2.mem 0x2020 = 0x05 := by
    decide +kernel
  have hp : (vmexitTaskSwitch pagedVm (pagedExit .call) pagedGuest).2.pending ≠ none := by
    decide +kernel
  refine ⟨promised_paged .call, by decide +kernel, hmem, fun hat => ?_⟩
  cases hrun : leaveOld pagedVm (pagedExit .call) pagedGuest with
  | ok p s =>
    rw [hrun] at hstop
    contradiction
  | error r g' =>
    have hbits := (hat r g' hrun hp).mem.sameBits 0x2020 0 (by decide) (by decide)
    rw [hmem] at hbits
    exact absurd hbits (by decide +kernel)

end Xhyve.Vmm.TaskSwitch
