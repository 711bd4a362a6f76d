import Xhyve.Emul.InoutEmulate

/-!
# INS and OUTS over all their exits

Sixteen elements to an exit, a string instruction is the same as one element after the other: each port access is made
once and in order, and a fault finds the instruction with the elements before it behind it. The one thing the registers
show of the emulation is the upper half they lose with a 32-bit address size when no element is moved.
-/

namespace Xhyve.Emul.Inout

open Xhyve.Vmm.Segment
open Xhyve.Vmm.Decode (CpuMode)
open Xhyve.Vmm.Emulate (updatedRegister updatedRegister_eq writeBack writeBack_writeBack writeBack_congr writeBack_low
  steppedBy steppedBy_low steppedBy_succ steppedBy_zero indexAfter count_left)

/-! ## The instruction -/

/-- An INS or OUTS the processor exits with. -/
structure StringInstr where
  inp : Bool
  rep : Bool
  bytes : Nat
  port : Nat
  addrsize : Nat
  cpuMode : CpuMode
  cpl : Nat
  rflags : BitVec 64
  cr0 : BitVec 64
  segName : SegReg
  segDesc : SegDesc
  bytes_ok : bytes = 1 ∨ bytes = 2 ∨ bytes = 4
  port_lt : port < maxIoports
  addrsize_ok : if cpuMode = .mode64 then addrsize = 4 ∨ addrsize = 8 else addrsize = 2 ∨ addrsize = 4
  /-- What the processor has checked of a segment it lets be used. -/
  seg_ok : cpuMode ≠ .mode64 → segDescUnusable segDesc.access = false →
    segDescPresent segDesc.access = true ∧ 16 ≤ (segDescType segDesc.access).toNat

section Instr

variable (i : StringInstr)

def StringInstr.down : Bool := i.rflags &&& pslD ≠ 0

/-- What the exit says of the instruction, but for the registers. -/
def StringInstr.base : VmExit where
  bytes := i.bytes
  inp := i.inp
  string := true
  rep := i.rep
  port := i.port
  eax := 0
  cpuMode := i.cpuMode
  cpl := i.cpl
  rflags := i.rflags
  cr0 := i.cr0
  index := 0
  count := 0
  addrsize := i.addrsize
  segName := i.segName
  segDesc := i.segDesc

variable {ι σ : Type} (m : Vcpu σ)

def StringInstr.index : BitVec 64 := m.regs (idxreg i.inp)

/-- `inout_str_count`. -/
def StringInstr.count : BitVec 64 := if i.rep then m.regs .rcx else 1

/-- The exit, as the kernel part fills it in. -/
def StringInstr.exit : VmExit :=
  { i.base with eax := (m.regs .rax).setWidth 32, index := i.index m, count := i.count m }

/-- The elements the instruction is to move. -/
def StringInstr.length : Nat := (i.count m &&& size2mask i.addrsize).toNat

/-- The address of an element. -/
def StringInstr.glaAt (start : BitVec 64) (k : Nat) : Except Stop (BitVec 64) :=
  vieCalculateGla i.cpuMode i.segName i.segDesc (steppedBy i.down i.bytes k start) i.bytes i.addrsize i.base.prot

/-! ## One element after the other -/

/-- The elements that are done, and what the next was stopped with. -/
structure Elements (σ : Type) where
  done : Nat
  stop : Option Int
  m : Vcpu σ

variable (env : Surroundings ι σ) (t : Table) (strict : Bool)

def StringInstr.element (index : BitVec 64) (m : Vcpu σ) : Option (Element σ) :=
  strElement env (env.code (t i.port).handler) (t i.port).arg i.base index m

/-- The instruction without exits: `n` more elements behind `k`. -/
def elements (start : BitVec 64) : Nat → Nat → Vcpu σ → Elements σ
  | 0, k, m => ⟨k, none, m⟩
  | n + 1, k, m =>
    match i.element env t (steppedBy i.down i.bytes k start) m with
    | none => ⟨k, some (-1), m⟩
    | some (.stop retval m) => ⟨k, some retval, m⟩
    | some (.next m) => elements start n (k + 1) m

/-- The exits of an instruction, up to the first that asks for no other or leaves a fault to deliver. -/
inductive Repeats : Vcpu σ → Int → Vcpu σ → Prop
  | last {m u : Vcpu σ} {retval : Int} :
      emulateInout env (i.exit m) t strict { m with restart := false } = some (retval, u) →
      retval ≠ 0 ∨ u.restart = false ∨ u.pending.isSome → Repeats m retval u
  | again {m u v : Vcpu σ} {retval : Int} :
      emulateInout env (i.exit m) t strict { m with restart := false } = some (0, u) →
      u.restart = true → u.pending = none → Repeats u retval v → Repeats m retval v

/-- The handler of the port takes accesses in this direction, and succeeds. -/
structure Serves : Prop where
  handled : strict = true → (t i.port).handler ≠ defaultInout
  flag : (t i.port).flags &&& (if i.inp then ioportFIn else ioportFOut) ≠ 0
  succeeds : ∀ s val, (env.code (t i.port).handler s i.inp i.port i.bytes val (t i.port).arg).1 = 0

end Instr

/-! ## What one element does -/

section Element

variable {ι σ : Type} {i : StringInstr} {env : Surroundings ι σ} {t : Table} {strict : Bool} {m u : Vcpu σ}
  {index start : BitVec 64} {k : Nat}

theorem StringInstr.addrsize_cases (i : StringInstr) : i.addrsize = 2 ∨ i.addrsize = 4 ∨ i.addrsize = 8 := by
  have h := i.addrsize_ok
  split at h
  · omega
  · omega

theorem and_mask_idem {n : Nat} (x : BitVec 64) : x &&& size2mask n &&& size2mask n = x &&& size2mask n := by
  rw [BitVec.and_assoc, BitVec.and_self]

/-- Of an offset only what the address size leaves of it counts. -/
theorem limitLoop_mask {n : Nat} (low high : BitVec 64) (length : Nat) (x : BitVec 64) :
    limitLoop (size2mask n) low high length (x &&& size2mask n) = limitLoop (size2mask n) low high length x := by
  cases length with
  | zero => rfl
  | succ length =>
    unfold limitLoop
    dsimp only
    rw [and_mask_idem]

theorem vieCalculateGla_mask {mode : CpuMode} {seg : SegReg} {desc : SegDesc} {len n : Nat} {prot : Prot} (x : BitVec 64) :
    vieCalculateGla mode seg desc (x &&& size2mask n) len n prot = vieCalculateGla mode seg desc x len n prot := by
  unfold vieCalculateGla segmentCheck
  rw [limitLoop_mask, and_mask_idem]

theorem element_mask (index : BitVec 64) : i.element env t (index &&& size2mask i.addrsize) m = i.element env t index m :=
  congrArg (strAt env _ _ i.base m) (vieCalculateGla_mask index)

/-- A port access for the element at an index. -/
structure AccessAt (i : StringInstr) (index : BitVec 64) (a : Access) : Prop where
  gla : vieCalculateGla i.cpuMode i.segName i.segDesc index i.bytes i.addrsize i.base.prot = .ok a.gla
  inp : a.inp = i.inp
  port : a.port = i.port
  bytes : a.bytes = i.bytes

/-- What an element leaves: its access, or a fault and no access. -/
def ElementDone (i : StringInstr) (index : BitVec 64) (m : Vcpu σ) : Element σ → Prop
  | .next u => u.regs = m.regs ∧ u.pending = none ∧ u.restart = m.restart ∧
      ∃ a, AccessAt i index a ∧ u.accesses = m.accesses ++ [a]
  | .stop retval u => u.regs = m.regs ∧ u.accesses = m.accesses ∧
      ((retval = 0 ∧ u.pending.isSome = true ∧ u.restart = true) ∨
        (retval = -1 ∧ u.pending = none ∧ u.restart = m.restart))

/-- A chain of checks fails an assertion only at an assertion. -/
theorem check_bind_ne {c : Prop} [Decidable c] {e : Vmm.Segment.Stop} {α : Type} {x : Except Vmm.Segment.Stop α}
    (hc : e = .kassert → c) (hx : c → x ≠ .error .kassert) : (check c e >>= fun _ => x) ≠ .error .kassert := by
  unfold check
  split
  · rename_i h
    exact hx h
  · rename_i h
    intro he
    exact h (hc (Except.error.inj he))

theorem limitLoop_ne {mask low high : BitVec 64} (length : Nat) (x : BitVec 64) :
    limitLoop mask low high length x ≠ .error .kassert := by
  induction length generalizing x with
  | zero => exact fun h => nomatch h
  | succ length ih => exact check_bind_ne (fun he => Vmm.Segment.Stop.noConfusion he) fun _ => ih _

theorem segmentCheck_ne (i : StringInstr) (hmode : i.cpuMode ≠ .mode64) (index : BitVec 64) :
    segmentCheck i.segDesc index i.bytes i.addrsize i.base.prot ≠ .error .kassert := by
  have hsize := i.addrsize_ok
  rw [if_neg hmode] at hsize
  have htype : (segDescType i.segDesc.access).toNat ≤ 31 := by
    unfold segDescType
    rw [BitVec.toNat_and]
    exact Nat.and_le_right
  unfold segmentCheck
  refine check_bind_ne (fun _ => hsize) fun _ => check_bind_ne (fun he => Vmm.Segment.Stop.noConfusion he) fun husable => ?_
  have hseg := i.seg_ok hmode husable
  refine check_bind_ne (fun _ => hseg.1) fun _ => check_bind_ne (fun _ => ⟨hseg.2, htype⟩) fun _ => ?_
  refine check_bind_ne (fun he => Vmm.Segment.Stop.noConfusion he) fun _ => ?_
  refine check_bind_ne (fun he => Vmm.Segment.Stop.noConfusion he) fun _ => ?_
  exact check_bind_ne (fun he => Vmm.Segment.Stop.noConfusion he) fun _ => limitLoop_ne _ _

/-- The processor sees to what `vie_calculate_gla` asserts. -/
theorem vieCalculateGla_ne (i : StringInstr) (index : BitVec 64) :
    vieCalculateGla i.cpuMode i.segName i.segDesc index i.bytes i.addrsize i.base.prot ≠ .error .kassert := by
  have hbytes := i.bytes_ok
  unfold vieCalculateGla
  refine check_bind_ne (fun _ => by omega) fun _ => ?_
  by_cases hmode : i.cpuMode = .mode64
  · have hsize := i.addrsize_ok
    rw [if_pos hmode] at hsize
    rw [if_pos hmode]
    exact check_bind_ne (fun _ => hsize) fun _ h => nomatch h
  · rw [if_neg hmode]
    intro h
    cases hseg : segmentCheck i.segDesc index i.bytes i.addrsize i.base.prot with
    | error e =>
      rw [hseg] at h
      cases h
      exact segmentCheck_ne i hmode index hseg
    | ok u =>
      rw [hseg] at h
      cases h

theorem injectFault_stop {f : Fault} (hp : m.pending = none) :
    (injectFault m f).map (Element.stop 0) = some (.stop 0 { m with pending := some f, restart := true }) := by
  unfold injectFault
  rw [hp]
  rfl

theorem strAccess_next (hs : Serves i env t strict) (gla : BitVec 64) (iov : ι) (m : Vcpu σ) :
    ∃ s val, strAccess env (env.code (t i.port).handler) (t i.port).arg i.base gla iov m =
      .next { m with machine := s, accesses := m.accesses ++ [⟨gla, i.inp, i.port, i.bytes, val⟩] } := by
  unfold strAccess
  dsimp only
  generalize (if i.base.inp then 0 else env.copyin m.machine iov i.base.bytes) = val
  have hok := hs.succeeds m.machine val
  change ∃ s val', (if (env.code (t i.port).handler m.machine i.inp i.port i.bytes val (t i.port).arg).1 ≠ 0 then _
    else _) = _
  rw [if_neg (not_not.mpr hok)]
  split
  · exact ⟨_, _, rfl⟩
  · exact ⟨_, _, rfl⟩

theorem element_spec (hs : Serves i env t strict) (hp : m.pending = none) (index : BitVec 64) :
    ∃ e, i.element env t index m = some e ∧ ElementDone i index m e := by
  unfold StringInstr.element strElement
  cases hg : vieCalculateGla i.base.cpuMode i.base.segName i.base.segDesc index i.base.bytes i.base.addrsize i.base.prot with
  | error e =>
    cases e with
    | kassert => exact absurd hg (vieCalculateGla_ne i index)
    | fault => exact ⟨_, injectFault_stop hp, rfl, rfl, .inl ⟨rfl, rfl, rfl⟩⟩
  | ok gla =>
    change ∃ e, strSetup env _ _ i.base gla m (env.copySetup m.machine gla i.base.bytes i.base.prot) = some e ∧ _
    cases env.copySetup m.machine gla i.base.bytes i.base.prot with
    | error s => exact ⟨_, rfl, rfl, rfl, .inr ⟨rfl, hp, rfl⟩⟩
    | fault f s => exact ⟨_, injectFault_stop (m := { m with machine := s }) hp, rfl, rfl, .inl ⟨rfl, rfl, rfl⟩⟩
    | iov iov s =>
      unfold strSetup
      dsimp only
      split
      · exact ⟨_, injectFault_stop (m := { m with machine := s }) hp, rfl, rfl, .inl ⟨rfl, rfl, rfl⟩⟩
      · obtain ⟨s', val, he⟩ := strAccess_next hs gla iov { m with machine := s }
        rw [he]
        exact ⟨_, rfl, rfl, hp, rfl, ⟨gla, i.inp, i.port, i.bytes, val⟩, ⟨hg, rfl, rfl, rfl⟩, rfl⟩

end Element

/-! ## The elements -/

section Elements

variable {ι σ : Type} {i : StringInstr} {env : Surroundings ι σ} {t : Table} {strict : Bool} {m u : Vcpu σ}
  {index start : BitVec 64} {n k : Nat}

/-- The port accesses between two states are for the elements from `k` up to `l`, in order. -/
def AccessesFor (i : StringInstr) (start : BitVec 64) (k l : Nat) (m u : Vcpu σ) : Prop :=
  ∃ as, u.accesses = m.accesses ++ as ∧
    List.Forall₂ (fun j a => AccessAt i (steppedBy i.down i.bytes j start) a) (List.range' k (l - k)) as

/-- How the elements end: all of them done, a fault pending, or an error. -/
structure ElementsDone (i : StringInstr) (start : BitVec 64) (n k : Nat) (m : Vcpu σ) (r : Elements σ) : Prop where
  least : k ≤ r.done
  most : r.done ≤ k + n
  regs : r.m.regs = m.regs
  accesses : AccessesFor i start k r.done m r.m
  all : r.stop = none → r.done = k + n ∧ r.m.pending = none ∧ r.m.restart = m.restart
  stopped : ∀ retval, r.stop = some retval → r.done < k + n ∧
    ((retval = 0 ∧ r.m.pending.isSome = true ∧ r.m.restart = true) ∨
      (retval = -1 ∧ r.m.pending = none ∧ r.m.restart = m.restart))

theorem accessesFor_refl (i : StringInstr) (start : BitVec 64) (k : Nat) (h : u.accesses = m.accesses) :
    AccessesFor i start k k m u := by
  refine ⟨[], by rw [h, List.append_nil], ?_⟩
  rw [Nat.sub_self]
  exact .nil

theorem elements_stop {retval : Int} (h : i.element env t (steppedBy i.down i.bytes k start) m = some (.stop retval u)) :
    elements i env t start (n + 1) k m = ⟨k, some retval, u⟩ := by
  unfold elements
  rw [h]

theorem elements_none (h : i.element env t (steppedBy i.down i.bytes k start) m = none) :
    elements i env t start (n + 1) k m = ⟨k, some (-1), m⟩ := by
  unfold elements
  rw [h]

theorem elements_next (h : i.element env t (steppedBy i.down i.bytes k start) m = some (.next u)) :
    elements i env t start (n + 1) k m = elements i env t start n (k + 1) u := by
  conv_lhs => unfold elements
  rw [h]

theorem elements_spec (hs : Serves i env t strict) (start : BitVec 64) (n k : Nat) (m : Vcpu σ) (hp : m.pending = none) :
    ElementsDone i start n k m (elements i env t start n k m) := by
  induction n generalizing k m with
  | zero =>
    exact ⟨le_rfl, le_rfl, rfl, accessesFor_refl i start k rfl, fun _ => ⟨rfl, hp, rfl⟩, fun _ h => nomatch h⟩
  | succ n ih =>
    obtain ⟨e, he, hdone⟩ := element_spec hs hp (steppedBy i.down i.bytes k start)
    cases e with
    | stop retval u =>
      obtain ⟨hregs, hacc, hret⟩ := hdone
      rw [elements_stop he]
      refine ⟨le_rfl, Nat.le_add_right .., hregs, accessesFor_refl i start k hacc, (fun h => nomatch h), ?_⟩
      intro _ h
      obtain rfl := Option.some.inj h
      exact ⟨Nat.lt_add_of_pos_right n.succ_pos, hret⟩
    | next u =>
      rw [elements_next he]
      obtain ⟨hregs, hpend, hrestart, a, ha, hacc⟩ := hdone
      have hrest := ih (k + 1) u hpend
      obtain ⟨as, has, hall⟩ := hrest.accesses
      have hleast := hrest.least
      have hmost := hrest.most
      refine ⟨by omega, by omega, hrest.regs.trans hregs, ⟨a :: as, ?_, ?_⟩, ?_, ?_⟩
      · rw [has, hacc, List.append_assoc, List.singleton_append]
      · have hlen : (elements i env t start n (k + 1) u).done - k =
            (elements i env t start n (k + 1) u).done - (k + 1) + 1 := by omega
        rw [hlen, List.range'_succ]
        exact .cons ha hall
      · intro h
        obtain ⟨hd, hpe, hre⟩ := hrest.all h
        exact ⟨by rw [hd]; omega, hpe, hre.trans hrestart⟩
      · intro retval h
        obtain ⟨hd, hret⟩ := hrest.stopped retval h
        rw [hrestart] at hret
        exact ⟨by omega, hret⟩

/-- Elements after elements. -/
theorem elements_add (i : StringInstr) (env : Surroundings ι σ) (t : Table) (start : BitVec 64) (a b k : Nat) (m : Vcpu σ) :
    elements i env t start (a + b) k m =
      if (elements i env t start a k m).stop = none then
        elements i env t start b (elements i env t start a k m).done (elements i env t start a k m).m
      else elements i env t start a k m := by
  induction a generalizing k m with
  | zero =>
    rw [Nat.zero_add]
    rfl
  | succ a ih =>
    rw [Nat.succ_add]
    cases he : i.element env t (steppedBy i.down i.bytes k start) m with
    | none =>
      rw [elements_none he, elements_none he]
      rfl
    | some e =>
      cases e with
      | stop retval u =>
        rw [elements_stop he, elements_stop he]
        rfl
      | next u =>
        rw [elements_next he, elements_next he]
        exact ih (k + 1) u

end Elements

/-! ## One exit -/

section Exit

variable {ι σ : Type} {i : StringInstr} {env : Surroundings ι σ} {t : Table} {strict : Bool} {m u : Vcpu σ}
  {index start : BitVec 64} {n k : Nat}

theorem and_mask_congr {x y : BitVec 64} (h : x.setWidth (8 * i.addrsize) = y.setWidth (8 * i.addrsize)) :
    x &&& size2mask i.addrsize = y &&& size2mask i.addrsize := by
  have ha := i.addrsize_cases
  have hlow := congrArg BitVec.toNat h
  rw [BitVec.toNat_setWidth, BitVec.toNat_setWidth] at hlow
  apply BitVec.eq_of_toNat_eq
  rw [size2mask_and (by omega), size2mask_and (by omega), hlow]

theorem and_mask_low (x : BitVec 64) : (x &&& size2mask i.addrsize).setWidth (8 * i.addrsize) = x.setWidth (8 * i.addrsize) := by
  have ha := i.addrsize_cases
  apply BitVec.eq_of_toNat_eq
  rw [BitVec.toNat_setWidth, BitVec.toNat_setWidth, size2mask_and (by omega), Nat.mod_mod]

theorem element_congr (h : index.setWidth (8 * i.addrsize) = start.setWidth (8 * i.addrsize)) (m : Vcpu σ) :
    i.element env t index m = i.element env t start m := by
  rw [← element_mask index, and_mask_congr h, element_mask]

theorem nextIndex_exit (i : StringInstr) (m : Vcpu σ) (index : BitVec 64) :
    nextIndex (i.exit m) index = steppedBy i.down i.bytes 1 index := by
  unfold nextIndex steppedBy StringInstr.down
  rw [Nat.one_mul]
  simp only [ne_eq, decide_eq_true_iff]
  rfl

theorem steppedBy_add {down : Bool} {size j : Nat} {x : BitVec 64} :
    steppedBy down size j (steppedBy down size k x) = steppedBy down size (k + j) x := by
  induction j with
  | zero => exact steppedBy_zero
  | succ j ih => rw [← steppedBy_succ, ih, steppedBy_succ, Nat.add_assoc]

/-- The loop of an exit is a number of elements. -/
theorem strLoop_elements (hs : Serves i env t strict) (x : Vcpu σ) (iterations k : Nat) (index count : BitVec 64)
    (m : Vcpu σ) (hp : m.pending = none)
    (hidx : index.setWidth (8 * i.addrsize) = (steppedBy i.down i.bytes k start).setWidth (8 * i.addrsize)) :
    strLoop env (env.code (t i.port).handler) (t i.port).arg (i.exit x) iterations index count m =
      some ⟨((elements i env t start iterations k m).stop).getD 0,
        steppedBy i.down i.bytes ((elements i env t start iterations k m).done - k) index,
        count - BitVec.ofNat 64 ((elements i env t start iterations k m).done - k),
        (elements i env t start iterations k m).m⟩ := by
  have ha := i.addrsize_cases
  induction iterations generalizing k index count m with
  | zero =>
    change some _ = some _
    dsimp only [elements]
    rw [Nat.sub_self, steppedBy_zero, BitVec.sub_zero]
    rfl
  | succ iterations ih =>
    obtain ⟨e, he, hdone⟩ := element_spec hs hp (steppedBy i.down i.bytes k start)
    have hexit : strElement env (env.code (t i.port).handler) (t i.port).arg (i.exit x) index m = some e :=
      (element_congr hidx m).trans he
    unfold strLoop
    rw [hexit]
    cases e with
    | stop retval u =>
      rw [elements_stop he]
      change some _ = some _
      dsimp only
      rw [Nat.sub_self, steppedBy_zero, BitVec.sub_zero]
      rfl
    | next u =>
      have hleast := (elements_spec hs start iterations (k + 1) u hdone.2.1).least
      have hnext : (steppedBy i.down i.bytes 1 index).setWidth (8 * i.addrsize) =
          (steppedBy i.down i.bytes (k + 1) start).setWidth (8 * i.addrsize) := by
        rw [← steppedBy_succ (k := k)]
        exact steppedBy_low (by omega) hidx
      have hsucc : (elements i env t start iterations (k + 1) u).done - k =
          (elements i env t start iterations (k + 1) u).done - (k + 1) + 1 := by omega
      rw [elements_next he, hsucc]
      change strLoop env _ _ (i.exit x) iterations (nextIndex (i.exit x) index) (count - 1) u = _
      rw [nextIndex_exit, ih (k + 1) (steppedBy i.down i.bytes 1 index) (count - 1) u hdone.2.1 hnext, steppedBy_add,
        Nat.add_comm 1, BitVec.sub_sub, BitVec.ofNat_add, BitVec.add_comm]
      rfl

/-- The registers behind `j` more elements, each written in the width of the address size. -/
def StringInstr.regsAfter (i : StringInstr) (regs : Reg → BitVec 64) (j : Nat) : Reg → BitVec 64 := fun reg =>
  if reg = idxreg i.inp then writeBack i.addrsize (regs reg) (steppedBy i.down i.bytes j (regs reg))
  else if reg = .rcx ∧ i.rep = true then writeBack i.addrsize (regs reg) (steppedBy true 1 j (regs reg))
  else regs reg

theorem idxreg_ne (inp : Bool) : idxreg inp ≠ .rcx ∧ idxreg inp ≠ .rax := by
  cases inp <;> decide

theorem updatedRegister_low {x y z : BitVec 64} (h : y.setWidth (8 * i.addrsize) = z.setWidth (8 * i.addrsize)) :
    updatedRegister x y i.addrsize = writeBack i.addrsize x z := by
  rw [updatedRegister_eq i.addrsize_cases, writeBack_congr i.addrsize_cases h]

/-- What an exit makes of a virtual CPU whose elements are done. -/
def exited (i : StringInstr) (m u : Vcpu σ) (j : Nat) (again : Bool) : Vcpu σ :=
  { u with regs := i.regsAfter m.regs j, restart := again }

theorem updateRegister_ok (i : StringInstr) (u : Vcpu σ) (reg : Reg) (val : BitVec 64) :
    updateRegister u reg val i.addrsize = some (u.set reg (updatedRegister (u.regs reg) val i.addrsize)) := by
  have ha := i.addrsize_cases
  exact if_pos (by omega)

/-- The two register updates at the end of an exit. -/
theorem updateRegisters_ok (i : StringInstr) (m u : Vcpu σ) (hregs : u.regs = m.regs) (retval : Int) (j : Nat) :
    updateRegisters (i.exit m) ⟨retval, steppedBy i.down i.bytes j (i.index m &&& size2mask i.addrsize),
      (i.count m &&& size2mask i.addrsize) - BitVec.ofNat 64 j, u⟩ = some { u with regs := i.regsAfter m.regs j } := by
  have ha := i.addrsize_cases
  obtain ⟨hne, -⟩ := idxreg_ne i.inp
  have hindex : updatedRegister (m.regs (idxreg i.inp))
      (steppedBy i.down i.bytes j (i.index m &&& size2mask i.addrsize)) i.addrsize =
      writeBack i.addrsize (m.regs (idxreg i.inp)) (steppedBy i.down i.bytes j (m.regs (idxreg i.inp))) :=
    updatedRegister_low (steppedBy_low (by omega) (and_mask_low _))
  have hcount : i.rep = true → updatedRegister (m.regs .rcx)
      ((i.count m &&& size2mask i.addrsize) - BitVec.ofNat 64 j) i.addrsize =
      writeBack i.addrsize (m.regs .rcx) (steppedBy true 1 j (m.regs .rcx)) := by
    intro hrep
    have hsub : (i.count m &&& size2mask i.addrsize) - BitVec.ofNat 64 j =
        steppedBy true 1 j (i.count m &&& size2mask i.addrsize) := by
      rw [steppedBy, if_pos rfl, Nat.mul_one]
    have hrcx : i.count m = m.regs .rcx := if_pos hrep
    rw [hsub, hrcx]
    exact updatedRegister_low (steppedBy_low (by omega) (and_mask_low _))
  change ((updateRegister u (idxreg i.inp) _ i.addrsize).bind fun v =>
    if i.rep = true then updateRegister v .rcx _ i.addrsize else some v) = _
  rw [updateRegister_ok, Option.bind_some, hregs, hindex]
  by_cases hrep : i.rep = true
  · rw [if_pos hrep, updateRegister_ok, Vcpu.set_ne _ _ hne.symm, hregs, hcount hrep]
    refine congrArg (fun regs => some { u with regs := regs }) (funext fun reg => ?_)
    unfold StringInstr.regsAfter
    by_cases hidx : reg = idxreg i.inp
    · rw [hidx, Function.update_of_ne hne, if_pos rfl]
      exact Function.update_self ..
    · rw [if_neg hidx]
      by_cases hrcx : reg = .rcx
      · rw [hrcx, Function.update_self, if_pos ⟨rfl, hrep⟩]
      · rw [Function.update_of_ne hrcx, if_neg fun h => hrcx h.1, ← hregs]
        exact Function.update_of_ne hidx ..
  · rw [if_neg hrep]
    refine congrArg (fun regs => some { u with regs := regs }) (funext fun reg => ?_)
    unfold StringInstr.regsAfter
    by_cases hidx : reg = idxreg i.inp
    · rw [hidx, if_pos rfl]
      exact Function.update_self ..
    · rw [if_neg hidx, if_neg fun h => hrep h.2, ← hregs]
      exact Function.update_of_ne hidx ..

theorem sub_ofNat_eq_zero {c : BitVec 64} {j : Nat} (h : j ≤ c.toNat) : c - BitVec.ofNat 64 j = 0 ↔ j = c.toNat := by
  have hlt := c.isLt
  have hj : (BitVec.ofNat 64 j).toNat = j := by
    rw [BitVec.toNat_ofNat, Nat.mod_eq_of_lt (by omega)]
  constructor
  · intro h0
    bv_omega
  · intro he
    bv_omega

theorem emulateInout_exit (hs : Serves i env t strict) (hp : m.pending = none) (hr : m.restart = false)
    (hidx : (i.index m).setWidth (8 * i.addrsize) = (steppedBy i.down i.bytes k start).setWidth (8 * i.addrsize))
    (r : Elements σ) (hrun : r = elements i env t start (min (i.length m) 16) k m) :
    emulateInout env (i.exit m) t strict m = some (r.stop.getD 0,
      exited i m r.m (r.done - k) (decide (r.stop.getD 0 = 0 ∧ r.done - k ≠ i.length m))) := by
  have hspec := elements_spec hs start (min (i.length m) 16) k m hp
  rw [← hrun] at hspec
  have hloop := strLoop_elements hs m (min (i.length m) 16) k (i.index m &&& size2mask i.addrsize)
    (i.count m &&& size2mask i.addrsize) m hp ((and_mask_low _).trans hidx)
  rw [← hrun] at hloop
  have hcount : (i.count m &&& size2mask i.addrsize) - BitVec.ofNat 64 (r.done - k) ≠ 0 ↔ r.done - k ≠ i.length m := by
    have hmost := hspec.most
    have hle : r.done - k ≤ (i.count m &&& size2mask i.addrsize).toNat := by
      change r.done - k ≤ i.length m
      omega
    exact not_iff_not.mpr (sub_ofNat_eq_zero hle)
  have hstring : emulateString env (env.code (t i.port).handler) (t i.port).arg (i.exit m) m = some (r.stop.getD 0,
      exited i m r.m (r.done - k) (decide (r.stop.getD 0 = 0 ∧ r.done - k ≠ i.length m))) := by
    refine (congrArg (Option.bind · _) hloop).trans ?_
    rw [Option.bind_some, updateRegisters_ok i m r.m hspec.regs, Option.map_some]
    dsimp only
    by_cases hagain : r.stop.getD 0 = 0 ∧ r.done - k ≠ i.length m
    · rw [if_pos ⟨hagain.1, hcount.mpr hagain.2⟩, exited, decide_eq_true hagain]
    · have hrestart : r.m.restart = false := by
        cases hstop : r.stop with
        | none => exact (hspec.all hstop).2.2.trans hr
        | some retval =>
          obtain ⟨hlt, ⟨rfl, -⟩ | ⟨-, -, hre⟩⟩ := hspec.stopped retval hstop
          · have hleast := hspec.least
            exact absurd ⟨by rw [hstop]; rfl, by omega⟩ hagain
          · exact hre.trans hr
      rw [if_neg (fun h => hagain ⟨h.1, hcount.mp h.2⟩), exited, decide_eq_false hagain, ← hrestart]
  exact (if_neg (not_not.mpr ⟨i.port_lt, i.bytes_ok⟩)).trans ((if_neg fun h => hs.handled h.1 h.2).trans
    ((if_neg hs.flag).trans ((if_pos rfl).trans ((if_pos i.addrsize_cases).trans hstring))))

end Exit

/-! ## All exits -/

section Exits

variable {ι σ : Type} {i : StringInstr} {env : Surroundings ι σ} {t : Table} {strict : Bool} {m u : Vcpu σ}
  {index start : BitVec 64} {n k : Nat}

def Vcpu.withRegs (regs : Reg → BitVec 64) (m : Vcpu σ) : Vcpu σ := { m with regs := regs }

def Element.withRegs (regs : Reg → BitVec 64) : Element σ → Element σ
  | .next m => .next (m.withRegs regs)
  | .stop retval m => .stop retval (m.withRegs regs)

theorem injectFault_withRegs (regs : Reg → BitVec 64) (m : Vcpu σ) (f : Fault) :
    (injectFault (m.withRegs regs) f).map (Element.stop 0) =
      ((injectFault m f).map (Element.stop 0)).map (Element.withRegs regs) := by
  unfold injectFault
  change (if m.pending.isSome = true then _ else _ : Option (Vcpu σ)).map _ = _
  split
  · rfl
  · rfl

/-- No element looks at the registers. -/
theorem element_withRegs (i : StringInstr) (env : Surroundings ι σ) (t : Table) (index : BitVec 64) (m : Vcpu σ)
    (regs : Reg → BitVec 64) :
    i.element env t index (m.withRegs regs) = (i.element env t index m).map (Element.withRegs regs) := by
  unfold StringInstr.element strElement
  cases vieCalculateGla i.base.cpuMode i.base.segName i.base.segDesc index i.base.bytes i.base.addrsize i.base.prot with
  | error e =>
    cases e with
    | kassert => rfl
    | fault => exact injectFault_withRegs regs m .gp
  | ok gla =>
    change strSetup env _ _ i.base gla (m.withRegs regs) (env.copySetup m.machine gla i.base.bytes i.base.prot) =
      (strSetup env _ _ i.base gla m (env.copySetup m.machine gla i.base.bytes i.base.prot)).map (Element.withRegs regs)
    cases env.copySetup m.machine gla i.base.bytes i.base.prot with
    | error s => rfl
    | fault f s => exact injectFault_withRegs regs { m with machine := s } f
    | iov iov s =>
      unfold strSetup
      dsimp only
      split
      · exact injectFault_withRegs regs { m with machine := s } (.ac 0)
      · refine congrArg some ?_
        unfold strAccess
        dsimp only [Vcpu.withRegs]
        split
        · split
          · rfl
          · rfl
        · split
          · rfl
          · rfl

theorem elements_withRegs (i : StringInstr) (env : Surroundings ι σ) (t : Table) (start : BitVec 64)
    (regs : Reg → BitVec 64) (n k : Nat) (m : Vcpu σ) :
    elements i env t start n k (m.withRegs regs) =
      { elements i env t start n k m with m := (elements i env t start n k m).m.withRegs regs } := by
  induction n generalizing k m with
  | zero => rfl
  | succ n ih =>
    have hmap := element_withRegs i env t (steppedBy i.down i.bytes k start) m regs
    cases he : i.element env t (steppedBy i.down i.bytes k start) m with
    | none =>
      rw [he] at hmap
      rw [elements_none he, elements_none hmap]
    | some e =>
      rw [he] at hmap
      cases e with
      | stop retval u => rw [elements_stop he, elements_stop hmap]
      | next u =>
        rw [elements_next he, elements_next hmap]
        exact ih (k + 1) u

theorem writeBack_stepped {down : Bool} {size j l : Nat} (x : BitVec 64) :
    writeBack i.addrsize (writeBack i.addrsize x (steppedBy down size j x))
        (steppedBy down size l (writeBack i.addrsize x (steppedBy down size j x))) =
      writeBack i.addrsize x (steppedBy down size (j + l) x) := by
  have ha := i.addrsize_cases
  rw [writeBack_writeBack]
  refine writeBack_congr ha ?_
  rw [← steppedBy_add]
  exact steppedBy_low (by omega) (writeBack_low ha)

/-- Exits add up. -/
theorem regsAfter_add (regs : Reg → BitVec 64) (j l : Nat) :
    i.regsAfter (i.regsAfter regs j) l = i.regsAfter regs (j + l) := by
  funext reg
  unfold StringInstr.regsAfter
  split
  · exact writeBack_stepped _
  split
  · exact writeBack_stepped _
  · rfl

theorem length_of_not_rep (h : i.rep = false) (m : Vcpu σ) : i.length m = 1 := by
  unfold StringInstr.length StringInstr.count
  rw [if_neg (by rw [h]; decide)]
  rcases i.addrsize_cases with ha | ha | ha <;> rw [ha] <;> decide

theorem regsAfter_index (regs : Reg → BitVec 64) (j : Nat) :
    (i.regsAfter regs j (idxreg i.inp)).setWidth (8 * i.addrsize) =
      (steppedBy i.down i.bytes j (regs (idxreg i.inp))).setWidth (8 * i.addrsize) := by
  rw [StringInstr.regsAfter, if_pos rfl]
  exact writeBack_low i.addrsize_cases

/-- What is left after an exit. -/
theorem regsAfter_length (hrep : i.rep = true) (m : Vcpu σ) {j : Nat} (hj : j ≠ 0) (hle : j ≤ i.length m) :
    i.length (m.withRegs (i.regsAfter m.regs j)) = i.length m - j := by
  have ha := i.addrsize_cases
  have hlen : i.length m = (m.regs .rcx).toNat % 2 ^ (8 * i.addrsize) := by
    rw [StringInstr.length, StringInstr.count, if_pos hrep, size2mask_and (by omega)]
  have hcount : i.count (m.withRegs (i.regsAfter m.regs j)) = indexAfter true 1 i.addrsize (m.regs .rcx) j := by
    rw [StringInstr.count, if_pos hrep, indexAfter, if_neg hj]
    change i.regsAfter m.regs j .rcx = _
    rw [StringInstr.regsAfter, if_neg (idxreg_ne i.inp).1.symm, if_pos ⟨rfl, hrep⟩]
  rw [StringInstr.length, hcount, hlen]
  exact count_left ha (hlen ▸ hle)

theorem Repeats.of_cleared {retval : Int} (h : Repeats i env t strict { m with restart := false } retval u) :
    Repeats i env t strict m retval u := by
  cases h with
  | last he hend => exact .last he hend
  | again he hr hp hrest => exact .again he hr hp hrest

/-- The exits of an instruction are its elements. -/
theorem repeats_spec (hs : Serves i env t strict) (n : Nat) :
    ∀ (k : Nat) (m : Vcpu σ), m.pending = none → m.restart = false → i.length m = n →
      (i.index m).setWidth (8 * i.addrsize) = (steppedBy i.down i.bytes k start).setWidth (8 * i.addrsize) →
      Repeats i env t strict m ((elements i env t start n k m).stop.getD 0)
        (exited i m (elements i env t start n k m).m ((elements i env t start n k m).done - k)
          (decide ((elements i env t start n k m).stop = some 0))) := by
  induction n using Nat.strongRecOn with
  | _ n ih =>
    intro k m hp hr hlen hidx
    have hspec := elements_spec hs start (min n 16) k m hp
    have hclear : { m with restart := false } = m := by rw [← hr]
    have hadd := elements_add i env t start (min n 16) (n - 16) k m
    rw [show min n 16 + (n - 16) = n by omega] at hadd
    have hexit := emulateInout_exit hs hp hr hidx (elements i env t start (min n 16) k m) (by rw [hlen])
    rw [hlen] at hexit
    have hexit := (congrArg (emulateInout env (i.exit m) t strict) hclear).trans hexit
    cases hstop : (elements i env t start (min n 16) k m).stop with
    | some retval =>
      -- What stops an element ends the run within this exit.
      rw [if_neg (by rw [hstop]; exact Option.some_ne_none _)] at hadd
      obtain ⟨hlt, hend⟩ := hspec.stopped retval hstop
      have hleft : (elements i env t start (min n 16) k m).done - k ≠ n := by
        have hleast := hspec.least
        omega
      rw [hadd, hstop]
      rw [hstop] at hexit
      rcases hend with ⟨rfl, hpend, -⟩ | ⟨rfl, -⟩
      · rw [decide_eq_true ⟨rfl, hleft⟩] at hexit
        exact .last hexit (.inr (.inr hpend))
      · rw [decide_eq_false fun h => absurd h.1 (by decide)] at hexit
        exact .last hexit (.inl (by decide))
    | none =>
      obtain ⟨hdone, hpend, hrestart⟩ := hspec.all hstop
      rw [if_pos hstop] at hadd
      rw [hstop] at hexit
      by_cases hn : n ≤ 16
      · have hz : n - 16 = 0 := by omega
        rw [hz] at hadd
        have hall : (elements i env t start (min n 16) k m).done - k = n := by omega
        rw [hadd]
        rw [decide_eq_false fun h => h.2 hall] at hexit
        exact .last hexit (.inr (.inl rfl))
      · -- Sixteen elements are done, and the instruction is restarted for the rest.
        have hleft : (elements i env t start (min n 16) k m).done - k ≠ n := by omega
        have h16 : (elements i env t start (min n 16) k m).done - k = 16 := by omega
        have hk : (elements i env t start (min n 16) k m).done = k + 16 := by omega
        have hrep : i.rep = true := by
          cases hrep : i.rep with
          | true => rfl
          | false =>
            have h1 := length_of_not_rep hrep m
            omega
        rw [decide_eq_true ⟨rfl, hleft⟩, h16] at hexit
        rw [hk] at hadd
        generalize (elements i env t start (min n 16) k m).m = v at *
        have hv : { exited i m v 16 true with restart := false } = v.withRegs (i.regsAfter m.regs 16) := by
          rw [← hr, ← hrestart]
          rfl
        have hlen' : i.length (v.withRegs (i.regsAfter m.regs 16)) = n - 16 := by
          have h := regsAfter_length hrep m (j := 16) (by decide) (by omega)
          rw [hlen] at h
          exact h
        have hidx' : (i.index (v.withRegs (i.regsAfter m.regs 16))).setWidth (8 * i.addrsize) =
            (steppedBy i.down i.bytes (k + 16) start).setWidth (8 * i.addrsize) := by
          have ha := i.addrsize_cases
          rw [← steppedBy_add]
          exact (regsAfter_index m.regs 16).trans (steppedBy_low (by omega) hidx)
        have hrest := elements_withRegs i env t start (i.regsAfter m.regs 16) (n - 16) (k + 16) v
        have hrun := ih (n - 16) (by omega) (k + 16) (v.withRegs (i.regsAfter m.regs 16)) hpend (hrestart.trans hr) hlen' hidx'
        have hmore := (elements_spec hs start (n - 16) (k + 16) v hpend).least
        rw [hrest, ← hadd] at hrun
        rw [← hadd] at hmore
        have hregs : i.regsAfter (i.regsAfter m.regs 16) ((elements i env t start n k m).done - (k + 16)) =
            i.regsAfter m.regs ((elements i env t start n k m).done - k) := by
          rw [regsAfter_add]
          congr 1
          omega
        refine .again hexit rfl hpend (Repeats.of_cleared ?_)
        rw [hv]
        unfold exited at hrun ⊢
        dsimp only [Vcpu.withRegs] at hrun ⊢
        rw [hregs] at hrun
        exact hrun

end Exits

/-! ## The instruction as a whole -/

section Whole

variable {ι σ : Type} {i : StringInstr} {env : Surroundings ι σ} {t : Table} {strict : Bool} {m u v : Vcpu σ}
  {k : Nat} {x : BitVec 64}

/-- There is one way for the exits to go. -/
theorem Repeats.unique {retval retval' : Int} (h : Repeats i env t strict m retval u)
    (h' : Repeats i env t strict m retval' v) : retval' = retval ∧ v = u := by
  induction h with
  | last he hend =>
    cases h' with
    | last he' _ =>
      obtain ⟨rfl, rfl⟩ := Prod.mk.inj (Option.some.inj (he.symm.trans he'))
      exact ⟨rfl, rfl⟩
    | again he' hr hp _ =>
      obtain ⟨rfl, rfl⟩ := Prod.mk.inj (Option.some.inj (he.symm.trans he'))
      rw [hr, hp] at hend
      exact absurd hend (by decide)
  | again he hr hp _ ih =>
    cases h' with
    | last he' hend =>
      obtain ⟨rfl, rfl⟩ := Prod.mk.inj (Option.some.inj (he.symm.trans he'))
      rw [hr, hp] at hend
      exact absurd hend (by decide)
    | again he' _ _ hrest =>
      obtain ⟨-, rfl⟩ := Prod.mk.inj (Option.some.inj (he.symm.trans he'))
      exact ih hrest

/-- The instruction at its first exit, without exits. -/
def StringInstr.run (i : StringInstr) (env : Surroundings ι σ) (t : Table) (m : Vcpu σ) : Elements σ :=
  elements i env t (i.index m) (i.length m) 0 { m with restart := false }

/-- What the exits leave of memory, the devices and the instruction: all elements are done, or those before one that
raises a fault, which is pending then, or that has an error. -/
structure Performed (i : StringInstr) (m : Vcpu σ) (r : Elements σ) (u : Vcpu σ) : Prop where
  machine : u.machine = r.m.machine
  accesses : AccessesFor i (i.index m) 0 r.done m u
  all : r.stop = none → r.done = i.length m ∧ u.restart = false ∧ u.pending = none
  fault : r.stop = some 0 → r.done < i.length m ∧ u.restart = true ∧ u.pending = r.m.pending ∧ u.pending.isSome = true
  error : r.stop ≠ none → r.stop ≠ some 0 → r.stop = some (-1) ∧ r.done < i.length m ∧ u.restart = false

/-- The registers behind `k` elements. -/
structure Architectural (i : StringInstr) (m u : Vcpu σ) (k : Nat) : Prop where
  index : u.regs (idxreg i.inp) = indexAfter i.down i.bytes i.addrsize (i.index m) k
  count : u.regs .rcx = if i.rep = true then indexAfter true 1 i.addrsize (m.regs .rcx) k else m.regs .rcx
  others : ∀ reg, reg ≠ idxreg i.inp → reg ≠ .rcx → u.regs reg = m.regs reg

/-- There is a first element, and it goes through. -/
def StringInstr.Starts (i : StringInstr) (env : Surroundings ι σ) (t : Table) (m : Vcpu σ) : Prop :=
  0 < i.length m ∧ ∃ u, i.element env t (i.index m) { m with restart := false } = some (.next u)

/-- The registers the instruction steps have nothing in their upper half. -/
def StringInstr.UpperClear (i : StringInstr) (m : Vcpu σ) : Prop :=
  i.index m >>> 32 = 0 ∧ (i.rep = true → m.regs .rcx >>> 32 = 0)

theorem done_ne_zero_iff (hs : Serves i env t strict) (hp : m.pending = none) :
    (i.run env t m).done ≠ 0 ↔ i.Starts env t m := by
  unfold StringInstr.run StringInstr.Starts
  cases hn : i.length m with
  | zero => exact iff_of_false (fun h => h rfl) fun h => absurd h.1 (Nat.lt_irrefl 0)
  | succ n =>
    have hfirst : steppedBy i.down i.bytes 0 (i.index m) = i.index m := steppedBy_zero
    obtain ⟨e, he, hdone⟩ := element_spec hs (m := { m with restart := false }) hp (i.index m)
    rw [← hfirst] at he
    cases e with
    | stop retval u =>
      rw [elements_stop he, ← hfirst, he]
      refine iff_of_false (fun h => h rfl) fun h => ?_
      obtain ⟨-, v, hv⟩ := h
      cases hv
    | next u =>
      have hleast := (elements_spec hs (i.index m) n (0 + 1) u hdone.2.1).least
      rw [elements_next he]
      refine iff_of_true (by omega) ⟨n.succ_pos, u, ?_⟩
      rw [← hfirst]
      exact he

theorem shift32_eq_zero_iff : x >>> 32 = 0 ↔ (x.setWidth 32).setWidth 64 = x := by
  have hlt := x.isLt
  rw [← BitVec.toNat_inj, ← BitVec.toNat_inj]
  simp only [BitVec.toNat_ushiftRight, BitVec.toNat_setWidth, Nat.shiftRight_eq_div_pow]
  change x.toNat / 2 ^ 32 = 0 ↔ _
  omega

/-- Writing a register back as it is. -/
theorem writeBack_self_iff (i : StringInstr) (x : BitVec 64) :
    writeBack i.addrsize x x = x ↔ i.addrsize ≠ 4 ∨ x >>> 32 = 0 := by
  rcases i.addrsize_cases with ha | ha | ha <;> rw [ha]
  · refine iff_of_true ?_ (.inl (by decide))
    rw [writeBack, if_pos rfl, BitVec.setWidth_eq_extractLsb' (by decide)]
    exact BitVec.extractLsb'_append_extractLsb'
  · rw [shift32_eq_zero_iff]
    exact ⟨.inr, fun h => h.resolve_left (by decide)⟩
  · exact iff_of_true rfl (.inl (by decide))

/-- A register behind `k` elements, as the last exit writes it, is as the processor would have it. -/
theorem writeBack_eq_indexAfter_iff {down : Bool} {size : Nat} (i : StringInstr) (x : BitVec 64) (k : Nat) :
    writeBack i.addrsize x (steppedBy down size k x) = indexAfter down size i.addrsize x k ↔
      k ≠ 0 ∨ i.addrsize ≠ 4 ∨ x >>> 32 = 0 := by
  by_cases hk : k = 0
  · rw [hk, steppedBy_zero, indexAfter, if_pos rfl, writeBack_self_iff]
    exact ⟨.inr, fun h => h.resolve_left fun h => h rfl⟩
  · rw [indexAfter, if_neg hk]
    exact iff_of_true rfl (.inl hk)

theorem regsAfter_architectural_iff (hu : u.regs = i.regsAfter m.regs k) :
    Architectural i m u k ↔ k ≠ 0 ∨ i.addrsize ≠ 4 ∨ i.UpperClear m := by
  have hindex : u.regs (idxreg i.inp) =
      writeBack i.addrsize (i.index m) (steppedBy i.down i.bytes k (i.index m)) := by
    rw [hu, StringInstr.regsAfter, if_pos rfl]
    rfl
  have hcount : u.regs .rcx = if i.rep = true then writeBack i.addrsize (m.regs .rcx) (steppedBy true 1 k (m.regs .rcx))
      else m.regs .rcx := by
    rw [hu, StringInstr.regsAfter, if_neg (idxreg_ne i.inp).1.symm]
    by_cases hrep : i.rep = true
    · rw [if_pos hrep, if_pos ⟨rfl, hrep⟩]
    · rw [if_neg hrep, if_neg fun h => hrep h.2]
  constructor
  · intro h
    have hi := (writeBack_eq_indexAfter_iff i (i.index m) k).mp (hindex.symm.trans h.index)
    rcases hi with hk | ha | hclear
    · exact .inl hk
    · exact .inr (.inl ha)
    · by_cases hdone : k ≠ 0 ∨ i.addrsize ≠ 4
      · exact hdone.imp_right .inl
      · refine .inr (.inr ⟨hclear, fun hrep => ?_⟩)
        have hc := hcount.symm.trans h.count
        rw [if_pos hrep, if_pos hrep] at hc
        have hrcx := (writeBack_eq_indexAfter_iff i (m.regs .rcx) k).mp hc
        tauto
  · intro h
    refine ⟨hindex.trans ?_, hcount.trans ?_, fun reg hidx hrcx => ?_⟩
    · exact (writeBack_eq_indexAfter_iff i _ k).mpr (h.imp_right (Or.imp_right And.left))
    · by_cases hrep : i.rep = true
      · rw [if_pos hrep, if_pos hrep]
        exact (writeBack_eq_indexAfter_iff i _ k).mpr (h.imp_right (Or.imp_right fun h => h.2 hrep))
      · rw [if_neg hrep, if_neg hrep]
    · rw [hu, StringInstr.regsAfter, if_neg hidx, if_neg fun h => hrcx h.1]

theorem performed_exited (hs : Serves i env t strict) (hp : m.pending = none) :
    Performed i m (i.run env t m) (exited i m (i.run env t m).m (i.run env t m).done
      (decide ((i.run env t m).stop = some 0))) := by
  have hspec := elements_spec hs (i.index m) (i.length m) 0 { m with restart := false } hp
  change ElementsDone i (i.index m) (i.length m) 0 _ (i.run env t m) at hspec
  generalize i.run env t m = r at hspec
  refine ⟨rfl, hspec.accesses, ?_, ?_, ?_⟩
  · intro h
    obtain ⟨hdone, hpend, -⟩ := hspec.all h
    exact ⟨hdone.trans (Nat.zero_add _), decide_eq_false (by rw [h]; exact (Option.some_ne_none 0).symm), hpend⟩
  · intro h
    obtain ⟨hlt, ⟨-, hpend, -⟩ | ⟨h0, -⟩⟩ := hspec.stopped 0 h
    · exact ⟨by omega, decide_eq_true h, rfl, hpend⟩
    · exact absurd h0 (by decide)
  · intro hsome hne
    obtain ⟨retval, hstop⟩ := Option.ne_none_iff_exists'.mp hsome
    obtain ⟨hlt, ⟨rfl, -⟩ | ⟨rfl, -⟩⟩ := hspec.stopped retval hstop
    · exact absurd hstop hne
    · exact ⟨hstop, by omega, decide_eq_false hne⟩

/-- The exits of a string instruction come to one end. All its elements are done by then, each with one port access and in
order, or those before a fault, with which it is restarted. Its registers are those behind the elements done, but for the
upper halves an exit clears at a 32-bit address size when not even the first has gone through. -/
theorem string_io_iff (hs : Serves i env t strict) (hp : m.pending = none) :
    ∃ u, Repeats i env t strict m ((i.run env t m).stop.getD 0) u ∧
      (∀ retval v, Repeats i env t strict m retval v → retval = (i.run env t m).stop.getD 0 ∧ v = u) ∧
      Performed i m (i.run env t m) u ∧
      (Architectural i m u (i.run env t m).done ↔ i.addrsize ≠ 4 ∨ i.Starts env t m ∨ i.UpperClear m) := by
  have hend : Repeats i env t strict m ((i.run env t m).stop.getD 0) (exited i m (i.run env t m).m (i.run env t m).done
      (decide ((i.run env t m).stop = some 0))) :=
    Repeats.of_cleared (@repeats_spec _ _ _ _ _ _ (i.index m) hs (i.length m) 0 { m with restart := false } hp rfl rfl
      (by rw [steppedBy_zero]; rfl))
  refine ⟨_, hend, fun retval v h => Repeats.unique hend h, performed_exited hs hp, ?_⟩
  rw [regsAfter_architectural_iff rfl, done_ne_zero_iff hs hp]
  exact or_left_comm

end Whole

/-! ## INS in 64-bit mode -/

/-- `rep insb` from port 0x40. -/
def insb (addrsize : Nat) (h : addrsize = 4 ∨ addrsize = 8) : StringInstr where
  inp := true
  rep := true
  bytes := 1
  port := 0x40
  addrsize := addrsize
  cpuMode := .mode64
  cpl := 0
  rflags := 0
  cr0 := 0
  segName := .es
  segDesc := ⟨0, 0, 0⟩
  bytes_ok := .inl rfl
  port_lt := by decide
  addrsize_ok := h
  seg_ok := fun h => absurd rfl h

/-- Guest memory that is all there, -/
def mapped : Surroundings Unit Unit where
  code _ _ _ _ _ _ _ := (0, 0xff, ())
  copySetup _ _ _ _ := .iov () ()
  copyin _ _ _ := 0
  copyout _ _ _ _ := ()

/-- or all missing. -/
def unmapped : Surroundings Unit Unit := { mapped with copySetup := fun _ gla _ _ => .fault (.pf 2 gla) () }

def defaultTable : Table := fun _ => (defaultIop 0 1).entry

/-- Seventeen bytes to go. -/
def insVcpu : Vcpu Unit where
  regs reg := if reg = .rcx then 17 else 0x1122334455667788
  machine := ()
  accesses := []
  pending := none
  restart := false

theorem string_io_clears_rdi :
    Serves (insb 4 (.inl rfl)) unmapped defaultTable false ∧
    ∃ u, Repeats (insb 4 (.inl rfl)) unmapped defaultTable false insVcpu 0 u ∧ u.accesses = [] ∧
      u.pending = some (.pf 2 0x55667788) ∧ u.regs .rdi = 0x55667788 ∧ ¬ Architectural (insb 4 (.inl rfl)) insVcpu u 0 := by
  refine ⟨⟨fun h => Bool.noConfusion h, by decide +kernel, fun _ _ => rfl⟩, _, .last rfl (.inr (.inr rfl)), ?_⟩
  refine ⟨by decide +kernel, by decide +kernel, by decide +kernel, fun h => ?_⟩
  exact absurd h.index (by decide +kernel)

theorem string_io_seventeen :
    ∃ u, Repeats (insb 8 (.inr rfl)) mapped defaultTable false insVcpu 0 u ∧
      Architectural (insb 8 (.inr rfl)) insVcpu u 17 := by
  have hs : Serves (insb 8 (.inr rfl)) mapped defaultTable false :=
    ⟨fun h => Bool.noConfusion h, by decide +kernel, fun _ _ => rfl⟩
  obtain ⟨u, hrepeats, -, hperformed, harch⟩ := string_io_iff (m := insVcpu) hs rfl
  have hstop : ((insb 8 (.inr rfl)).run mapped defaultTable insVcpu).stop = none := rfl
  have hdone := (hperformed.all hstop).1
  have hlength : (insb 8 (.inr rfl)).length insVcpu = 17 := by decide
  rw [hstop] at hrepeats
  rw [hdone, hlength] at harch
  exact ⟨u, hrepeats, harch.mpr (.inl (by decide))⟩

end Xhyve.Emul.Inout
