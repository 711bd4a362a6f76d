import Mathlib.Data.Nat.Prime.Basic
import Xhyve.Emul.PciWindows
import Xhyve.Lib.Pools

/-!
# BAR allocation

`pci_emul_alloc_pbar` as a whole: the address from one of the allocators, the BAR of the device, its
registers in configuration space and the registration of the range. The history of all calls is kept
beside the state, because what must not meet are ranges from different calls.

A 64-bit request that is 4 GiB once it is rounded up is special: it goes where the caller says, for
the benefit of peer to peer DMA, and the allocators do not know of it.
-/

namespace Xhyve.Emul.Pci

open Xhyve.Lib Xhyve.Lib.Mem

def pcimBarIoBase : Nat := 0xfffffffc
def pcimBarMemBase : Nat := 0xfffffffffffffff0

/-- From here on a 64-bit BAR goes above 4 GiB. -/
def smallMem64 : Nat := 32 * 1024 * 1024

/-- `(addr & mask) | lobits`. -/
def barReg (bar : Bar) : Nat :=
  match bar.type with
  | .io => bar.addr &&& pcimBarIoBase ||| pcimBarIoSpace
  | .mem64 =>
    if bar.size > smallMem64 then
      bar.addr &&& pcimBarMemBase ||| (pcimBarMem64 ||| pcimBarMemPrefetch)
    else bar.addr &&& pcimBarMemBase ||| pcimBarMem64
  | .mem32 => bar.addr &&& pcimBarMemBase
  | .none | .memhi64 => 0

def Devinst.setBar (pi : Devinst) (idx : Nat) (bar : Bar) : Devinst :=
  { pi with piBar := Function.update pi.piBar idx bar }

/-- The BAR and its registers. The high half of a 64-bit BAR is the register behind it. -/
def installBar (pi : Devinst) (idx : Nat) (bar : Bar) : Devinst :=
  let reg := barReg bar
  let pi := cfgwrite (pi.setBar idx bar) (pcirBar idx) (reg % 2 ^ 32) 4
  if bar.type = .mem64 then
    let high := { pi.piBar (idx + 1) with type := .memhi64 }
    cfgwrite (pi.setBar (idx + 1) high) (pcirBar (idx + 1)) (reg >>> 32) 4
  else pi

structure AllocCall where
  p : Nat
  idx : Nat
  hostbase : BitVec 64
  type : BarType
  size : Nat
deriving DecidableEq, Repr

structure AllocState where
  bases : Bases
  bus : Bus

/-- `none` when an assertion fails; no BAR for the -1 of `pci_emul_alloc_resource`. -/
def AllocState.allocPbar (s : AllocState) (c : AllocCall) : Option (AllocState × Option Bar) :=
  if pciBarmax < c.idx then none
  else
    match s.bus.devs c.p with
    | none => none
    | some pi =>
      match pciEmulAllocPbar s.bases c.hostbase.toNat c.type c.size with
      | .error .noSpace => some (s, none)
      | .error .assertion => none
      | .ok (bases, bar) =>
        if bar.type = .mem64 ∧ pciBarmax < c.idx + 1 then none
        else
          match registerBar (s.bus.setDev c.p (installBar pi c.idx bar)) c.p c.idx bar with
          | .error _ => none
          | .ok bus => some (⟨bases, bus⟩, some bar)

/-- The state, and what was handed out to whom so far. -/
structure AllocRun where
  state : AllocState
  granted : List (AllocCall × Bar)

def AllocRun.next (r : AllocRun) (c : AllocCall) : Option AllocRun :=
  (r.state.allocPbar c).map fun out =>
    { state := out.1
      granted := r.granted ++ (out.2.map fun bar => (c, bar)).toList }

/-- From the bases `init_pci` sets, requests of less than 4 GiB. -/
def allocSystem : System AllocRun AllocCall :=
  (System.ofFn (fun r => r.state.bases = initState.bases ∧ r.granted = []) AllocRun.next).restrict
    fun _ c => c.size < 2 ^ 32

/-! ## What the BARs should be -/

inductive Pool
  | io | low | high
deriving DecidableEq, Repr

def Pool.start : Pool → Nat
  | .io => pciEmulIobase
  | .low => xhVmGetLowmemLimit
  | .high => pciEmulMembase64

def Pool.limit : Pool → Nat
  | .io => pciEmulIolimit
  | .low => pciEmulMemlimit32
  | .high => pciEmulMemlimit64

/-- Where a BAR belongs. -/
def Bar.pool (bar : Bar) : Pool :=
  match bar.type with
  | .io => .io
  | .mem64 => if bar.size > smallMem64 then .high else .low
  | .mem32 | .none | .memhi64 => .low

/-- The least size of a BAR in the standard. -/
def leastBar (type : BarType) : Nat := if type = .io then 4 else 16

/-- Ports and memory are two spaces. -/
def sameSpace (bar bar' : Bar) : Prop := bar.type = .io ↔ bar'.type = .io

instance (bar bar' : Bar) : Decidable (sameSpace bar bar') := inferInstanceAs (Decidable (_ ↔ _))

/-- The range of one allocation. -/
structure GrantFits (c : AllocCall) (bar : Bar) : Prop where
  type : bar.type = c.type
  power : bar.size.isPowerOfTwo
  aligned : bar.size ∣ bar.addr
  requested : c.size ≤ bar.size
  least : leastBar c.type ≤ bar.size
  window : bar.pool.start ≤ bar.addr ∧ bar.addr + bar.size ≤ bar.pool.limit

/-- The ranges of a history of allocations. -/
structure Allotted (granted : List (AllocCall × Bar)) : Prop where
  fits : ∀ g ∈ granted, GrantFits g.1 g.2
  apart : granted.Pairwise fun g g' => sameSpace g.2 g'.2 →
    ∀ x, ¬ (g.2.inRange x ∧ g'.2.inRange x)

/-- A 64-bit request that is rounded up to 4 GiB. -/
def AllocCall.peer (c : AllocCall) : Bool := c.type = .mem64 ∧ 2 ^ 31 < c.size

/-! ## Sizes -/

/-- The power of 2 before the least size of the standard is looked at. -/
theorem barSize_rounded (type : BarType) (size : Nat) :
    barSize type size = max (leastBar type)
      (if size &&& (size - 1) ≠ 0 then 1 <<< flsl size else size) := by
  unfold barSize leastBar
  simp only
  generalize (if size &&& (size - 1) ≠ 0 then 1 <<< flsl size else size) = n
  split
  · split
    · omega
    · omega
  · split
    · omega
    · omega

theorem rounded_pow {size : Nat} (hpos : 0 < size) :
    (if size &&& (size - 1) ≠ 0 then 1 <<< flsl size else size).isPowerOfTwo := by
  split
  · exact ⟨flsl size, by rw [Nat.shiftLeft_eq, Nat.one_mul]⟩
  · rename_i h
    exact (Nat.and_sub_one_eq_zero_iff_isPowerOfTwo (by omega)).mp (not_not.mp h)

theorem le_rounded (size : Nat) :
    size ≤ (if size &&& (size - 1) ≠ 0 then 1 <<< flsl size else size) := by
  split
  · rename_i h
    have hne : size ≠ 0 := fun h0 => h (by simp [h0])
    have hlt := Nat.lt_log2_self (n := size)
    rw [flsl, if_neg hne, Nat.shiftLeft_eq, Nat.one_mul]
    exact hlt.le
  · exact Nat.le_refl _

theorem barSize_pow (type : BarType) (size : Nat) : (barSize type size).isPowerOfTwo := by
  have hleast : (leastBar type).isPowerOfTwo := by
    unfold leastBar
    split
    · exact ⟨2, rfl⟩
    · exact ⟨4, rfl⟩
  rw [barSize_rounded]
  by_cases hpos : 0 < size
  · rcases max_choice (leastBar type) (if size &&& (size - 1) ≠ 0 then 1 <<< flsl size else size)
      with h | h
    · rw [h]
      exact hleast
    · rw [h]
      exact rounded_pow hpos
  · obtain rfl : size = 0 := by omega
    simpa using hleast

theorem le_barSize (type : BarType) (size : Nat) : size ≤ barSize type size := by
  rw [barSize_rounded]
  exact (le_rounded size).trans (le_max_right _ _)

theorem leastBar_le_barSize (type : BarType) (size : Nat) : leastBar type ≤ barSize type size := by
  rw [barSize_rounded]
  exact le_max_left _ _

/-- Rounding up stays below any power of 2 the size stays below. -/
theorem barSize_le {type : BarType} {size k : Nat} (hk : 4 ≤ k) (hsize : size ≤ 2 ^ k) :
    barSize type size ≤ 2 ^ k := by
  have hleast : leastBar type ≤ 2 ^ k := by
    have hpow : 2 ^ 4 ≤ 2 ^ k := Nat.pow_le_pow_right (by decide) hk
    unfold leastBar
    split
    · omega
    · omega
  rw [barSize_rounded]
  refine max_le hleast ?_
  split
  · rename_i h
    have hne : size ≠ 0 := fun h0 => h (by simp [h0])
    have hlt : size < 2 ^ k := by
      refine lt_of_le_of_ne hsize fun heq => h ?_
      exact (Nat.and_sub_one_eq_zero_iff_isPowerOfTwo hne).mpr ⟨k, heq⟩
    rw [flsl, if_neg hne, Nat.shiftLeft_eq, Nat.one_mul]
    exact Nat.pow_le_pow_right (by decide) ((Nat.log2_lt hne).mpr hlt)
  · exact hsize

/-- What the special case for peer to peer DMA looks for. -/
theorem barSize_peer {size : Nat} (hsize : size < 2 ^ 32) :
    barSize .mem64 size = 0x100000000 ↔ 2 ^ 31 < size := by
  constructor
  · intro h
    by_contra hle
    have := @barSize_le .mem64 size 31 (by decide) (not_lt.mp hle)
    omega
  · intro h
    have hup := @barSize_le .mem64 size 32 (by decide) hsize.le
    have hlo := le_barSize .mem64 size
    obtain ⟨k, hk⟩ := barSize_pow .mem64 size
    rw [hk] at hup hlo ⊢
    have hk32 : k ≤ 32 := (Nat.pow_le_pow_iff_right (by decide)).mp hup
    have hk31 : 31 < k := (Nat.pow_lt_pow_iff_right (by decide)).mp (lt_of_lt_of_le h hlo)
    obtain rfl : k = 32 := by omega
    rfl

/-! ## One call -/

def Bases.next (b : Bases) : Pool → Nat
  | .io => b.iobase
  | .low => b.membase32
  | .high => b.membase64

theorem dvd_roundup2 (x y : Nat) : y ∣ roundup2 x y := Nat.dvd_mul_left y _

/-- A BAR taken from an allocator. -/
structure Taken (b b' : Bases) (bar : Bar) : Prop where
  aligned : bar.size ∣ bar.addr
  free : b.next bar.pool ≤ bar.addr
  limit : bar.addr + bar.size ≤ bar.pool.limit
  next : b'.next = Function.update b.next bar.pool (bar.addr + bar.size)

section Alloc
variable {b b' : Bases} {bar : Bar} {size : Nat} {type : BarType}

theorem allocIo_taken (hsize : 0 < size) (h : allocIo b size = .ok (b', bar)) :
    bar.type = .io ∧ bar.size = size ∧ Taken b b' bar := by
  obtain ⟨base, rfl, rfl, hlo, rfl, hlimit⟩ := allocIo_ok hsize h
  refine ⟨rfl, rfl, dvd_roundup2 _ _, hlo, hlimit, funext fun i => ?_⟩
  cases i
  all_goals rfl

theorem allocMem64_taken (hsize : smallMem64 < size) (h : allocMem64 b size = .ok (b', bar)) :
    bar.type = .mem64 ∧ bar.size = size ∧ Taken b b' bar := by
  unfold allocMem64 at h
  split at h
  · cases h
  · rename_i addr base hres
    obtain ⟨rfl, rfl⟩ := Prod.mk.inj (Except.ok.inj h)
    obtain ⟨rfl, hlo, rfl, hlimit⟩ := allocResource_some (by omega) hres
    have hpool : Bar.pool ⟨.mem64, size, roundup2 b.membase64 size⟩ = .high := if_pos hsize
    refine ⟨rfl, rfl, dvd_roundup2 _ _, ?_, ?_, ?_⟩
    · rw [hpool]
      exact hlo
    · rw [hpool]
      exact hlimit
    · rw [hpool]
      funext i
      cases i
      all_goals rfl

theorem allocMem32_taken (hsize : 0 < size) (hpool : Bar.pool ⟨type, size, 0⟩ = .low)
    (h : allocMem32 b type size = .ok (b', bar)) :
    bar.type = type ∧ bar.size = size ∧ Taken b b' bar := by
  unfold allocMem32 at h
  split at h
  · cases h
  · rename_i addr base hres
    obtain ⟨rfl, rfl⟩ := Prod.mk.inj (Except.ok.inj h)
    obtain ⟨rfl, hlo, rfl, hlimit⟩ := allocResource_some hsize hres
    have hpool : Bar.pool ⟨type, size, roundup2 b.membase32 size⟩ = .low := hpool
    refine ⟨rfl, rfl, dvd_roundup2 _ _, ?_, ?_, ?_⟩
    · rw [hpool]
      exact hlo
    · rw [hpool]
      exact hlimit
    · rw [hpool]
      funext i
      cases i
      all_goals rfl

theorem allocPbar_taken {hostbase : Nat} (hsize : size < 2 ^ 32)
    (hpeer : ¬ (type = .mem64 ∧ 2 ^ 31 < size))
    (h : pciEmulAllocPbar b hostbase type size = .ok (b', bar)) :
    bar.type = type ∧ bar.size = barSize type size ∧ Taken b b' bar := by
  have hpos := barSize_pos type size
  unfold pciEmulAllocPbar at h
  simp only at h
  split at h
  · cases h
  · exact allocIo_taken hpos h
  · split at h
    · rename_i hbig
      split at h
      · rename_i hfour
        exact absurd ⟨rfl, (barSize_peer hsize).mp hfour⟩ hpeer
      · exact allocMem64_taken hbig h
    · rename_i hsmall
      exact allocMem32_taken hpos (if_neg hsmall) h
  · exact allocMem32_taken hpos rfl h
  · cases h

/-- The special case: the allocators do not move. -/
theorem allocPbar_peer {hostbase : Nat} (hsize : size < 2 ^ 32) (hpeer : 2 ^ 31 < size)
    (h : pciEmulAllocPbar b hostbase .mem64 size = .ok (b', bar)) :
    b' = b ∧ bar.type = .mem64 ∧ bar.size = 2 ^ 32 ∧ bar.size ∣ bar.addr := by
  have hfour := (barSize_peer hsize).mpr hpeer
  unfold pciEmulAllocPbar at h
  simp only [hfour] at h
  rw [if_pos (by decide), if_pos trivial] at h
  split at h
  · cases h
  · rename_i addr hres
    obtain ⟨rfl, rfl⟩ := Prod.mk.inj (Except.ok.inj h)
    unfold pciEmulAllocHost at hres
    simp only at hres
    split at hres
    · obtain rfl := Option.some.inj hres
      exact ⟨rfl, rfl, rfl, Nat.dvd_mul_left _ _⟩
    · cases hres

end Alloc

/-- A call fails and leaves everything as it is, or hands out a BAR. -/
theorem AllocState.allocPbar_cases {s s' : AllocState} {c : AllocCall} {out : Option Bar}
    (h : s.allocPbar c = some (s', out)) :
    out = none ∧ s' = s ∨
      ∃ bar, out = some bar ∧
        pciEmulAllocPbar s.bases c.hostbase.toNat c.type c.size = .ok (s'.bases, bar) := by
  unfold AllocState.allocPbar at h
  split at h
  · cases h
  · split at h
    · cases h
    · split at h
      · obtain ⟨rfl, rfl⟩ := Prod.mk.inj (Option.some.inj h)
        exact Or.inl ⟨rfl, rfl⟩
      · cases h
      · rename_i bases bar hres
        split at h
        · cases h
        · split at h
          · cases h
          · obtain ⟨rfl, rfl⟩ := Prod.mk.inj (Option.some.inj h)
            exact Or.inr ⟨bar, rfl, hres⟩

/-! ## The history -/

/-- The allocations the allocators know of. -/
def AllocRun.shared (r : AllocRun) : List (AllocCall × Bar) := r.granted.filter fun g => !g.1.peer

/-- What every call keeps. -/
structure Tidy (r : AllocRun) : Prop where
  pooled : Pooled (fun g : AllocCall × Bar => g.2.pool) (fun g => g.2.addr)
    (fun g => g.2.addr + g.2.size) Pool.start r.state.bases.next r.shared
  limit : ∀ i, r.state.bases.next i ≤ i.limit
  sized : ∀ g ∈ r.shared, g.2.type = g.1.type ∧ g.2.size = barSize g.1.type g.1.size ∧
    g.2.size ∣ g.2.addr
  peer : ∀ g ∈ r.granted, g.1.peer = true →
    g.2.type = .mem64 ∧ g.2.size = 2 ^ 32 ∧ g.2.size ∣ g.2.addr

theorem Tidy.init {r : AllocRun} (hbases : r.state.bases = initState.bases)
    (hgranted : r.granted = []) : Tidy r := by
  have hnext : r.state.bases.next = Pool.start := by
    rw [hbases]
    funext i
    cases i
    all_goals rfl
  have hshared : r.shared = [] := by rw [AllocRun.shared, hgranted, List.filter_nil]
  refine ⟨?_, fun i => ?_, ?_, ?_⟩
  · rw [hnext, hshared]
    exact Pooled.nil
  · rw [hnext]
    cases i
    all_goals decide
  · simp [hshared]
  · simp [hgranted]

/-- A BAR one of the allocators hands out. -/
theorem Tidy.take {r r' : AllocRun} {c : AllocCall} {bar : Bar} (h : Tidy r)
    (hsize : c.size < 2 ^ 32) (hpeer : c.peer = false)
    (hres : pciEmulAllocPbar r.state.bases c.hostbase.toNat c.type c.size =
      .ok (r'.state.bases, bar))
    (hgranted : r'.granted = r.granted ++ [(c, bar)]) : Tidy r' := by
  obtain ⟨htype, hbsize, htaken⟩ := allocPbar_taken hsize (of_decide_eq_false hpeer) hres
  have hshared : r'.shared = r.shared ++ [(c, bar)] := by
    rw [AllocRun.shared, hgranted, List.filter_append]
    simp [hpeer, AllocRun.shared]
  refine ⟨?_, fun i => ?_, fun g hg => ?_, fun g hg hp => ?_⟩
  · rw [hshared, htaken.next]
    exact h.pooled.push (a := (c, bar)) htaken.free (Nat.le_add_right _ _)
  · rw [htaken.next]
    by_cases hi : i = bar.pool
    · subst hi
      rw [Function.update_self]
      exact htaken.limit
    · rw [Function.update_of_ne hi]
      exact h.limit i
  · rw [hshared] at hg
    rcases List.mem_append.mp hg with hg | hg
    · exact h.sized g hg
    · obtain rfl := List.mem_singleton.mp hg
      exact ⟨htype, hbsize, htaken.aligned⟩
  · rw [hgranted] at hg
    rcases List.mem_append.mp hg with hg | hg
    · exact h.peer g hg hp
    · obtain rfl := List.mem_singleton.mp hg
      rw [hpeer] at hp
      cases hp

/-- A BAR where the caller says. -/
theorem Tidy.place {r r' : AllocRun} {c : AllocCall} {bar : Bar} (h : Tidy r)
    (hsize : c.size < 2 ^ 32) (hpeer : c.peer = true)
    (hres : pciEmulAllocPbar r.state.bases c.hostbase.toNat c.type c.size =
      .ok (r'.state.bases, bar))
    (hgranted : r'.granted = r.granted ++ [(c, bar)]) : Tidy r' := by
  obtain ⟨htype, hbig⟩ := of_decide_eq_true hpeer
  rw [htype] at hres
  obtain ⟨hbases, hplaced⟩ := allocPbar_peer hsize hbig hres
  have hshared : r'.shared = r.shared := by
    rw [AllocRun.shared, hgranted, List.filter_append]
    simp [hpeer, AllocRun.shared]
  refine ⟨?_, ?_, ?_, fun g hg hp => ?_⟩
  · rw [hshared, hbases]
    exact h.pooled
  · rw [hbases]
    exact h.limit
  · rw [hshared]
    exact h.sized
  · rw [hgranted] at hg
    rcases List.mem_append.mp hg with hg | hg
    · exact h.peer g hg hp
    · obtain rfl := List.mem_singleton.mp hg
      exact hplaced

theorem Tidy.step {r r' : AllocRun} {c : AllocCall} (h : Tidy r) (hsize : c.size < 2 ^ 32)
    (hstep : r.next c = some r') : Tidy r' := by
  obtain ⟨⟨s', out⟩, hout, rfl⟩ := Option.map_eq_some_iff.mp hstep
  rcases AllocState.allocPbar_cases hout with ⟨rfl, rfl⟩ | ⟨bar, rfl, hres⟩
  · simpa using h
  · cases hpeer : c.peer with
    | false => exact h.take hsize hpeer hres rfl
    | true => exact h.place hsize hpeer hres rfl

theorem tidy_inductive : allocSystem.Inductive Tidy where
  init _ hinit := Tidy.init hinit.1 hinit.2
  step _ _ _ h hstep := h.step hstep.1 hstep.2

theorem tidy_reachable {r : AllocRun} (hr : allocSystem.Reachable r) : Tidy r :=
  tidy_inductive.reachable hr

theorem pool_io (bar : Bar) : bar.pool = .io ↔ bar.type = .io := by
  unfold Bar.pool
  cases bar.type with
  | io => simp
  | mem64 =>
    simp only
    split
    · simp
    · simp
  | none => simp
  | mem32 => simp
  | memhi64 => simp

/-- The windows of memory are apart. -/
theorem Pool.windows {i j : Pool} (hne : i ≠ j) (hio : i = .io ↔ j = .io) :
    i.limit ≤ j.start ∨ j.limit ≤ i.start := by
  revert hne hio
  cases i
  all_goals
    cases j
    all_goals decide

/-- Two BARs of one space come from one allocator, or from windows that are apart. -/
theorem Tidy.apart {r : AllocRun} (h : Tidy r) :
    r.shared.Pairwise fun g g' => sameSpace g.2 g'.2 →
      ∀ x, ¬ (g.2.inRange x ∧ g'.2.inRange x) := by
  have hbelow := h.pooled.below h.limit
  refine List.Pairwise.imp_of_mem (fun {g g'} hg hg' hpair hspace x hx => ?_) h.pooled.apart
  obtain ⟨⟨hlo, hhi⟩, hlo', hhi'⟩ := hx
  have hstart := (h.pooled.within g hg).1
  have hstart' := (h.pooled.within g' hg').1
  have hend := hbelow g hg
  have hend' := hbelow g' hg'
  by_cases hpool : g.2.pool = g'.2.pool
  · have hpair := hpair hpool
    omega
  · have hio : g.2.pool = .io ↔ g'.2.pool = .io := by
      rw [pool_io, pool_io]
      exact hspace
    have hwin := Pool.windows hpool hio
    omega

theorem Tidy.allotted {r : AllocRun} (h : Tidy r) : Allotted r.shared where
  fits g hg := by
    obtain ⟨htype, hsize, haligned⟩ := h.sized g hg
    refine ⟨htype, ?_, haligned, ?_, ?_, (h.pooled.within g hg).1, h.pooled.below h.limit g hg⟩
    · rw [hsize]
      exact barSize_pow _ _
    · rw [hsize]
      exact le_barSize _ _
    · rw [hsize]
      exact leastBar_le_barSize _ _
  apart := h.apart

/-! ## All calls from the start -/

/-- A function of the device model with nothing in its configuration space, alone on the bus. -/
def blankDev : Devinst := ⟨fun _ => 0, fun _ => ⟨.none, 0, 0⟩, 0, none⟩

def blankBus : Bus where
  devs _ := some blankDev
  inout _ := (Inout.defaultIop 0 Inout.maxIoports).entry
  mem := []

def blankRun : AllocRun where
  state := ⟨initState.bases, blankBus⟩
  granted := []

/-- Every BAR the allocators hand out is where it should be, and meets no other one. A request for
more than 2 GiB of 64-bit memory goes to a multiple of 4 GiB without them, and one that fails changes
nothing. -/
theorem alloc_allotted (r : AllocRun) (hr : allocSystem.Reachable r) :
    Allotted r.shared ∧
      (∀ g ∈ r.granted, g.1.peer = true →
        g.2.type = .mem64 ∧ g.2.size = 2 ^ 32 ∧ g.2.size ∣ g.2.addr) ∧
      (∀ c s' bar, c.size < 2 ^ 32 → c.peer = true →
        r.state.allocPbar c = some (s', some bar) → s'.bases = r.state.bases) ∧
      ∀ c s', r.state.allocPbar c = some (s', none) → s' = r.state := by
  have h := tidy_reachable hr
  refine ⟨h.allotted, h.peer, fun c s' bar hsize hpeer hres => ?_, fun c s' hres => ?_⟩
  · rcases AllocState.allocPbar_cases hres with ⟨hnone, -⟩ | ⟨bar', -, hok⟩
    · cases hnone
    · obtain ⟨htype, hbig⟩ := of_decide_eq_true hpeer
      rw [htype] at hok
      exact (allocPbar_peer hsize hbig hok).1
  · rcases AllocState.allocPbar_cases hres with ⟨-, hs⟩ | ⟨bar, hsome, -⟩
    · exact hs
    · cases hsome

theorem alloc_allotted_ports :
    ∃ r : AllocRun, r.granted.map (fun g => g.2.addr) = [0x2000, 0x2008] ∧ Allotted r.shared := by
  have hinit : allocSystem.Reachable blankRun := .init ⟨rfl, rfl⟩
  have hrun : ∃ r, (blankRun.next ⟨0, 0, 0, .io, 5⟩).bind (AllocRun.next · ⟨1, 0, 0, .io, 8⟩) = some r ∧
      r.granted.map (fun g => g.2.addr) = [0x2000, 0x2008] := by
    refine ⟨_, rfl, ?_⟩
    rfl
  obtain ⟨r, hr, haddr⟩ := hrun
  obtain ⟨r₁, h₁, h₂⟩ := Option.bind_eq_some_iff.mp hr
  have hreach : allocSystem.Reachable r :=
    (hinit.step ⟨by decide, h₁⟩).step ⟨(by decide : 8 < 2 ^ 32), h₂⟩
  exact ⟨r, haddr, (alloc_allotted r hreach).1⟩

/-- A byte more than 2 GiB lands in the guest's own memory at address 0. -/
theorem alloc_peer_at_zero : ¬ ∀ r, allocSystem.Reachable r → Allotted r.granted := by
  intro h
  have hrun : ∃ r, blankRun.next ⟨0, 0, 0, .mem64, 0x80000001⟩ = some r ∧
      ∃ g ∈ r.granted, g.2 = ⟨.mem64, 0x100000000, 0⟩ := by
    refine ⟨_, rfl, _, List.mem_singleton.mpr rfl, ?_⟩
    decide +kernel
  obtain ⟨r, hr, g, hg, hbar⟩ := hrun
  have hreach : allocSystem.Reachable r :=
    System.Reachable.step (.init ⟨rfl, rfl⟩) ⟨by decide, hr⟩
  have hwin := ((h r hreach).fits g hg).window.1
  rw [hbar] at hwin
  exact absurd hwin (by decide)

end Xhyve.Emul.Pci
