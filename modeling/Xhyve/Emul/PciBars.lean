import Xhyve.Emul.PciConfig

/-!
# Registration of BARs

What it means that exactly a given set of BARs is registered, with the memory registry and
with the port table, and that registering a BAR whose range is free and unregistering one
that is registered keep it so. The set is explicit, because between unregistering and
registering a BAR, and in the middle of a command write, what is registered and what the
command register says differ.
-/

namespace Xhyve.Emul.Pci

open Xhyve.Lib Xhyve.Lib.Mem
open Xhyve.Emul.Mem (MemRange)

def isMem (t : BarType) : Bool := t = .mem32 ∨ t = .mem64
def implemented (t : BarType) : Bool := t = .io ∨ isMem t

def Bar.inRange (b : Bar) (a : Nat) : Prop := b.addr ≤ a ∧ a < b.addr + b.size

/-- The handler the ports of a function's BARs carry. -/
def portEntry (p : Nat) : Inout.Handler := ⟨p, Inout.ioportFInout, pciEmulIoHandler, p⟩

/-- The range a memory BAR is registered with. -/
def memEntry (p idx : Nat) (b : Bar) : MemRange := barRange p idx b true

/-- A BAR as `pci_emul_alloc_pbar` leaves it and every write keeps it: a power of two in size
and aligned to it. -/
def BarWf (b : Bar) : Prop :=
  ∃ k < 64, b.size = 2 ^ k ∧ (∀ i < k, b.addr.testBit i = false) ∧ b.addr < 2 ^ 64 ∧
    (b.type = .io → k ≤ 16 ∧ b.addr < 2 ^ 16)

structure DevWf (pi : Devinst) : Prop where
  bar : ∀ i ≤ pciBarmax, implemented (pi.piBar i).type → BarWf (pi.piBar i)
  high : ∀ i ≤ pciBarmax, (pi.piBar i).type = .memhi64 → 0 < i ∧ (pi.piBar (i - 1)).type = .mem64
  /-- The least size the allocator gives a memory BAR. -/
  least : ∀ i ≤ pciBarmax, isMem (pi.piBar i).type → 16 ≤ (pi.piBar i).size

/-- Which BARs are to be registered: the function, the index and the BAR itself. -/
abbrev Wanted := Nat → Nat → Bar → Prop

/-- The memory registry holds no range of a BAR but wanted ones. -/
structure MemSound (L : Wanted) (mem : List MemRange) : Prop where
  ranges : ∀ mr ∈ mem, 0 < mr.size ∧ mr.base + mr.size ≤ 2 ^ 64
  disjoint : mem.Pairwise fun a b => a.overlaps b = false
  sound : ∀ mr ∈ mem, mr.handler = pciEmulMemHandler →
    ∃ p i b, L p i b ∧ isMem b.type ∧ mr = memEntry p i b

/-- It holds exactly the wanted BARs, besides ranges of other devices. -/
structure MemRegistered (L : Wanted) (mem : List MemRange) : Prop extends MemSound L mem where
  complete : ∀ p i b, L p i b → isMem b.type → memEntry p i b ∈ mem

/-- The port table gives exactly the ports of the wanted BARs to their functions, and no port
to two BARs. -/
structure IoRegistered (L : Wanted) (inout : Inout.Table) : Prop where
  sound : ∀ a, (inout a).handler = pciEmulIoHandler →
    ∃ p i b, L p i b ∧ b.type = .io ∧ b.inRange a
  complete : ∀ p i b, L p i b → b.type = .io → ∀ a, b.inRange a → inout a = portEntry p
  unique : ∀ p i j b c, L p i b → L p j c → b.type = .io → c.type = .io →
    ∀ a, b.inRange a → c.inRange a → i = j

/-- The BARs of existing functions that `on` selects. -/
def Live (devs : Nat → Option Devinst) (on : Nat → Nat → Bool) : Wanted := fun p i b =>
  ∃ pi, devs p = some pi ∧ i ≤ pciBarmax ∧ pi.piBar i = b ∧ on p i = true

/-- Exactly the BARs in `on` are registered, each at its range. -/
structure Registered (s : Bus) (on : Nat → Nat → Bool) : Prop where
  wf : ∀ p pi, s.devs p = some pi → DevWf pi
  mem : MemRegistered (Live s.devs on) s.mem
  io : IoRegistered (Live s.devs on) s.inout

/-- `on` with one BAR switched. -/
def setOn (on : Nat → Nat → Bool) (p idx : Nat) (v : Bool) : Nat → Nat → Bool := fun q i =>
  if q = p ∧ i = idx then v else on q i

/-- Nothing is registered where the BAR would be. -/
def Free (s : Bus) (b : Bar) : Prop :=
  (b.type = .io → ∀ a, b.inRange a → (s.inout a).isDefault = true) ∧
  (isMem b.type → ∀ mr ∈ s.mem, ∀ a, b.inRange a → mr.contains a = false)

section Wf
variable {b : Bar}

theorem dvd_of_testBit {x k : Nat} (h : ∀ i < k, x.testBit i = false) : 2 ^ k ∣ x := by
  rw [Nat.dvd_iff_mod_eq_zero]
  refine Nat.eq_of_testBit_eq fun i => ?_
  rw [Nat.testBit_mod_two_pow, Nat.zero_testBit]
  by_cases hi : i < k
  · simp [h i hi]
  · simp [hi]

theorem add_le_of_dvd {x k n : Nat} (hd : 2 ^ k ∣ x) (hk : k ≤ n) (hx : x < 2 ^ n) :
    x + 2 ^ k ≤ 2 ^ n := by
  obtain ⟨a, rfl⟩ := hd
  obtain ⟨c, hc⟩ := Nat.pow_dvd_pow 2 hk
  rw [hc] at hx ⊢
  have hac : a < c := Nat.lt_of_mul_lt_mul_left hx
  calc 2 ^ k * a + 2 ^ k = 2 ^ k * (a + 1) := by rw [Nat.mul_succ]
    _ ≤ 2 ^ k * c := Nat.mul_le_mul_left _ hac

theorem BarWf.size_pos (h : BarWf b) : 0 < b.size := by
  obtain ⟨k, -, hs, -⟩ := h
  rw [hs]
  exact Nat.two_pow_pos k

theorem BarWf.mem_le (h : BarWf b) : b.addr + b.size ≤ 2 ^ 64 := by
  obtain ⟨k, hk, hs, hbits, hlt, -⟩ := h
  rw [hs]
  exact add_le_of_dvd (dvd_of_testBit hbits) hk.le hlt

theorem BarWf.verifyIoport (h : BarWf b) (hio : b.type = .io) :
    Inout.verifyIoport b.addr b.size = true := by
  have hpos := h.size_pos
  obtain ⟨k, -, hs, hbits, -, hport⟩ := h
  obtain ⟨hk, hlt⟩ := hport hio
  have hle := add_le_of_dvd (dvd_of_testBit hbits) hk hlt
  rw [← hs] at hle
  simp only [Inout.verifyIoport, decide_eq_true_eq]
  exact ⟨hpos, hle⟩

end Wf

/-! ## The two registries -/

section Registries
variable {L L' : Wanted} {mem mem' : List MemRange} {inout : Inout.Table} {p idx : Nat} {b : Bar}

theorem MemSound.mono (h : MemSound L mem) (hL : ∀ q i c, isMem c.type → L q i c → L' q i c) :
    MemSound L' mem where
  ranges := h.ranges
  disjoint := h.disjoint
  sound mr hmr hh := by
    obtain ⟨q, i, c, hqL, hm, heq⟩ := h.sound mr hmr hh
    exact ⟨q, i, c, hL q i c hm hqL, hm, heq⟩

theorem overlaps_symm {mr mr' : MemRange} (h : mr.overlaps mr' = false) :
    mr'.overlaps mr = false := by
  simp only [MemRange.overlaps, decide_eq_false_iff_not] at h ⊢
  tauto

/-- Registering a wanted BAR, whether or not its range is taken. -/
theorem MemSound.register (h : MemSound L mem) (hwf : BarWf b) (hm : isMem b.type)
    (hL : L p idx b) {err : Mem.Errno}
    (hreg : Mem.Plain.register mem (memEntry p idx b) = (err, mem')) : MemSound L mem' := by
  unfold Mem.Plain.register at hreg
  split at hreg
  · cases hreg
    exact h
  split at hreg
  · cases hreg
    exact h
  · rename_i hover
    cases hreg
    have hapart : ∀ mr ∈ mem, mr.overlaps (memEntry p idx b) = false := by
      simpa using hover
    exact {
      ranges := fun mr hmr => by
        rcases List.mem_cons.mp hmr with rfl | hmr
        · exact ⟨hwf.size_pos, hwf.mem_le⟩
        · exact h.ranges mr hmr
      disjoint := List.pairwise_cons.mpr ⟨fun mr hmr => overlaps_symm (hapart mr hmr), h.disjoint⟩
      sound := fun mr hmr hh => by
        rcases List.mem_cons.mp hmr with rfl | hmr
        · exact ⟨p, idx, b, hL, hm, rfl⟩
        · exact h.sound mr hmr hh }

theorem MemSound.nodup (h : MemSound L mem) : mem.Nodup := by
  refine h.disjoint.imp_of_mem fun {a c} ha _ hac heq => ?_
  have hpos := (h.ranges a ha).1
  subst heq
  simp only [MemRange.overlaps, decide_eq_false_iff_not] at hac
  omega

/-- Two registered ranges that share an address are the same. -/
theorem MemSound.eq_of_contains (h : MemSound L mem) {mr mr' : MemRange} (hmr : mr ∈ mem)
    (hmr' : mr' ∈ mem) {a : Nat} (ha : mr.contains a = true) (ha' : mr'.contains a = true) :
    mr = mr' := by
  by_contra hne
  have : Std.Symm fun a b : MemRange => a.overlaps b = false := ⟨fun _ _ => overlaps_symm⟩
  have hdis := h.disjoint.forall hmr hmr' hne
  simp only [MemRange.overlaps, MemRange.contains, decide_eq_false_iff_not,
    decide_eq_true_eq] at hdis ha ha'
  omega

/-- After a BAR is unregistered no range is registered for it: had it one, that range is the
one found at its address. -/
theorem MemSound.unregister (h : MemSound L mem) (hwf : BarWf b) (hfun : ∀ c, L p idx c → c = b)
    (hun : Mem.Plain.unregister mem (barRange p idx b false) = some (.ok, mem')) :
    MemSound (fun q i c => L q i c ∧ ¬ (q = p ∧ i = idx)) mem' := by
  unfold Mem.Plain.unregister at hun
  split at hun
  · cases hun
  rename_i mr hfind
  split at hun
  · cases hun
    refine ⟨fun x hx => h.ranges x (List.mem_of_mem_erase hx),
      h.disjoint.sublist List.erase_sublist, fun x hx hh => ?_⟩
    obtain ⟨q, i, c, hL, hm, rfl⟩ := h.sound x (List.mem_of_mem_erase hx) hh
    refine ⟨q, i, c, ⟨hL, ?_⟩, hm, rfl⟩
    rintro ⟨rfl, rfl⟩
    obtain rfl := hfun c hL
    have hself : (memEntry q i c).contains c.addr = true := by
      simp [memEntry, barRange, MemRange.contains, hwf.size_pos]
    have hfound : mr.contains (barRange q i c false).base = true := by
      simpa using List.find?_some hfind
    have heq := h.eq_of_contains (List.mem_of_find?_eq_some hfind) (List.mem_of_mem_erase hx)
      hfound hself
    rw [heq] at hx
    exact h.nodup.not_mem_erase hx
  · cases hun

theorem MemRegistered.congr (h : MemRegistered L mem)
    (heq : ∀ p i b, isMem b.type → (L p i b ↔ L' p i b)) : MemRegistered L' mem where
  toMemSound := h.toMemSound.mono fun p i b hm => (heq p i b hm).mp
  complete p i b hL hm := h.complete p i b ((heq p i b hm).mpr hL) hm

theorem IoRegistered.congr (h : IoRegistered L inout)
    (heq : ∀ p i b, b.type = .io → (L p i b ↔ L' p i b)) : IoRegistered L' inout where
  sound a ha := by
    obtain ⟨p, i, b, hL, hio, hin⟩ := h.sound a ha
    exact ⟨p, i, b, (heq p i b hio).mp hL, hio, hin⟩
  complete p i b hL hio := h.complete p i b ((heq p i b hio).mpr hL) hio
  unique p i j b c hb hc hbio hcio :=
    h.unique p i j b c ((heq p i b hbio).mpr hb) ((heq p j c hcio).mpr hc) hbio hcio

/-- Two ranges that overlap share an address. -/
theorem exists_of_overlaps {mr mr' : MemRange} (hov : mr.overlaps mr' = true)
    (h : 0 < mr.size) (h' : 0 < mr'.size) :
    ∃ a, mr.contains a = true ∧ mr'.base ≤ a ∧ a < mr'.base + mr'.size := by
  simp only [MemRange.overlaps, decide_eq_true_eq] at hov
  refine ⟨max mr.base mr'.base, ?_⟩
  simp only [MemRange.contains, decide_eq_true_eq]
  omega

/-- A memory BAR where no registered range is, is installed. -/
theorem MemRegistered.register (h : MemRegistered L mem) (hwf : BarWf b) (hm : isMem b.type)
    (hfree : ∀ mr ∈ mem, ∀ a, b.inRange a → mr.contains a = false)
    (hL' : ∀ q i c, L' q i c ↔ L q i c ∨ q = p ∧ i = idx ∧ c = b) :
    Mem.Plain.register mem (memEntry p idx b) = (.ok, memEntry p idx b :: mem) ∧
    MemRegistered L' (memEntry p idx b :: mem) := by
  have hbase : mem.any (·.contains (memEntry p idx b).base) = false := by
    rw [List.any_eq_false]
    intro mr hmr
    have hin : b.inRange b.addr := ⟨le_rfl, Nat.lt_add_of_pos_right hwf.size_pos⟩
    simp [memEntry, barRange, hfree mr hmr _ hin]
  have hover : ∀ mr ∈ mem, mr.overlaps (memEntry p idx b) = false := by
    intro mr hmr
    rw [Bool.eq_false_iff]
    intro hov
    obtain ⟨a, hc, hin⟩ := exists_of_overlaps hov (h.ranges mr hmr).1 hwf.size_pos
    rw [hfree mr hmr a hin] at hc
    cases hc
  have hany : mem.any (·.overlaps (memEntry p idx b)) = false := by
    rw [List.any_eq_false]
    intro mr hmr
    simp [hover mr hmr]
  have hreg : Mem.Plain.register mem (memEntry p idx b) = (.ok, memEntry p idx b :: mem) := by
    simp [Mem.Plain.register, hbase, hany]
  refine ⟨hreg, ⟨?_, fun q i c hL hcm => ?_⟩⟩
  · have hmono : MemSound L' mem := h.toMemSound.mono fun q i c _ hL => (hL' q i c).mpr (.inl hL)
    exact hmono.register hwf hm ((hL' p idx b).mpr (.inr ⟨rfl, rfl, rfl⟩)) hreg
  · rcases (hL' q i c).mp hL with hL | ⟨rfl, rfl, rfl⟩
    · exact List.mem_cons_of_mem _ (h.complete q i c hL hcm)
    · exact List.mem_cons_self ..

/-- A registered memory BAR is found by its first address and removed. -/
theorem MemRegistered.unregister (h : MemRegistered L mem) (hwf : BarWf b) (hL : L p idx b)
    (hm : isMem b.type) (hL' : ∀ q i c, L' q i c ↔ L q i c ∧ ¬ (q = p ∧ i = idx))
    (hfun : ∀ c, L p idx c → c = b) :
    Mem.Plain.unregister mem (barRange p idx b false) =
      some (.ok, mem.erase (memEntry p idx b)) ∧
    MemRegistered L' (mem.erase (memEntry p idx b)) := by
  have hmem : memEntry p idx b ∈ mem := h.complete p idx b hL hm
  have hself : (memEntry p idx b).contains b.addr = true := by
    simp [memEntry, barRange, MemRange.contains, hwf.size_pos]
  have hfind : mem.find? (·.contains b.addr) = some (memEntry p idx b) := by
    cases hf : mem.find? (·.contains b.addr) with
    | none => exact absurd hself (List.find?_eq_none.mp hf _ hmem)
    | some mr =>
      have hc : mr.contains b.addr = true := by simpa using List.find?_some hf
      rw [h.eq_of_contains (List.mem_of_find?_eq_some hf) hmem hc hself]
  have hassert : Mem.unregisterAsserts (memEntry p idx b) (barRange p idx b false) = true := by
    simp [Mem.unregisterAsserts, memEntry, barRange, MemRange.immutable, memFRw,
      Mem.memFImmutable]
  have hun : Mem.Plain.unregister mem (barRange p idx b false) =
      some (.ok, mem.erase (memEntry p idx b)) := by
    have hbase : (barRange p idx b false).base = b.addr := rfl
    simp only [Mem.Plain.unregister, hbase, hfind, hassert, if_true]
  refine ⟨hun, ⟨?_, fun q i c hqL hcm => ?_⟩⟩
  · exact (h.toMemSound.unregister hwf hfun hun).mono fun q i c _ hqL => (hL' q i c).mpr hqL
  · obtain ⟨hqL, hne⟩ := (hL' q i c).mp hqL
    refine (List.mem_erase_of_ne fun heq => hne ?_).mpr (h.complete q i c hqL hcm)
    simp only [memEntry, barRange, if_true, MemRange.mk.injEq, Nat.cast_inj] at heq
    exact ⟨heq.1, heq.2.2.2.2.1⟩

theorem portEntry_not_default (p : Nat) : (portEntry p).isDefault = false := by
  have hflags : (portEntry p).flags = Inout.ioportFInout := rfl
  rw [Inout.Handler.isDefault, hflags]
  decide

theorem claim_inside {a : Nat} {e : Inout.Handler} (h : b.inRange a) :
    Inout.claim inout b.addr b.size e a = e := if_pos h

theorem claim_outside {a : Nat} {e : Inout.Handler} (h : ¬ b.inRange a) :
    Inout.claim inout b.addr b.size e a = inout a := if_neg h

theorem default_isDefault : (Inout.defaultIop 0 0).entry.isDefault = true := by decide

/-- A port BAR whose ports are all unclaimed is installed. -/
theorem IoRegistered.register (h : IoRegistered L inout) (hwf : BarWf b) (hio : b.type = .io)
    (hfree : ∀ a, b.inRange a → (inout a).isDefault = true)
    (hL' : ∀ q i c, L' q i c ↔ L q i c ∨ q = p ∧ i = idx ∧ c = b) :
    Inout.registerInout inout (barPort p b true) =
      some (0, Inout.claim inout b.addr b.size (portEntry p)) ∧
    IoRegistered L' (Inout.claim inout b.addr b.size (portEntry p)) := by
  -- the ports of BARs registered before are claimed, so none of them is in the new range
  have hout : ∀ q i c, L q i c → c.type = .io → ∀ a, c.inRange a → ¬ b.inRange a := by
    intro q i c hL hcio a hin hb
    have hdef := hfree a hb
    rw [h.complete q i c hL hcio a hin, portEntry_not_default] at hdef
    cases hdef
  refine ⟨Inout.registerInout_of_default (hwf.verifyIoport hio) fun a h1 h2 => hfree a ⟨h1, h2⟩, ?_⟩
  exact {
    sound := fun a ha => by
      by_cases hin : b.inRange a
      · exact ⟨p, idx, b, (hL' p idx b).mpr (.inr ⟨rfl, rfl, rfl⟩), hio, hin⟩
      · rw [claim_outside hin] at ha
        obtain ⟨q, i, c, hL, hcio, hin⟩ := h.sound a ha
        exact ⟨q, i, c, (hL' q i c).mpr (.inl hL), hcio, hin⟩
    complete := fun q i c hL hcio a hin => by
      rcases (hL' q i c).mp hL with hL | ⟨rfl, rfl, rfl⟩
      · rw [claim_outside (hout q i c hL hcio a hin)]
        exact h.complete q i c hL hcio a hin
      · exact claim_inside hin
    unique := fun q i j c d hc hd hcio hdio a hin hin' => by
      rcases (hL' q i c).mp hc with hc | ⟨rfl, rfl, rfl⟩ <;>
        rcases (hL' _ j d).mp hd with hd | ⟨hq, rfl, rfl⟩
      · exact h.unique q i j c d hc hd hcio hdio a hin hin'
      · exact absurd hin' (hout q i c hc hcio a hin)
      · exact absurd hin (hout _ j d hd hdio a hin')
      · rfl }

/-- A registered port BAR gives its ports back, and only those. -/
theorem IoRegistered.unregister (h : IoRegistered L inout) (hwf : BarWf b) (hL : L p idx b)
    (hio : b.type = .io) (hL' : ∀ q i c, L' q i c ↔ L q i c ∧ ¬ (q = p ∧ i = idx))
    (hfun : ∀ c, L p idx c → c = b) :
    Inout.unregisterInout inout (barPort p b false) =
      some (0, Inout.claim inout b.addr b.size (Inout.defaultIop 0 0).entry) ∧
    IoRegistered L' (Inout.claim inout b.addr b.size (Inout.defaultIop 0 0).entry) := by
  have hfirst : b.inRange b.addr := ⟨le_rfl, Nat.lt_add_of_pos_right hwf.size_pos⟩
  have hname : (inout (barPort p b false).port).name = (barPort p b false).name :=
    congrArg Inout.Handler.name (h.complete p idx b hL hio b.addr hfirst)
  -- a port of this BAR belongs to no other wanted BAR
  have hown : ∀ q i c, L q i c → c.type = .io → ∀ a, c.inRange a → b.inRange a →
      q = p ∧ i = idx := by
    intro q i c hqL hcio a hin hb
    have heq : portEntry q = portEntry p :=
      (h.complete q i c hqL hcio a hin).symm.trans (h.complete p idx b hL hio a hb)
    have hq : q = p := congrArg Inout.Handler.name heq
    subst hq
    exact ⟨rfl, h.unique q i idx c b hqL hL hcio hio a hin hb⟩
  refine ⟨Inout.unregisterInout_of_name (hwf.verifyIoport hio) hname, ?_⟩
  exact {
    sound := fun a ha => by
      by_cases hb : b.inRange a
      · rw [claim_inside hb] at ha
        cases ha
      · rw [claim_outside hb] at ha
        obtain ⟨q, i, c, hqL, hcio, hin⟩ := h.sound a ha
        refine ⟨q, i, c, (hL' q i c).mpr ⟨hqL, ?_⟩, hcio, hin⟩
        rintro ⟨rfl, rfl⟩
        exact hb (hfun c hqL ▸ hin)
    complete := fun q i c hqL hcio a hin => by
      obtain ⟨hqL, hne⟩ := (hL' q i c).mp hqL
      rw [claim_outside fun hb => hne (hown q i c hqL hcio a hin hb)]
      exact h.complete q i c hqL hcio a hin
    unique := fun q i j c d hc hd =>
      h.unique q i j c d ((hL' q i c).mp hc).1 ((hL' q j d).mp hd).1 }

end Registries

/-! ## One BAR of the bus -/

section OneBar
variable {s : Bus} {on on' : Nat → Nat → Bool} {p idx : Nat} {pi : Devinst}

theorem Live.eq_bar {devs : Nat → Option Devinst} {c : Bar} (h : Live devs on p idx c)
    (hp : devs p = some pi) : c = pi.piBar idx := by
  obtain ⟨qi, hq, -, rfl, -⟩ := h
  rw [hp] at hq
  cases hq
  rfl

theorem live_setOn_true (hp : s.devs p = some pi) (hi : idx ≤ pciBarmax) (q i : Nat) (c : Bar) :
    Live s.devs (setOn on p idx true) q i c ↔
      Live s.devs on q i c ∨ q = p ∧ i = idx ∧ c = pi.piBar idx := by
  constructor
  · intro h
    by_cases hqi : q = p ∧ i = idx
    · obtain ⟨rfl, rfl⟩ := hqi
      exact .inr ⟨rfl, rfl, h.eq_bar hp⟩
    · obtain ⟨qi, hq, hi', hc, hon⟩ := h
      rw [setOn, if_neg hqi] at hon
      exact .inl ⟨qi, hq, hi', hc, hon⟩
  · rintro (⟨qi, hq, hi', hc, hon⟩ | ⟨rfl, rfl, rfl⟩)
    · refine ⟨qi, hq, hi', hc, ?_⟩
      unfold setOn
      split
      · rfl
      · exact hon
    · exact ⟨pi, hp, hi, rfl, if_pos ⟨rfl, rfl⟩⟩

theorem live_setOn_false (q i : Nat) (c : Bar) :
    Live s.devs (setOn on p idx false) q i c ↔
      Live s.devs on q i c ∧ ¬ (q = p ∧ i = idx) := by
  constructor
  · rintro ⟨qi, hq, hi, hc, hon⟩
    unfold setOn at hon
    split at hon
    · cases hon
    · rename_i hne
      exact ⟨⟨qi, hq, hi, hc, hon⟩, hne⟩
  · rintro ⟨⟨qi, hq, hi, hc, hon⟩, hne⟩
    exact ⟨qi, hq, hi, hc, by rw [setOn, if_neg hne]; exact hon⟩

/-- Only the BARs that exist matter. -/
theorem Registered.congr (h : Registered s on)
    (heq : ∀ p pi i, s.devs p = some pi → i ≤ pciBarmax → implemented (pi.piBar i).type →
      on p i = on' p i) : Registered s on' := by
  have hlive : ∀ q i c, implemented c.type → (Live s.devs on q i c ↔ Live s.devs on' q i c) := by
    intro q i c hc
    constructor
    · rintro ⟨qi, hq, hi, rfl, hon⟩
      exact ⟨qi, hq, hi, rfl, heq q qi i hq hi hc ▸ hon⟩
    · rintro ⟨qi, hq, hi, rfl, hon⟩
      exact ⟨qi, hq, hi, rfl, (heq q qi i hq hi hc).symm ▸ hon⟩
  exact ⟨h.wf, h.mem.congr fun q i c hm => hlive q i c (by simp [implemented, hm]),
    h.io.congr fun q i c hio => hlive q i c (by simp [implemented, hio])⟩

theorem wf_setDev (h : ∀ p pi, s.devs p = some pi → DevWf pi) {pi' : Devinst} (hwf : DevWf pi')
    (q : Nat) (qi : Devinst) (hq : (s.setDev p pi').devs q = some qi) : DevWf qi := by
  by_cases hqp : q = p
  · subst hqp
    rw [s.setDev_same] at hq
    cases hq
    exact hwf
  · exact h q qi (s.setDev_ne pi' hqp ▸ hq)

/-- A change to a function's registers, and to addresses of BARs that are not registered. -/
theorem Registered.setDev (h : Registered s on) (hp : s.devs p = some pi) {pi' : Devinst}
    (hwf : DevWf pi') (hbar : ∀ i ≤ pciBarmax, on p i → pi'.piBar i = pi.piBar i) :
    Registered (s.setDev p pi') on := by
  have hlive : ∀ q i c, Live s.devs on q i c ↔ Live (s.setDev p pi').devs on q i c := by
    intro q i c
    by_cases hqp : q = p
    · subst hqp
      constructor
      · rintro ⟨qi, hq, hi, rfl, hon⟩
        rw [hp] at hq
        cases hq
        exact ⟨pi', s.setDev_same q pi', hi, hbar i hi hon, hon⟩
      · rintro ⟨qi, hq, hi, rfl, hon⟩
        rw [s.setDev_same] at hq
        cases hq
        exact ⟨pi, hp, hi, (hbar i hi hon).symm, hon⟩
    · simp only [Live, s.setDev_ne pi' hqp]
  exact ⟨wf_setDev h.wf hwf, h.mem.congr fun q i c _ => hlive q i c,
    h.io.congr fun q i c _ => hlive q i c⟩

/-- What registering one BAR leaves as it was. -/
structure Added (s s' : Bus) (p idx : Nat) (b : Bar) : Prop where
  devs : s'.devs = s.devs
  mem : ∀ mr ∈ s'.mem, mr ∈ s.mem ∨ isMem b.type ∧ mr = memEntry p idx b
  inout : ∀ a, s'.inout a = s.inout a ∨ b.type = .io ∧ b.inRange a

/-- What unregistering one BAR leaves. -/
structure Dropped (s s' : Bus) (p idx : Nat) (b : Bar) : Prop where
  devs : s'.devs = s.devs
  mem : ∀ mr ∈ s'.mem, mr ∈ s.mem ∧ (isMem b.type → mr ≠ memEntry p idx b)
  inout : ∀ a, s'.inout a = s.inout a ∧ ¬ (b.type = .io ∧ b.inRange a) ∨
    (s'.inout a).isDefault = true

theorem type_cases {t : BarType} (h : implemented t) : t = .io ∨ isMem t := by
  simpa [implemented] using h

theorem isMem_ne_io {t : BarType} (h : isMem t) : t ≠ .io := by
  rintro rfl
  simp [isMem] at h

theorem Registered.registerBar (h : Registered s on) (hp : s.devs p = some pi)
    (hi : idx ≤ pciBarmax) (himpl : implemented (pi.piBar idx).type)
    (hfree : Free s (pi.piBar idx)) :
    ∃ s', registerBar s p idx (pi.piBar idx) = .ok s' ∧ Registered s' (setOn on p idx true) ∧
      Added s s' p idx (pi.piBar idx) := by
  have hwf := (h.wf p pi hp).bar idx hi himpl
  have hlive : ∀ q i c, Live s.devs (setOn on p idx true) q i c ↔ _ := live_setOn_true hp hi
  rcases type_cases himpl with hio | hm
  · obtain ⟨hreg, hreg'⟩ := h.io.register hwf hio (hfree.1 hio) hlive
    refine ⟨{ s with
      inout := Inout.claim s.inout (pi.piBar idx).addr (pi.piBar idx).size (portEntry p) },
      ?_, ⟨h.wf, h.mem.congr fun q i c hcm => ?_, hreg'⟩, rfl,
      fun mr hmr => .inl hmr, fun a => ?_⟩
    · simp [Pci.registerBar, modifyBarRegistration, hio, hreg]
    · rw [hlive]
      refine ⟨.inl, ?_⟩
      rintro (hL | ⟨-, -, rfl⟩)
      · exact hL
      · exact absurd hio (isMem_ne_io hcm)
    · by_cases hin : (pi.piBar idx).inRange a
      · exact .inr ⟨hio, hin⟩
      · exact .inl (claim_outside hin)
  · obtain ⟨hreg, hreg'⟩ := h.mem.register hwf hm (hfree.2 hm) hlive
    refine ⟨{ s with mem := memEntry p idx (pi.piBar idx) :: s.mem }, ?_,
      ⟨h.wf, hreg', h.io.congr fun q i c hcio => ?_⟩, rfl,
      fun mr hmr => ?_, fun a => .inl rfl⟩
    · rw [memEntry] at hreg
      have htype : (pi.piBar idx).type = .mem32 ∨ (pi.piBar idx).type = .mem64 := by
        simpa [isMem] using hm
      rcases htype with htype | htype <;>
        simp [Pci.registerBar, modifyBarRegistration, htype, hreg, memEntry]
    · rw [hlive]
      refine ⟨.inl, ?_⟩
      rintro (hL | ⟨-, -, rfl⟩)
      · exact hL
      · exact absurd hcio (isMem_ne_io hm)
    · exact (List.mem_cons.mp hmr).symm.imp_right fun heq => ⟨hm, heq⟩

theorem Registered.unregisterBar (h : Registered s on) (hp : s.devs p = some pi)
    (hi : idx ≤ pciBarmax) (himpl : implemented (pi.piBar idx).type) (hon : on p idx = true) :
    ∃ s', unregisterBar s p idx (pi.piBar idx) = .ok s' ∧
      Registered s' (setOn on p idx false) ∧ Dropped s s' p idx (pi.piBar idx) := by
  have hwf := (h.wf p pi hp).bar idx hi himpl
  have hL : Live s.devs on p idx (pi.piBar idx) := ⟨pi, hp, hi, rfl, hon⟩
  have hlive : ∀ q i c, Live s.devs (setOn on p idx false) q i c ↔ _ := live_setOn_false
  have hfun : ∀ c, Live s.devs on p idx c → c = pi.piBar idx := fun c hc => hc.eq_bar hp
  rcases type_cases himpl with hio | hm
  · obtain ⟨hreg, hreg'⟩ := h.io.unregister hwf hL hio hlive hfun
    refine ⟨{ s with
      inout := Inout.claim s.inout (pi.piBar idx).addr (pi.piBar idx).size
        (Inout.defaultIop 0 0).entry }, ?_, ⟨h.wf, h.mem.congr fun q i c hcm => ?_, hreg'⟩, rfl,
      fun mr hmr => ⟨hmr, fun hm => absurd hio (isMem_ne_io hm)⟩, fun a => ?_⟩
    · simp [Pci.unregisterBar, modifyBarRegistration, hio, hreg]
    · rw [hlive]
      refine ⟨fun hqL => ⟨hqL, ?_⟩, And.left⟩
      rintro ⟨rfl, rfl⟩
      exact absurd (hfun c hqL ▸ hio) (isMem_ne_io hcm)
    · by_cases hin : (pi.piBar idx).inRange a
      · right
        change (Inout.claim _ _ _ _ a).isDefault = true
        rw [claim_inside hin]
        exact default_isDefault
      · exact .inl ⟨claim_outside hin, fun hc => hin hc.2⟩
  · obtain ⟨hreg, hreg'⟩ := h.mem.unregister hwf hL hm hlive hfun
    refine ⟨{ s with mem := s.mem.erase (memEntry p idx (pi.piBar idx)) }, ?_,
      ⟨h.wf, hreg', h.io.congr fun q i c hcio => ?_⟩, rfl,
      fun mr hmr => ?_, fun a => .inl ⟨rfl, fun hc => isMem_ne_io hm hc.1⟩⟩
    · have htype : (pi.piBar idx).type = .mem32 ∨ (pi.piBar idx).type = .mem64 := by
        simpa [isMem] using hm
      rcases htype with htype | htype <;>
        simp [Pci.unregisterBar, modifyBarRegistration, htype, hreg]
    · rw [hlive]
      refine ⟨fun hqL => ⟨hqL, ?_⟩, And.left⟩
      rintro ⟨rfl, rfl⟩
      exact absurd (hfun c hqL ▸ hcio) (isMem_ne_io hm)
    · refine ⟨List.mem_of_mem_erase hmr, fun _ heq => ?_⟩
      rw [heq] at hmr
      exact h.mem.nodup.not_mem_erase hmr

end OneBar

end Xhyve.Emul.Pci
