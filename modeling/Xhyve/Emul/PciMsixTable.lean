import Mathlib
import Xhyve.Emul.PciMmio
import Xhyve.Emul.PciMsiMirror

/-!
# The MSI-X table

Guest accesses to the BAR that holds the table and the pending bits, the configuration writes that
switch MSI-X, and the messages the device sends. The table is a memory of its own, of
`table_count` entries; an entry found by a negative index would lie before it.
-/

namespace Xhyve.Emul.PciMsix

open Xhyve.Lib Xhyve.Lib.Mem Xhyve.Emul.Pci

def msixTableEntrySize : Nat := 16
def maxMsixTableEntries : Nat := 2048
def pcimMsixVctrlMask : Nat := 0x1

/-- `PBA_SIZE`. -/
def pbaSize (msgnum : Nat) : Nat := (msgnum + 63) / 64 * 64 / 8

/-- `pi_msix`, as far as it describes the table; the pending bits are in the same BAR. -/
structure MsixTable where
  table : Mem
  tableBar : Nat
  tableCount : Nat
  pbaOffset : Nat
  pbaSize : Nat

/-- The entries of a table, all masked. -/
def pciMsixTableInit (tableEntries : Nat) : Mem :=
  (List.range tableEntries).foldl (fun m i => orAt 4 m (i * msixTableEntrySize + 12) pcimMsixVctrlMask) fun _ => 0

def pciEmulAddMsixcap (msgnum barnum : Nat) : MsixTable where
  table := pciMsixTableInit msgnum
  tableBar := barnum
  tableCount := msgnum
  pbaOffset := msixTabSize msgnum
  pbaSize := pbaSize msgnum

def pciValidPbaOffset (t : MsixTable) (offset : Nat) : Bool :=
  if offset < t.pbaOffset then false
  else if offset ≥ t.pbaOffset + t.pbaSize then false
  else true

/-- The index of an entry, an `int`. -/
def tabIndex (offset : Nat) : Int := (BitVec.ofNat 32 (offset / msixTableEntrySize)).toInt

/-- `none` where the entry lies before the table. -/
def pciEmulMsixTwrite (t : MsixTable) (offset size value : Nat) : Option (Int × MsixTable) :=
  if size ≠ 4 ∧ size ≠ 8 then some (-1, t)
  else if tabIndex offset ≥ t.tableCount then some (-1, t)
  else
    let msixEntryOffset := offset % msixTableEntrySize
    if msixEntryOffset % size ≠ 0 then some (-1, t)
    else match tabIndex offset with
      | .ofNat i => some (0, { t with table := store size t.table (i * msixTableEntrySize + msixEntryOffset) value })
      | .negSucc _ => none

def pciEmulMsixTread (t : MsixTable) (offset size : Nat) : Option Nat :=
  let retval := 2 ^ 64 - 1
  if size ≠ 1 ∧ size ≠ 4 ∧ size ≠ 8 then some retval
  else
    let msixEntryOffset := offset % msixTableEntrySize
    if msixEntryOffset % size ≠ 0 then some retval
    else if tabIndex offset < t.tableCount then
      match tabIndex offset with
      | .ofNat i => some (load size t.table (i * msixTableEntrySize + msixEntryOffset))
      | .negSucc _ => none
    else if pciValidPbaOffset t offset then some 0
    else some retval

/-- `vi_pci_write` and `vi_pci_read` for the table's BAR; `none` behind an access before the table. -/
def viPciMsix : Devemu (Option MsixTable) where
  peBarwrite d _ _ _ offset size value := d.bind fun t => (pciEmulMsixTwrite t offset size value).map (·.2)
  peBarread d _ _ _ offset size :=
    match d.bind fun t => (pciEmulMsixTread t offset size).map fun v => (v, t) with
    | none => (0, none)
    | some (v, t) => (v, some t)

def pciMsixEnabled (pi : MsiDev) : Bool := pi.piMsix.enabled ≠ 0 ∧ pi.piMsi.enabled = 0

/-- The message for `xh_vm_lapic_msi`, if any. -/
def pciGenerateMsix (pi : MsiDev) (t : MsixTable) (index : Nat) : Option (Nat × Nat) :=
  if !pciMsixEnabled pi then none
  else if pi.piMsix.functionMask ≠ 0 then none
  else if index ≥ t.tableCount then none
  else if load 4 t.table (index * msixTableEntrySize + 12) &&& pcimMsixVctrlMask = 0 then
    some (load 8 t.table (index * msixTableEntrySize), load 4 t.table (index * msixTableEntrySize + 8))
  else none

/-! ## Runs -/

structure State where
  pi : MsiDev
  msix : MsixTable
  /-- The messages, most recent first. -/
  sent : List (Nat × Nat)
  /-- What the guest has written to the BAR in double words: offset and value, most recent first. -/
  wrote : List (Nat × Nat)

def State.bar (s : State) : Bar := s.pi.dev.piBar s.msix.tableBar

inductive Act
  /-- A guest access. -/
  | access (vcpu : Nat) (dir : Dir) (addr size val : Nat)
  /-- A write to one of the capabilities. -/
  | capwrite (capid capoff offset bytes val : Nat)
  /-- A BAR is moved. -/
  | setAddr (idx addr : Nat)
  /-- The device interrupts. -/
  | generate (index : Nat)
deriving DecidableEq, Repr

inductive Stop
  /-- The BAR does not contain the address. -/
  | esrch
  | abort
  /-- An access before the table. -/
  | wild
deriving DecidableEq, Repr

/-- The double words of a write at an offset. Other sizes have none. -/
def dwords (offset size val : Nat) : Dir → List (Nat × Nat)
  | .read => []
  | .write =>
    if size = 8 then [(offset + 4, val >>> 32 % 2 ^ 32), (offset, val % 2 ^ 32)]
    else if size = 4 then [(offset, val % 2 ^ 32)]
    else []

def access (s : State) (vcpu : Nat) (dir : Dir) (addr size val : Nat) : Except Stop (Nat × State) :=
  if s.bar.addr ≤ addr ∧ addr < s.bar.addr + s.bar.size then
    match emulMemHandler viPciMsix s.pi.dev (some s.msix) vcpu dir addr size val 0 s.msix.tableBar with
    | .error _ => .error .abort
    | .ok (_, none) => .error .wild
    | .ok (v, some msix) => .ok (v, { s with msix, wrote := dwords (addr - s.bar.addr) size val dir ++ s.wrote })
  else .error .esrch

def next (s : State) : Act → Except Stop State
  | .access vcpu dir addr size val => (access s vcpu dir addr size val).map (·.2)
  | .capwrite capid capoff offset bytes val => .ok { s with pi := capSwitch s.pi capid capoff offset bytes val }
  | .setAddr idx addr => .ok { s with pi := { s.pi with dev := s.pi.dev.setAddr idx addr } }
  | .generate index => .ok { s with sent := (pciGenerateMsix s.pi s.msix index).toList ++ s.sent }

/-- Just after `pci_emul_add_msixcap`, with a BAR of 32 bits. -/
structure Start (s : State) : Prop where
  table : ∃ msgnum barnum, 1 ≤ msgnum ∧ msgnum ≤ maxMsixTableEntries ∧ s.msix = pciEmulAddMsixcap msgnum barnum
  size : s.bar.size < 2 ^ 32
  sent : s.sent = []
  wrote : s.wrote = []

def system : System State Act := System.ofFn Start fun s a => (next s a).toOption

/-! ## One access -/

/-- The double word at an offset: what was written to it last. All entries are masked before. -/
def lastWritten (wrote : List (Nat × Nat)) (offset : Nat) : Nat :=
  ((wrote.find? fun w => w.1 = offset).map (·.2)).getD (if offset % 16 = 12 then 1 else 0)

theorem lastWritten_cons (w : Nat × Nat) (wrote : List (Nat × Nat)) (offset : Nat) :
    lastWritten (w :: wrote) offset = if w.1 = offset then w.2 else lastWritten wrote offset := by
  unfold lastWritten
  by_cases h : w.1 = offset
  · simp [h]
  · simp [h]

theorem tabIndex_eq {offset : Nat} (h : offset < 2 ^ 35) : tabIndex offset = (offset / 16 : Nat) := by
  have hlt : offset / 16 < 2 ^ 31 := by omega
  rw [tabIndex, msixTableEntrySize, BitVec.toInt_eq_toNat_of_lt]
  · rw [BitVec.toNat_ofNat, Nat.mod_eq_of_lt (hlt.trans (by decide))]
  · rw [BitVec.toNat_ofNat, Nat.mod_eq_of_lt (hlt.trans (by decide))]
    omega

section Table
variable {t : MsixTable} {offset size value d : Nat}

/-- The write is one the table takes. -/
def Taken (t : MsixTable) (offset size : Nat) : Prop :=
  (size = 4 ∨ size = 8) ∧ offset < 16 * t.tableCount ∧ size ∣ offset

theorem mod_entry (offset : Nat) {size : Nat} (hsize : size = 1 ∨ size = 4 ∨ size = 8) :
    offset % 16 % size = 0 ↔ size ∣ offset := by
  rcases hsize with rfl | rfl | rfl <;> omega

/-- What a write does, of whatever size. -/
theorem twrite_eq (h : offset < 2 ^ 35) :
    (Taken t offset size → pciEmulMsixTwrite t offset size value =
      some (0, { t with table := store size t.table offset value })) ∧
    (¬ Taken t offset size → pciEmulMsixTwrite t offset size value = some (-1, t)) := by
  have hindex := tabIndex_eq h
  constructor
  · intro ⟨hsize, hlt, hdvd⟩
    have hcount : ¬ tabIndex offset ≥ t.tableCount := by omega
    have hmod := (mod_entry offset (.inr hsize)).mpr hdvd
    have hno : ¬ (size ≠ 4 ∧ size ≠ 8) := by omega
    rw [pciEmulMsixTwrite, if_neg hno, if_neg hcount]
    simp only [msixTableEntrySize, hmod, hindex, ne_eq, not_true_eq_false, if_false]
    rw [Nat.div_add_mod' offset 16]
  · intro hnot
    rw [pciEmulMsixTwrite]
    split
    · rfl
    · rename_i hsize
      have hsize' : size = 4 ∨ size = 8 := by omega
      split
      · rfl
      · rename_i hcount
        have hlt : offset < 16 * t.tableCount := by omega
        have hmod : ¬ offset % 16 % size = 0 :=
          fun hzero => hnot ⟨hsize', hlt, (mod_entry offset (.inr hsize')).mp hzero⟩
        exact if_pos hmod

theorem store_mod (n : Nat) (m : Mem) (a v : Nat) : store n m a (v % 256 ^ n) = store n m a v := by
  funext x
  simp only [store, LittleEndian.bytes_mod]

/-- A word in two parts. -/
theorem load_add (m n : Nat) (mem : Mem) (a : Nat) : load (m + n) mem a = load m mem a + 256 ^ m * load n mem (a + m) := by
  simp only [load, LittleEndian.toNat]
  rw [List.range_add, List.map_append, List.map_append, Nat.ofDigits_append]
  simp only [List.length_map, List.length_range, List.map_map]
  congr 4
  funext i
  simp only [Function.comp_apply]
  rw [Nat.add_assoc]

/-- The table holds in each double word what was written to it last, and nothing behind its end. -/
structure Follows (t : MsixTable) (wrote : List (Nat × Nat)) : Prop where
  words : ∀ d < 4 * t.tableCount, load 4 t.table (4 * d) = lastWritten wrote (4 * d)
  behind : ∀ x, 16 * t.tableCount ≤ x → t.table x = 0

variable {wrote : List (Nat × Nat)}

theorem Follows.twrite (h : Follows t wrote) (ho : offset < 2 ^ 35) (value : Nat) : ∃ r m,
    pciEmulMsixTwrite t offset 4 value = some (r, { t with table := m }) ∧
    Follows { t with table := m } ((offset, value % 2 ^ 32) :: wrote) := by
  by_cases htaken : Taken t offset 4
  · refine ⟨_, _, (twrite_eq ho).1 htaken, fun d hd => ?_, fun x hx => ?_⟩
    · rw [lastWritten_cons]
      by_cases heq : offset = 4 * d
      · rw [if_pos heq, ← heq, ← store_mod, load_store (Nat.mod_lt _ (by decide))]
        rfl
      · rw [if_neg heq]
        exact (load_store_of_ne (Nat.dvd_mul_right 4 d) htaken.2.2 (Ne.symm heq)).trans (h.words d hd)
    · obtain ⟨-, hlt, hdvd⟩ := htaken
      have hout : ¬ (offset ≤ x ∧ x < offset + 4) := by
        have hx' : 16 * t.tableCount ≤ x := hx
        omega
      exact (if_neg hout).trans (h.behind x hx)
  · refine ⟨_, t.table, (twrite_eq ho).2 htaken, fun d hd => ?_, h.behind⟩
    have hd' : d < 4 * t.tableCount := hd
    have hne : ¬ offset = 4 * d := fun heq => htaken ⟨.inl rfl, by omega, heq ▸ Nat.dvd_mul_right 4 d⟩
    rw [lastWritten_cons, if_neg hne]
    exact h.words d hd

theorem Follows.initial (msgnum barnum : Nat) : Follows (pciEmulAddMsixcap msgnum barnum) [] := by
  have hinit (n : Nat) : (∀ d, load 4 (pciMsixTableInit n) (4 * d) = if d < 4 * n ∧ d % 4 = 3 then 1 else 0) ∧
      ∀ x, 16 * n ≤ x → pciMsixTableInit n x = 0 := by
    induction n with
    | zero =>
      refine ⟨fun d => ?_, fun _ _ => rfl⟩
      rw [if_neg (by omega)]
      rfl
    | succ n ih =>
      obtain ⟨hwords, hbehind⟩ := ih
      have hsucc : pciMsixTableInit (n + 1) = orAt 4 (pciMsixTableInit n) (n * 16 + 12) 1 := by
        rw [pciMsixTableInit, List.range_succ, List.foldl_append]
        rfl
      rw [hsucc]
      constructor
      · intro d
        rw [load_orAt (by decide) (Nat.dvd_mul_right 4 d) (by omega), hwords]
        by_cases hd : d = 4 * n + 3
        · subst hd
          rw [if_neg (by omega), if_pos (by omega), if_pos (by omega), Nat.zero_or]
        · have hne : ¬ 4 * d = n * 16 + 12 := by omega
          rw [if_neg hne, Nat.or_zero]
          congr 1
          simp
          omega
      · intro x hx
        have hout : ¬ (n * 16 + 12 ≤ x ∧ x < n * 16 + 12 + 4) := by omega
        exact (if_neg hout).trans (hbehind x (by omega))
  constructor
  · intro d hd
    rw [lastWritten]
    have hd' : d < 4 * msgnum := hd
    refine ((hinit msgnum).1 d).trans ?_
    simp only [List.find?_nil, Option.map_none, Option.getD_none]
    congr 1
    simp
    omega
  · exact (hinit msgnum).2

end Table

/-! ## The handler of the BAR -/

section Handler
variable {t : MsixTable} {wrote : List (Nat × Nat)} {dev : Devinst} {vcpu addr size val bar : Nat}

theorem twrite_size (hsize : size ≠ 4 ∧ size ≠ 8) (offset : Nat) :
    pciEmulMsixTwrite t offset size val = some (-1, t) := by
  rw [pciEmulMsixTwrite, if_pos hsize]

theorem Follows.write (h : Follows t wrote) (vcpu val : Nat) (hoff : addr - (dev.piBar bar).addr + 4 < 2 ^ 35)
    (hasserts : memHandlerAsserts dev addr size bar = true) : ∃ m,
    emulMemHandler viPciMsix dev (some t) vcpu .write addr size val 0 bar = .ok (val, some { t with table := m }) ∧
    Follows { t with table := m } (dwords (addr - (dev.piBar bar).addr) size val .write ++ wrote) := by
  rw [emulMemHandler, if_pos hasserts]
  generalize haddr : addr - (dev.piBar bar).addr = offset at *
  by_cases h8 : size = 8
  · subst h8
    obtain ⟨r, m, hlo, hfollows⟩ := h.twrite (show offset < 2 ^ 35 by omega) (val &&& 0xffffffff)
    obtain ⟨r', m', hhi, hfollows'⟩ := hfollows.twrite hoff (val >>> 32)
    refine ⟨m', ?_, ?_⟩
    · simp only [viPciMsix, if_true, Int.toNat_natCast, haddr, Option.bind_some, hlo, Option.map_some, hhi]
    · have hmask : (val &&& 0xffffffff) % 2 ^ 32 = val % 2 ^ 32 := by
        rw [show (0xffffffff : Nat) = 2 ^ 32 - 1 from rfl, Nat.and_two_pow_sub_one_eq_mod, Nat.mod_mod]
      rw [hmask] at hfollows'
      exact hfollows'
  · by_cases h4 : size = 4
    · subst h4
      obtain ⟨r, m, hput, hfollows⟩ := h.twrite (show offset < 2 ^ 35 by omega) val
      refine ⟨m, ?_, hfollows⟩
      simp only [viPciMsix, Nat.reduceEqDiff, if_false, Int.toNat_natCast, haddr, Option.bind_some, hput, Option.map_some]
    · refine ⟨t.table, ?_, ?_⟩
      · simp only [viPciMsix, h8, if_false, Int.toNat_natCast, haddr, Option.bind_some,
          twrite_size ⟨h4, h8⟩, Option.map_some]
      · rw [dwords, if_neg h8, if_neg h4]
        exact h

/-- A read is answered. -/
theorem tread_some (t : MsixTable) (size : Nat) {offset : Nat} (hoff : offset < 2 ^ 35) :
    ∃ v, pciEmulMsixTread t offset size = some v := by
  have hindex := tabIndex_eq hoff
  rw [pciEmulMsixTread]
  simp only [hindex]
  split
  · exact ⟨_, rfl⟩
  · split
    · exact ⟨_, rfl⟩
    · split
      · exact ⟨_, rfl⟩
      · split
        · exact ⟨_, rfl⟩
        · exact ⟨_, rfl⟩

theorem tread_word (t : MsixTable) {offset : Nat} (hsize : size = 4 ∨ size = 8) (hoff : offset < 2 ^ 35)
    (hlt : offset < 16 * t.tableCount) (hdvd : size ∣ offset) :
    pciEmulMsixTread t offset size = some (load size t.table offset) := by
  have hindex := tabIndex_eq hoff
  have hcount : tabIndex offset < t.tableCount := by omega
  have hmod := (mod_entry offset (.inr hsize)).mpr hdvd
  have hno : ¬ (size ≠ 1 ∧ size ≠ 4 ∧ size ≠ 8) := by omega
  rw [pciEmulMsixTread, if_neg hno]
  simp only [msixTableEntrySize, hmod, ne_eq, not_true_eq_false, if_false, if_pos hcount]
  rw [hindex]
  simp only [Nat.div_add_mod' offset 16]

/-- Reads leave the table alone. -/
theorem read_some (t : MsixTable) (vcpu val : Nat) (hoff : addr - (dev.piBar bar).addr + 4 < 2 ^ 35)
    (hasserts : memHandlerAsserts dev addr size bar = true) :
    ∃ v, emulMemHandler viPciMsix dev (some t) vcpu .read addr size val 0 bar = .ok (v, some t) := by
  rw [emulMemHandler, if_pos hasserts]
  generalize haddr : addr - (dev.piBar bar).addr = offset at *
  by_cases h8 : size = 8
  · subst h8
    obtain ⟨lo, hlo⟩ := tread_some t 4 (show offset < 2 ^ 35 by omega)
    obtain ⟨hi, hhi⟩ := tread_some t 4 hoff
    simp [viPciMsix, haddr, hlo, hhi]
  · obtain ⟨v, hv⟩ := tread_some t size (show offset < 2 ^ 35 by omega)
    simp [viPciMsix, h8, haddr, hv]

/-- An aligned double word is read as it was written last. -/
theorem Follows.read4 (h : Follows t wrote) (hoff : addr - (dev.piBar bar).addr + 4 < 2 ^ 35)
    (hasserts : memHandlerAsserts dev addr 4 bar = true) (hdvd : 4 ∣ addr - (dev.piBar bar).addr)
    (hlt : addr - (dev.piBar bar).addr < 16 * t.tableCount) :
    emulMemHandler viPciMsix dev (some t) vcpu .read addr 4 val 0 bar =
      .ok (lastWritten wrote (addr - (dev.piBar bar).addr), some t) := by
  rw [emulMemHandler, if_pos hasserts]
  generalize haddr : addr - (dev.piBar bar).addr = offset at *
  obtain ⟨d, rfl⟩ := hdvd
  have hread := tread_word t (.inl rfl) (show 4 * d < 2 ^ 35 by omega) hlt (Nat.dvd_mul_right 4 d)
  have hword := h.words d (by omega)
  simp [viPciMsix, haddr, hread, hword]

/-- Two of them are read as one. -/
theorem Follows.read8 (h : Follows t wrote) (hoff : addr - (dev.piBar bar).addr + 4 < 2 ^ 35)
    (hasserts : memHandlerAsserts dev addr 8 bar = true) (hdvd : 4 ∣ addr - (dev.piBar bar).addr)
    (hlt : addr - (dev.piBar bar).addr + 4 < 16 * t.tableCount) :
    emulMemHandler viPciMsix dev (some t) vcpu .read addr 8 val 0 bar =
      .ok (lastWritten wrote (addr - (dev.piBar bar).addr) +
        2 ^ 32 * lastWritten wrote (addr - (dev.piBar bar).addr + 4), some t) := by
  rw [emulMemHandler, if_pos hasserts]
  generalize haddr : addr - (dev.piBar bar).addr = offset at *
  obtain ⟨d, rfl⟩ := hdvd
  have hlo := tread_word t (.inl rfl) (show 4 * d < 2 ^ 35 by omega) (by omega) (Nat.dvd_mul_right 4 d)
  have hhi := tread_word t (.inl rfl) hoff hlt (show 4 ∣ 4 * d + 4 by omega)
  have hlow := load_lt 4 t.table (4 * d)
  have hhigh := load_lt 4 t.table (4 * d + 4)
  have hsum : load 4 t.table (4 * d) ||| (load 4 t.table (4 * d + 4) <<< 32) % 2 ^ 64 =
      load 4 t.table (4 * d) + 2 ^ 32 * load 4 t.table (4 * d + 4) := by
    rw [Nat.mod_eq_of_lt (by rw [Nat.shiftLeft_eq]; omega), Nat.or_comm, ← Nat.shiftLeft_add_eq_or_of_lt hlow,
      Nat.shiftLeft_eq]
    omega
  have hword := h.words d (by omega)
  have hword' := h.words (d + 1) (by omega)
  simp only [viPciMsix, if_true, Int.toNat_natCast, haddr, Option.bind_some, hlo, hhi, Option.map_some]
  rw [hsum, hword, show 4 * d + 4 = 4 * (d + 1) from rfl, hword']

end Handler

/-! ## All runs -/

section Runs
variable {s s' : State} {a : Act}

/-- The message of an entry, as the guest has written it. -/
def message (wrote : List (Nat × Nat)) (index : Nat) : Nat × Nat :=
  (lastWritten wrote (16 * index) + 2 ^ 32 * lastWritten wrote (16 * index + 4), lastWritten wrote (16 * index + 8))

structure Inv (s : State) : Prop where
  follows : Follows s.msix s.wrote
  size : s.bar.size < 2 ^ 32
  sent : ∀ m ∈ s.sent, ∃ index < s.msix.tableCount, ∃ v, (16 * index + 12, v) ∈ s.wrote ∧ v % 2 = 0

theorem Start.inv (h : Start s) : Inv s := by
  obtain ⟨⟨msgnum, barnum, -, -, hmsix⟩, hsize, hsent, hwrote⟩ := h
  refine ⟨?_, hsize, fun m hm => ?_⟩
  · rw [hmsix, hwrote]
    exact Follows.initial msgnum barnum
  · rw [hsent] at hm
    cases hm

/-- A double word that is not as it was at first has been written. -/
theorem mem_of_lastWritten {wrote : List (Nat × Nat)} {offset : Nat}
    (h : lastWritten wrote offset ≠ if offset % 16 = 12 then 1 else 0) : (offset, lastWritten wrote offset) ∈ wrote := by
  unfold lastWritten at h ⊢
  cases hfind : wrote.find? fun w => w.1 = offset with
  | none =>
    rw [hfind] at h
    exact absurd rfl h
  | some w =>
    have hmem := List.mem_of_find?_eq_some hfind
    have hkey : w.1 = offset := by simpa using List.find?_some hfind
    exact hkey ▸ hmem

theorem Inv.generate (h : Inv s) (index : Nat) : pciGenerateMsix s.pi s.msix index =
    if pciMsixEnabled s.pi ∧ s.pi.piMsix.functionMask = 0 ∧ index < s.msix.tableCount ∧
      lastWritten s.wrote (16 * index + 12) % 2 = 0 then some (message s.wrote index) else none := by
  rw [pciGenerateMsix]
  by_cases hon : pciMsixEnabled s.pi = true
  · by_cases hmask : s.pi.piMsix.functionMask = 0
    · by_cases hindex : index < s.msix.tableCount
      · have hword (k : Nat) (hk : k < 4) :
            load 4 s.msix.table (index * 16 + 4 * k) = lastWritten s.wrote (16 * index + 4 * k) := by
          have hw := h.follows.words (4 * index + k) (by omega)
          rw [show index * 16 + 4 * k = 4 * (4 * index + k) by ring, show 16 * index + 4 * k = 4 * (4 * index + k) by ring]
          exact hw
        have hlo : load 4 s.msix.table (index * 16) = lastWritten s.wrote (16 * index) := hword 0 (by decide)
        have hhi := hword 1 (by decide)
        have hdata := hword 2 (by decide)
        have hcontrol : load 4 s.msix.table (index * msixTableEntrySize + 12) &&& pcimMsixVctrlMask =
            lastWritten s.wrote (16 * index + 12) % 2 := by
          rw [pcimMsixVctrlMask, Nat.and_one_is_mod]
          exact congrArg (· % 2) (hword 3 (by decide))
        have haddr : load 8 s.msix.table (index * 16) =
            lastWritten s.wrote (16 * index) + 2 ^ 32 * lastWritten s.wrote (16 * index + 4) := by
          rw [load_add 4 4, hlo]
          exact congrArg (lastWritten s.wrote (16 * index) + 2 ^ 32 * ·) hhi
        have hnot : (!pciMsixEnabled s.pi) ≠ true := by simp [hon]
        rw [if_neg hnot, if_neg (not_not.mpr hmask), if_neg (Nat.not_le.mpr hindex)]
        by_cases hbit : lastWritten s.wrote (16 * index + 12) % 2 = 0
        · rw [if_pos (hcontrol.trans hbit), if_pos ⟨hon, hmask, hindex, hbit⟩]
          exact congrArg some (Prod.ext haddr hdata)
        · rw [if_neg (hcontrol ▸ hbit), if_neg fun hall => hbit hall.2.2.2]
      · simp [hon, hmask, hindex, Nat.not_lt.mp hindex]
    · simp [hon, hmask]
  · simp [hon]

theorem Inv.access (h : Inv s) (vcpu : Nat) (dir : Dir) (addr size val : Nat) :
    access s vcpu dir addr size val ≠ .error .wild ∧
    ∀ v s', access s vcpu dir addr size val = .ok (v, s') → Inv s' := by
  rw [PciMsix.access]
  split
  · rename_i hrange
    by_cases hasserts : memHandlerAsserts s.pi.dev addr size s.msix.tableBar = true
    · have hsize := h.size
      have hoff : addr - (s.pi.dev.piBar s.msix.tableBar).addr + 4 < 2 ^ 35 := by
        have hlt := hrange.2
        simp only [State.bar] at hsize hlt
        omega
      cases dir with
      | read =>
        obtain ⟨v, hv⟩ := read_some s.msix vcpu val hoff hasserts
        rw [hv]
        refine ⟨nofun, fun v' s' heq => ?_⟩
        cases heq
        exact ⟨h.follows, h.size, h.sent⟩
      | write =>
        obtain ⟨m, hm, hfollows⟩ := h.follows.write vcpu val hoff hasserts
        rw [hm]
        refine ⟨nofun, fun v' s' heq => ?_⟩
        cases heq
        refine ⟨hfollows, h.size, fun e he => ?_⟩
        obtain ⟨index, hlt, v, hmem, heven⟩ := h.sent e he
        exact ⟨index, hlt, v, List.mem_append_right _ hmem, heven⟩
    · have herr : emulMemHandler viPciMsix s.pi.dev (some s.msix) vcpu dir addr size val 0 s.msix.tableBar =
          .error .abort := if_neg hasserts
      rw [herr]
      exact ⟨nofun, fun _ _ => nofun⟩
  · exact ⟨nofun, fun _ _ => nofun⟩

/-- The size of a BAR is left alone by writes to the capabilities. -/
theorem capSwitch_bar (pi : MsiDev) (capid capoff offset bytes val : Nat) :
    (capSwitch pi capid capoff offset bytes val).dev.piBar = pi.dev.piBar := by
  rw [capSwitch]
  split
  · rw [msicapCfgwrite]
    split
    · rfl
    · rfl
  · split
    · rw [msixcapCfgwrite]
      split
      · rfl
      · rfl
    · split
      · rfl
      · rfl

theorem Inv.next (h : Inv s) (hnext : PciMsix.next s a = .ok s') : Inv s' := by
  cases a with
  | access vcpu dir addr size val =>
    cases hacc : PciMsix.access s vcpu dir addr size val with
    | error e =>
      rw [PciMsix.next, hacc] at hnext
      cases hnext
    | ok r =>
      rw [PciMsix.next, hacc] at hnext
      cases hnext
      exact (h.access vcpu dir addr size val).2 r.1 r.2 hacc
  | capwrite capid capoff offset bytes val =>
    cases hnext
    refine ⟨h.follows, ?_, h.sent⟩
    simp only [State.bar, capSwitch_bar]
    exact h.size
  | setAddr idx addr =>
    cases hnext
    refine ⟨h.follows, ?_, h.sent⟩
    simp only [State.bar, Devinst.setAddr, Function.update_apply]
    split
    · rename_i heq
      exact heq ▸ h.size
    · exact h.size
  | generate index =>
    cases hnext
    refine ⟨h.follows, h.size, fun m hm => ?_⟩
    rcases List.mem_append.mp hm with hnew | hold
    · have hgen := Option.mem_toList.mp hnew
      rw [h.generate index] at hgen
      split at hgen
      · rename_i hall
        obtain ⟨-, -, hindex, hbit⟩ := hall
        have hwritten : (16 * index + 12, lastWritten s.wrote (16 * index + 12)) ∈ s.wrote := by
          apply mem_of_lastWritten
          rw [if_pos (by omega)]
          omega
        exact ⟨index, hindex, _, hwritten, hbit⟩
      · cases hgen
    · exact h.sent m hold

theorem inductive_inv : system.Inductive Inv where
  init _ h := h.inv
  step s a t hs hstep := by
    have hstep' : (next s a).toOption = some t := hstep
    cases hnext : next s a with
    | error e =>
      rw [hnext] at hstep'
      cases hstep'
    | ok t' =>
      rw [hnext] at hstep'
      cases hstep'
      exact hs.next hnext

/-- An access that comes back has been to the handler. -/
theorem access_ok {vcpu addr size val : Nat} {dir : Dir} {r : Nat × State} (h : access s vcpu dir addr size val = .ok r) :
    addr < s.bar.addr + s.bar.size ∧ memHandlerAsserts s.pi.dev addr size s.msix.tableBar = true ∧
    ∃ t, emulMemHandler viPciMsix s.pi.dev (some s.msix) vcpu dir addr size val 0 s.msix.tableBar = .ok (r.1, t) := by
  rw [access] at h
  split at h
  · rename_i hrange
    by_cases hasserts : memHandlerAsserts s.pi.dev addr size s.msix.tableBar = true
    · refine ⟨hrange.2, hasserts, ?_⟩
      cases hcall : emulMemHandler viPciMsix s.pi.dev (some s.msix) vcpu dir addr size val 0 s.msix.tableBar with
      | error e =>
        rw [hcall] at h
        cases h
      | ok q =>
        obtain ⟨v, t⟩ := q
        rw [hcall] at h
        cases t with
        | none => cases h
        | some t =>
          cases h
          exact ⟨some t, rfl⟩
    · have herr : emulMemHandler viPciMsix s.pi.dev (some s.msix) vcpu dir addr size val 0 s.msix.tableBar =
          .error .abort := if_neg hasserts
      rw [herr] at h
      cases h
  · cases h

/-- In every run each double word of the table is what the guest has written to it last, and is read so. No
access leaves the table. A message is sent exactly where MSI-X is on, MSI and the function mask are off and the
last the guest has written to the entry's vector control is not masked, and it is what the guest has written
last; before the guest has taken the mask off some entry no message has been sent. -/
theorem msix_run (hr : system.Reachable s) :
    (∀ d < 4 * s.msix.tableCount, load 4 s.msix.table (4 * d) = lastWritten s.wrote (4 * d)) ∧
    (∀ a, next s a ≠ .error .wild) ∧
    (∀ vcpu addr val r, access s vcpu .read addr 4 val = .ok r → 4 ∣ addr - s.bar.addr →
      addr - s.bar.addr < 16 * s.msix.tableCount → r.1 = lastWritten s.wrote (addr - s.bar.addr)) ∧
    (∀ vcpu addr val r, access s vcpu .read addr 8 val = .ok r → 4 ∣ addr - s.bar.addr →
      addr - s.bar.addr + 4 < 16 * s.msix.tableCount →
      r.1 = lastWritten s.wrote (addr - s.bar.addr) + 2 ^ 32 * lastWritten s.wrote (addr - s.bar.addr + 4)) ∧
    (∀ index, pciGenerateMsix s.pi s.msix index =
      if pciMsixEnabled s.pi ∧ s.pi.piMsix.functionMask = 0 ∧ index < s.msix.tableCount ∧
        lastWritten s.wrote (16 * index + 12) % 2 = 0 then some (message s.wrote index) else none) ∧
    ∀ m ∈ s.sent, ∃ index < s.msix.tableCount, ∃ v, (16 * index + 12, v) ∈ s.wrote ∧ v % 2 = 0 := by
  have hs := inductive_inv.reachable hr
  have hoff {addr : Nat} (hlt : addr < s.bar.addr + s.bar.size) :
      addr - (s.pi.dev.piBar s.msix.tableBar).addr + 4 < 2 ^ 35 := by
    have hsize := hs.size
    simp only [State.bar] at hsize hlt
    omega
  refine ⟨hs.follows.words, fun a => ?_, fun vcpu addr val r hacc hdvd hlt => ?_, fun vcpu addr val r hacc hdvd hlt => ?_,
    hs.generate, hs.sent⟩
  · cases a with
    | access vcpu dir addr size val =>
      have hwild := (hs.access vcpu dir addr size val).1
      intro h
      cases hacc : access s vcpu dir addr size val with
      | error e =>
        rw [next, hacc] at h
        cases h
        exact hwild hacc
      | ok r =>
        rw [next, hacc] at h
        cases h
    | capwrite | setAddr | generate => exact nofun
  · obtain ⟨hrange, hasserts, t, hcall⟩ := access_ok hacc
    rw [hs.follows.read4 (hoff hrange) hasserts hdvd hlt] at hcall
    exact (Prod.mk.inj (Except.ok.inj hcall)).1.symm
  · obtain ⟨hrange, hasserts, t, hcall⟩ := access_ok hacc
    rw [hs.follows.read8 (hoff hrange) hasserts hdvd hlt] at hcall
    exact (Prod.mk.inj (Except.ok.inj hcall)).1.symm

end Runs

/-- A function with a table of two entries in BAR 1, MSI-X switched on. -/
def twoVectors : State where
  pi :=
    { dev := ⟨fun _ => 0, fun _ => ⟨.mem32, 8192, 0xc0000000⟩, 0, none⟩
      piMsi := ⟨0, 0, 0, 0⟩
      piMsix := ⟨0x8000, 0⟩ }
  msix := pciEmulAddMsixcap 2 1
  sent := []
  wrote := []

theorem msix_run_unmasked : ∃ s, system.Reachable s ∧ s.sent = [(0xfee00000, 0x41)] ∧
    ∃ index < s.msix.tableCount, ∃ v, (16 * index + 12, v) ∈ s.wrote ∧ v % 2 = 0 := by
  have hstart : Start twoVectors := ⟨⟨2, 1, by decide, by decide, rfl⟩, by decide, rfl, rfl⟩
  let acts : List Act := [.generate 1, .access 0 .write 0xc0000010 8 0xfee00000,
    .access 0 .write 0xc0000018 8 0x41, .generate 1]
  have hrun : (System.exec (fun s a => (next s a).toOption) twoVectors acts).map State.sent =
      some [(0xfee00000, 0x41)] := by decide +kernel
  obtain ⟨s, hs, hsent⟩ := Option.map_eq_some_iff.mp hrun
  have hr : system.Reachable s := System.exec_reachable (.init hstart) hs
  obtain ⟨-, -, -, -, -, hmasked⟩ := msix_run hr
  exact ⟨s, hr, hsent, hmasked (0xfee00000, 0x41) (hsent ▸ List.mem_singleton_self _)⟩

end Xhyve.Emul.PciMsix
