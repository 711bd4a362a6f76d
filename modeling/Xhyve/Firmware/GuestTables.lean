import Xhyve.Firmware.KexecLayout
import Xhyve.Firmware.SmbiosTable

/-!
# What a guest finds when it starts

`run_xhyve` builds the MP table and behind it the SMBIOS table in the ROM area below 1 MiB; the first processor's thread
then puts the kernel, its command line, the zero page, the GDT and the ramdisk around them. Each part was built as if it
were alone in memory. Here they are all there when the guest starts, for a command line that ends below the ROM area.
-/

namespace Xhyve.Firmware.GuestTables

open Xhyve.Lib Xhyve.Lib.Mem
open Xhyve.Virtio (GuestRam xhVmMapGpa highmemBase)
open Xhyve.Emul.PciIrq (Router)
open MpTable SmbiosTable

/-- The part of `run_xhyve` that builds the tables; none is left where one of them fails. The ACPI tables are copied
behind the SMBIOS table by code that is a parameter. -/
def buildTables (mptgen acpi : Bool) (acpiBuild : Mem → Option Mem) (ram : GuestRam) (guestNcpus : Nat)
    (businfo : Businfos) (uuid : Option Uuid) (size : Nat → UInt16) (m : Mem) : Option Mem :=
  (if mptgen then (mptableBuild ram guestNcpus businfo m).toOption else some m).bind fun m =>
    (smbiosBuild ram guestNcpus uuid size m).toOption.bind fun m =>
      if acpi then acpiBuild m else some m

/-- The tables stay behind `XHYVE_ACPI_BASE`. -/
def StaysBehind (ram : GuestRam) (acpiBuild : Mem → Option Mem) : Prop :=
  ∀ m m', acpiBuild m = some m' → ∀ x < ram.lowmemAddr + 0xF2400, m' x = m x

section Frame
variable {ram : GuestRam} {m m' : Mem} {startaddr ncpu : Nat}

theorem initializer_outside {staddr x : Nat} (hx : x < startaddr ∨ startaddr + smbiosMaxLength ≤ x) :
    smbiosEpInitializer m startaddr staddr x = m x := by
  have hroom : smbiosMaxLength = 0x1400 := rfl
  have hlen : (smbiosEntryEanchor ++ [0, 0x1F, 2, 6] ++ LittleEndian.bytes 2 0 ++ [0, 0, 0, 0, 0, 0] ++
      smbiosEntryIanchor ++ [0] ++ LittleEndian.bytes 2 0 ++ LittleEndian.bytes 4 staddr ++ LittleEndian.bytes 2 0 ++
      [0x24]).length = 31 := by
    simp only [List.length_append, LittleEndian.length_bytes]
    rfl
  refine put_of_outside ?_
  rw [hlen]
  omega

theorem finalizer_outside {len num maxssize x : Nat} (hx : x < startaddr ∨ startaddr + smbiosMaxLength ≤ x) :
    smbiosEpFinalizer m startaddr len num maxssize x = m x := by
  have hroom : smbiosMaxLength = 0x1400 := rfl
  have hone : ∀ v : UInt8, [v].length = 1 := fun _ => rfl
  simp only [smbiosEpFinalizer]
  rw [put_of_outside (by rw [hone]; omega), put_of_outside (by rw [hone]; omega), Mem.store_eq_put, Mem.store_eq_put,
    Mem.store_eq_put, put_of_outside (by rw [LittleEndian.length_bytes]; omega),
    put_of_outside (by rw [LittleEndian.length_bytes]; omega), put_of_outside (by rw [LittleEndian.length_bytes]; omega)]

/-- The SMBIOS table stays in its part of the ROM area. -/
theorem smbiosBuild_outside {uuid : Option Uuid} {size : Nat → UInt16} (hncpu : ncpu ≤ vmMaxcpu)
    (hmap : xhVmMapGpa ram smbiosBase smbiosMaxLength = some startaddr)
    (h : smbiosBuild ram ncpu uuid size m = .ok m') {x : Nat}
    (hx : x < startaddr ∨ startaddr + smbiosMaxLength ≤ x) : m' x = m x := by
  rw [smbiosBuild, hmap] at h
  simp only at h
  cases uuid with
  | none => cases h
  | some u =>
    obtain ⟨⟨st, curaddr⟩, hreach⟩ := template_reached (g := ⟨ncpu, ram.lowmem, ram.highmem, some u⟩) rfl hncpu
      (smbiosEpInitializer m startaddr (smbiosBase + sizeofEntryPoint)) (startaddr + sizeofEntryPoint)
    have hend := hreach.adds.endaddr
    rw [hreach.run] at h
    simp only at h hend
    split at h
    · rename_i hfits
      obtain rfl := Except.ok.inj h
      rw [finalizer_outside hx, hreach.adds.emits.frame x (by omega)]
      exact initializer_outside hx
    · cases h

/-- What is read of an MP table lies in its first bytes. -/
theorem finished_congr {es : List (List UInt8)} (h : Finished startaddr m es)
    (hsame : ∀ x, startaddr ≤ x → x < startaddr + (sizeofMpfps + sizeofMpcth + es.flatten.length) → m' x = m x) :
    Finished startaddr m' es := by
  have hmpfps : sizeofMpfps = 16 := rfl
  have hmpcth : sizeofMpcth = 44 := rfl
  have hslice {a n : Nat} (hlo : startaddr ≤ a)
      (hhi : a + n ≤ startaddr + (sizeofMpfps + sizeofMpcth + es.flatten.length)) : m'.slice a n = m.slice a n :=
    slice_congr fun x hx hx' => hsame x (hlo.trans hx) (Nat.lt_of_lt_of_le hx' hhi)
  constructor
  · rw [hslice (Nat.le_refl _) (by omega)]
    exact h.pointer
  · rw [load_eq_slice, hslice (by omega) (by omega)]
    exact h.length
  · rw [load_eq_slice, hslice (by omega) (by omega)]
    exact h.count
  · rw [hslice (by omega) (by omega)]
    exact h.body
  · rw [hslice (by omega) (by omega)]
    exact h.sum

theorem entryPoint_congr {stlen stnum maxssize staddr : Nat} (h : EntryPoint startaddr m stlen stnum maxssize staddr)
    (hsame : ∀ x, startaddr ≤ x → x < startaddr + smbiosMaxLength → m' x = m x) :
    EntryPoint startaddr m' stlen stnum maxssize staddr := by
  have hroom : smbiosMaxLength = 0x1400 := rfl
  have hslice {a n : Nat} (hlo : startaddr ≤ a) (hhi : a + n ≤ startaddr + smbiosMaxLength) :
      m'.slice a n = m.slice a n :=
    slice_congr fun x hx hx' => hsame x (hlo.trans hx) (Nat.lt_of_lt_of_le hx' hhi)
  constructor
  · rw [load_eq_slice, hslice (by omega) (by omega)]
    exact h.maxssize
  · rw [load_eq_slice, hslice (by omega) (by omega)]
    exact h.stlen
  · rw [load_eq_slice, hslice (by omega) (by omega)]
    exact h.staddr
  · rw [load_eq_slice, hslice (by omega) (by omega)]
    exact h.stnum
  · rw [hslice (by omega) (by omega)]
    exact h.ichecksum
  · rw [hslice (Nat.le_refl _) (by omega)]
    exact h.echecksum

theorem structs_congr {stlen stnum maxssize : Nat}
    (h : EntryPoint startaddr m stlen stnum maxssize (smbiosBase + sizeofEntryPoint))
    (hsame : ∀ x, startaddr ≤ x → x < startaddr + smbiosMaxLength → m' x = m x) :
    structs startaddr m' = structs startaddr m := by
  have hroom : smbiosMaxLength = 0x1400 := rfl
  have hthirty : sizeofEntryPoint = 31 := rfl
  have h' := entryPoint_congr h hsame
  rw [structs, structs, h'.stnum, h.stnum, h'.staddr, h.staddr, Nat.add_sub_cancel_left]
  rw [slice_congr fun x hx hx' => hsame x (by omega) (by omega)]

theorem mpEntries_small (hncpu : ncpu ≤ vmMaxcpu) (bi : Option Slotinfos) :
    sizeofMpfps + sizeofMpcth + (mpEntries ncpu bi).flatten.length ≤ 0x1000 := by
  have hmpfps : sizeofMpfps = 16 := rfl
  have hmpcth : sizeofMpcth = 44 := rfl
  have hmax : ncpu ≤ 16 := hncpu
  have hpci := (length_pciEntries bi).2.1
  rw [length_mpEntries]
  omega

theorem mapped_low {gpa len : Nat} (hlow : gpa < highmemBase) (hmap : xhVmMapGpa ram gpa len = some startaddr) :
    startaddr = ram.lowmemAddr + gpa := by
  rw [xhVmMapGpa, if_neg (Nat.not_le.mpr hlow)] at hmap
  split at hmap
  · exact (Option.some.inj hmap).symm
  · cases hmap

end Frame

/-! ## The two tables -/

section Tables
variable {mptgen acpi : Bool} {acpiBuild : Mem → Option Mem} {ram : GuestRam} {ncpu : Nat} {businfo : Businfos}
  {uuid : Option Uuid} {size : Nat → UInt16} {funcs : List PciFunc} {r : Router} {m m' m'' : Mem}

/-- A guest meets both tables: the MP table with the lines that the router has given, and an SMBIOS table that can be
read. -/
structure Found (mptgen : Bool) (ram : GuestRam) (ncpu : Nat) (businfo : Businfos) (funcs : List PciFunc) (r : Router)
    (m : Mem) : Prop where
  mptable : mptgen = true → ∃ mpfp, xhVmMapGpa ram mptableBase mptableMaxLength = some mpfp ∧
    MpTable.WellFormed mpfp m ncpu funcs r (businfo 0)
  smbios : ∃ smbiosEp, xhVmMapGpa ram smbiosBase smbiosMaxLength = some smbiosEp ∧ Readable smbiosEp m

theorem finished_wellFormed {startaddr : Nat} {bi : Option Slotinfos} (h : Finished startaddr m (mpEntries ncpu bi))
    (hwired : Wired funcs r bi) : MpTable.WellFormed startaddr m ncpu funcs r bi := by
  refine ⟨h.pointer, ?_, h.read, fun slot pin hpin => ?_⟩
  · rw [h.length]
    exact h.sum
  · rw [h.read]
    simp only
    rw [filter_mpEntries]
    exact hwired.filter hpin

theorem ok_of_toOption {ε : Type} {e : Except ε Mem} (h : e.toOption = some m) : e = .ok m := by
  cases e with
  | error e => cases h
  | ok m₁ => rw [Option.some.inj h]

/-- Both are there as they were built as long as nobody writes to the ROM area. -/
theorem buildTables_found (hncpu : ncpu ≤ vmMaxcpu) (hwired : Wired funcs r (businfo 0))
    (hacpi : StaysBehind ram acpiBuild)
    (h : buildTables mptgen acpi acpiBuild ram ncpu businfo uuid size m = some m')
    (hsame : ∀ x, ram.lowmemAddr + 0xF0000 ≤ x → x < ram.lowmemAddr + 0x100000 → m'' x = m' x) :
    Found mptgen ram ncpu businfo funcs r m'' := by
  have hroom : smbiosMaxLength = 0x1400 := rfl
  rw [buildTables] at h
  obtain ⟨m₁, hfirst, h⟩ := Option.bind_eq_some_iff.mp h
  obtain ⟨m₂, hsecond, hthird⟩ := Option.bind_eq_some_iff.mp h
  have hbuild := ok_of_toOption hsecond
  have hbelow : ∀ x, ram.lowmemAddr + 0xF0000 ≤ x → x < ram.lowmemAddr + 0xF2400 → m'' x = m₂ x := by
    intro x hlo hhi
    rw [hsame x hlo (by omega)]
    split at hthird
    · exact hacpi _ _ hthird x hhi
    · rw [Option.some.inj hthird]
  obtain ⟨smbiosEp, g, u, -, hmap, hstructs, hentry, hhandles⟩ := smbiosBuild_spec hncpu hbuild
  have hsmbiosEp : smbiosEp = ram.lowmemAddr + 0xF1000 := mapped_low (by decide) hmap
  constructor
  · intro hgen
    rw [if_pos hgen] at hfirst
    obtain ⟨mpfp, hmap', hdone⟩ := mptableBuild_finished hncpu (ok_of_toOption hfirst)
    have hmpfp : mpfp = ram.lowmemAddr + 0xF0000 := mapped_low (by decide) hmap'
    have hsmall := mpEntries_small hncpu (businfo 0)
    have hkept : Finished mpfp m'' (mpEntries ncpu (businfo 0)) := finished_congr hdone fun x hx hx' =>
      (hbelow x (by omega) (by omega)).trans (smbiosBuild_outside hncpu hmap hbuild (.inl (by omega)))
    exact ⟨mpfp, hmap', finished_wellFormed hkept hwired⟩
  · have hrom : ∀ x, smbiosEp ≤ x → x < smbiosEp + smbiosMaxLength → m'' x = m₂ x :=
      fun x hx hx' => hbelow x (by omega) (by omega)
    exact ⟨smbiosEp, hmap,
      smbiosStructs_readable ((structs_congr hentry hrom).trans hstructs) (entryPoint_congr hentry hrom) hhandles⟩

end Tables

/-! ## The kernel beside them -/

section Boot
variable {ram : HostRam} {kernel ramdisk : Region} {cmdline : List UInt8} {k f : File} {mem m : Mem} {s t u : WriteLog}

theorem kernelLoaded_tracked (hk : KernelLoaded ram.toGuestRam (lowMemory ram.toGuestRam) cmdline k s kernel t)
    (hs : WriteLog.Tracked mem s) : WriteLog.Tracked mem t := by
  obtain ⟨bs, -, -, rfl⟩ := hk.state
  exact ((((hs.put _ _).put _ _).put _ _).put _ _ |>.put _ _).fill _ _

theorem ramdiskLoaded_tracked (hr : RamdiskLoaded (lowMemory ram.toGuestRam) f t kernel ramdisk u)
    (ht : WriteLog.Tracked mem t) : WriteLog.Tracked mem u := by
  obtain ⟨bs, -, -, rfl⟩ := hr.state
  exact (ht.put _ _).fill _ _

/-- The ROM area is in no part that is loaded. -/
theorem rom_outside (hfits : Fits ram.lowmem cmdline.length kernel ramdisk) (hcmdline : cmdline.length < 0xEC000) {x : Nat}
    (hlo : ram.lowmemAddr + 0xF0000 ≤ x) (hhi : x < ram.lowmemAddr + 0x100000) :
    ¬ ∃ e ∈ extents cmdline kernel ramdisk, ∃ g, e.Has g ∧ x = ram.lowmemAddr + g := by
  rintro ⟨e, he, g, ⟨hge, hlt⟩, hx⟩
  have hhigh := hfits.high
  have habove := hfits.above
  simp only [extents, Region.extent, List.mem_cons, List.not_mem_nil, or_false] at he
  rcases he with rfl | rfl | rfl | rfl | rfl
  all_goals
    simp only at hge hlt
    omega

/-- When the guest starts it finds its tables, and the kernel with all that belongs to it laid out around them. -/
theorem kexec_found {mptgen acpi : Bool} {acpiBuild : Mem → Option Mem} {ncpu : Nat} {businfo : Businfos}
    {uuid : Option Uuid} {size : Nat → UInt16} {funcs : List PciFunc} {r : Router} {config : Config} {b : Booted}
    (hncpu : ncpu ≤ vmMaxcpu) (hwired : Wired funcs r (businfo 0)) (hacpi : StaysBehind ram.toGuestRam acpiBuild)
    (htables : buildTables mptgen acpi acpiBuild ram.toGuestRam ncpu businfo uuid size mem = some m)
    (hkernel : config.kernel = some k) (hinitrd : config.initrd = some (some f)) (hplaced : k.Placed)
    (hseek : f.seekable = true) (hcmdline : config.cmdlineBytes.length < 0xEC000)
    (hboot : kexec ram.toGuestRam config m = some b) :
    Found mptgen ram.toGuestRam ncpu businfo funcs r b.memory.mem ∧
    ∃ ramdisk, b.ramdisk = some ramdisk ∧ Layout ram.toGuestRam config.cmdlineBytes b.kernel ramdisk b.memory := by
  rw [kexec] at hboot
  obtain ⟨⟨kernel, t⟩, hload, hboot⟩ := Option.bind_eq_some_iff.mp hboot
  obtain ⟨⟨initrd, u⟩, hrd, rfl⟩ := Option.map_eq_some_iff.mp hboot
  rw [loadInitrd, hinitrd] at hrd
  obtain ⟨⟨ramdisk, v⟩, hload', he⟩ := Option.map_eq_some_iff.mp hrd
  obtain ⟨rfl, rfl⟩ := Prod.mk.inj he
  rw [hkernel] at hload
  have hk := kexecLoadKernel_spec hload
  have hr := kexecLoadRamdisk_spec hload'
  have hfits := fits ram.lowmem_lt (lowMemory_size ram) hk ((placed_iff hk).mpr hplaced) hr hseek
  have hlayout := layout_of_fits hk hr hfits
  have htracked : WriteLog.Tracked m (v.fill (hostAddr (lowMemory ram.toGuestRam) baseGdt) gdtEntries) :=
    (ramdiskLoaded_tracked hr (kernelLoaded_tracked hk fun _ _ => rfl)).fill _ _
  refine ⟨buildTables_found hncpu hwired hacpi htables fun x hlo hhi => ?_, ramdisk, rfl, hlayout⟩
  exact htracked.outside hlayout.written (rom_outside hfits hcmdline hlo hhi)

/-- Two megabytes, one processor, and one function that asks for a line. -/
theorem kexec_found_lone : ∃ b : Booted, Found true smallRam.toGuestRam 1
    (fun bus => if bus = 0 then some loneBus else none) [loneFunc] loneRouter b.memory.mem := by
  have hrun : ((buildTables true false some smallRam.toGuestRam 1 (fun bus => if bus = 0 then some loneBus else none)
      (some zeroUuid) (fun _ => 0) fun _ => 0).bind
        (kexec smallRam.toGuestRam ⟨some movableKernel, some (some smallRamdisk), none⟩)).isSome = true := by
    decide +kernel
  obtain ⟨b, hb⟩ := Option.isSome_iff_exists.mp hrun
  obtain ⟨m, htables, hboot⟩ := Option.bind_eq_some_iff.mp hb
  have hncpu : 1 ≤ vmMaxcpu := by decide
  have hacpi : StaysBehind smallRam.toGuestRam some := fun m m' h x _ => by rw [Option.some.inj h]
  have hmovable : movableKernel.Placed := .inl (by decide +kernel)
  exact ⟨b, (kexec_found hncpu loneBus_wired hacpi htables rfl rfl hmovable rfl (by decide) hboot).1⟩

end Boot

end Xhyve.Firmware.GuestTables
