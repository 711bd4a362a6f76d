import Xhyve.Emul.AhciCoverage
import Xhyve.Emul.BlockIfProc
import Xhyve.Emul.VirtioBlock

/-!
# Guest disk accesses and the size of the disk

Neither device model compares a request with the size of the disk, nor does the block interface. A request is inside exactly
if what the guest asks for is; the offset is taken modulo `2 ^ 64` and read as an `off_t`.
-/

namespace Xhyve.Emul.DiskBounds

open Xhyve.Lib.Gather
open Xhyve.Emul.BlockIf (File Transfer InsideDisk Kept blockifProc procAll insideDisk_iff proc_inside procAll_inside
  preadv_below_zero)

/-- A request is one of the disk, and the block interface processes it on a file of the disk's size. -/
structure Served (size : Nat) (offset : BitVec 64) (n : Nat) : Prop where
  inside : InsideDisk size offset n
  proc : ∀ bcRdonly f br, f.bytes.length = size → Transfer.size br = n →
    ∃ r, blockifProc bcRdonly f offset br = some r ∧ Kept size f br r

theorem served_iff {size n : Nat} {offset : BitVec 64} (hsize : size < 2 ^ 63) :
    Served size offset n ↔ offset.toNat + n ≤ size := by
  rw [← insideDisk_iff hsize]
  constructor
  · exact Served.inside
  · intro h
    refine ⟨h, fun bcRdonly f br hf hn => ?_⟩
    subst hn
    exact proc_inside hf h

/-! ## virtio -/

section Virtio

open Xhyve.Virtio (Getchain Iovec)
open Xhyve.Emul.VirtioBlock (Memory Parsed parse)

/-- The bytes of the descriptors between header and status. -/
def descBytes (iov : List Iovec) : Nat := (iov.dropLast.map fun v => v.iovLen.toNat).sum

/-- The bytes of a request. -/
def reqBytes (br : BlockIf.BlockifReq) : Nat := (br.brIov.map BitVec.toNat).sum

/-- The header a chain begins with, and the descriptors behind it. -/
structure ChainHeader (m : Memory) (r : Getchain) (sector : BitVec 64) (iov : List Iovec) : Prop where
  chain : ∃ hdr vbh, r.out.iov = hdr :: iov ∧ hdr.iovBase = some vbh ∧ (m.hdrAt vbh).vbhSector = sector

theorem iovLen_toNat (v : Iovec) : (v.iovLen.toBitVec.setWidth 64).toNat = v.iovLen.toNat := by
  have hlt := v.iovLen.toBitVec.isLt
  rw [BitVec.toNat_setWidth, Nat.mod_eq_of_lt (by omega)]
  rfl

/-- A request begins at the sector of its header and is as long as its descriptors. -/
theorem parse_request {m : Memory} {r : Getchain} {p : Parsed} (h : parse m r = .ok p) :
    ∃ sector iov, ChainHeader m r sector iov ∧ p.req.brOffset.toNat = sector.toNat * 512 % 2 ^ 64 ∧
      reqBytes p.req = descBytes iov := by
  unfold parse at h
  split at h
  case h_2 => cases h
  rename_i n hdr iov hdrFlags flags hret hiov hflags
  split_ifs at h
  split at h
  case h_2 => cases h
  rename_i vbh stat statFlags hbase hstat hstatFlags
  split_ifs at h
  dsimp only at h
  split_ifs at h
  split at h
  · cases h
  · obtain rfl := Except.ok.inj h
    refine ⟨_, iov, ⟨hdr, vbh, hiov, hbase, rfl⟩, BitVec.toNat_mul _ _, ?_⟩
    unfold reqBytes descBytes
    rw [List.map_map]
    exact congrArg List.sum (List.map_congr_left fun v _ => iovLen_toNat v)

theorem ChainHeader.unique {m : Memory} {r : Getchain} {sector sector' : BitVec 64} {iov iov' : List Iovec}
    (h : ChainHeader m r sector iov) (h' : ChainHeader m r sector' iov') : sector' = sector ∧ iov' = iov := by
  obtain ⟨hdr, vbh, hiov, hbase, rfl⟩ := h.chain
  obtain ⟨hdr', vbh', hiov', hbase', rfl⟩ := h'.chain
  obtain ⟨rfl, rfl⟩ := List.cons.inj (hiov.symm.trans hiov')
  obtain rfl := Option.some.inj (hbase.symm.trans hbase')
  exact ⟨rfl, rfl⟩

end Virtio

/-! ## AHCI -/

section Ahci

open Xhyve.Emul.Ahci

variable {h : Host} {p : PortNo} {slot : Slot} {cfis : Nat} {atapi : Bool} {done : BitVec 32} {a : Ioreq} {s t : State}

/-- The byte a command begins at. -/
def firstByte (h : Host) (atapi : Bool) (c : Nat → UInt8) : Nat :=
  if atapi then be32dec c 0x42 * 2048 else (rwRange c).1 * h.sectsz

/-- The bytes the PRDT has for a request: from what is done on, as far as the transfer and the vectors go. -/
def prdtRoom (h : Host) (u : State) (p : PortNo) (slot : Slot) (cfis : Nat) (len done : BitVec 32) : Nat :=
  total (covered h u.mem len done (cfis + 0x80) (tablePrdtl u p slot))

/-- The range of one request of a command, of which `done` bytes are done. -/
def CommandFits (h : Host) (atapi : Bool) (c : Nat → UInt8) (done : BitVec 32) (n : Nat) : Prop :=
  (firstByte h atapi c + done.toNat) % 2 ^ 64 + n ≤ h.size

theorem transferOffset_toNat (h : Host) (atapi : Bool) (c : Nat → UInt8) (done : BitVec 32) :
    (transferOffset h atapi c + done.setWidth 64).toNat = (firstByte h atapi c + done.toNat) % 2 ^ 64 := by
  have hdone := done.isLt
  have hfirst : (transferOffset h atapi c).toNat = firstByte h atapi c % 2 ^ 64 := by
    unfold transferOffset firstByte
    split <;> exact BitVec.toNat_ofNat _ _
  rw [BitVec.toNat_add, hfirst, BitVec.toNat_setWidth, Nat.mod_eq_of_lt (show done.toNat < 2 ^ 64 by omega), Nat.mod_add_mod]

/-- A request is as long as the PRDT has room. -/
theorem built_iovBytes (u : State) : iovBytes (a.built h u.mem (cfis + 0x80) (tablePrdtl u p slot)).brIov =
    prdtRoom h u p slot cfis a.len a.done := built_covers.bytes

theorem transfer_served (hsize : h.size < 2 ^ 63) (hrun : transfer h p slot cfis atapi done s = .ok () t)
    (hnew : newest (t.port p) = some a) :
    ∃ u, (u = s ∨ transferLen h atapi (bytesAt s.mem cfis) = 0) ∧
      (Served h.size a.brOffset (iovBytes a.brIov) ↔
        CommandFits h atapi (bytesAt s.mem cfis) done
          (prdtRoom h u p slot cfis (transferLen h atapi (bytesAt s.mem cfis)) done)) := by
  obtain ⟨u, x, hu, hx, hmade⟩ := transfer_ok hrun
  obtain rfl := Option.some.inj (hnew.symm.trans hmade)
  refine ⟨u, hu, ?_⟩
  have hoffset : (x.built h u.mem (cfis + 0x80) (tablePrdtl u p slot)).brOffset =
      transferOffset h atapi (bytesAt s.mem cfis) + done.setWidth 64 := hx.offset
  rw [served_iff hsize, hoffset, transferOffset_toNat, built_iovBytes, hx.len, hx.done]
  rfl

end Ahci

/-! ## Both devices -/

/-- What is promised of the requests of both devices, and of the file under any number of them. -/
structure AccessesInside (size : Nat) : Prop where
  virtio : ∀ (m : VirtioBlock.Memory) (r : Virtio.Getchain) (sector : BitVec 64) (iov : List Virtio.Iovec)
    (p : VirtioBlock.Parsed), VirtioBlock.parse m r = .ok p → ChainHeader m r sector iov →
    VirtioBlock.opOf p.type = some .read ∨ VirtioBlock.opOf p.type = some .write →
      (Served size p.req.brOffset (reqBytes p.req) ↔ sector.toNat * 512 % 2 ^ 64 + descBytes iov ≤ size)
  ahci : ∀ (h : Ahci.Host) (p : Ahci.PortNo) (slot : Ahci.Slot) (cfis : Nat) (atapi : Bool) (done : BitVec 32)
    (s t : Ahci.State) (a : Ahci.Ioreq), h.size = size → Ahci.transfer h p slot cfis atapi done s = .ok () t →
    Ahci.newest (t.port p) = some a →
      ∃ u, (u = s ∨ Ahci.transferLen h atapi (Ahci.bytesAt s.mem cfis) = 0) ∧
        (Served size a.brOffset (Ahci.iovBytes a.brIov) ↔
          CommandFits h atapi (Ahci.bytesAt s.mem cfis) done
            (prdtRoom h u p slot cfis (Ahci.transferLen h atapi (Ahci.bytesAt s.mem cfis)) done))
  file : ∀ (bcRdonly : Bool) (f : File) (brs : List (BitVec 64 × Transfer)), f.bytes.length = size →
    (∀ br ∈ brs, Served size br.1 br.2.size) → ∃ g, procAll bcRdonly f brs = some g ∧ g.bytes.length = size

theorem disk_accesses_inside_iff {size : Nat} (hsize : size < 2 ^ 63) : AccessesInside size where
  virtio m r sector iov p hp hheader _ := by
    obtain ⟨sector', iov', hheader', hoffset, hbytes⟩ := parse_request hp
    obtain ⟨rfl, rfl⟩ := hheader.unique hheader'
    rw [served_iff hsize, hoffset, hbytes]
  ahci h p slot cfis atapi done s t a hdisk hrun hnew := by
    subst hdisk
    exact transfer_served hsize hrun hnew
  file bcRdonly f brs hf hall := procAll_inside hf fun br hbr => (hall br hbr).inside

/-- A read of one sector. -/
def sectorRead (sector : BitVec 64) : VirtioBlock.Memory where
  paddrGuest2host addr _ := some addr.toNat
  descAt p :=
    if p = 0x1000 then ⟨0x5000, 16, Virtio.vringDescFNext, 1⟩
    else if p = 0x1010 then ⟨0x6000, 512, Virtio.vringDescFNext ||| VirtioBlock.vringDescFWrite, 2⟩
    else ⟨0x7000, 1, VirtioBlock.vringDescFWrite, 0⟩
  hdrAt _ := ⟨VirtioBlock.vbhOpRead, sector⟩

def oneChain : Virtio.VqueueInfo where
  vqQsize := 64
  vqFlags := Virtio.vqAlloc
  vqLastAvail := 0
  vqDesc := 0x1000
  vqAvail := ⟨1, fun _ => 0⟩
  vqUsed := ⟨0, fun _ => ⟨0, 0⟩⟩

def sectorChain (sector : BitVec 64) : Virtio.Getchain :=
  Virtio.vqGetchain (sectorRead sector).toGuestMem VirtioBlock.vtblkArgs oneChain

theorem sectorChain_out (sector : BitVec 64) :
    (sectorChain sector).out = ⟨[⟨some 0x5000, 16⟩, ⟨some 0x6000, 512⟩, ⟨some 0x7000, 1⟩], [1, 3, 2]⟩ ∧
      (sectorChain sector).ret = .ok 3 := by
  have hsame : sectorChain sector = sectorChain 0 := rfl
  rw [hsame]
  exact ⟨by decide +kernel, rfl⟩

theorem sectorChain_parse (sector : BitVec 64) : VirtioBlock.parse (sectorRead sector) (sectorChain sector) =
    .ok ⟨⟨[512], sector * 512⟩, 0x7000, VirtioBlock.vbhOpRead⟩ := by
  obtain ⟨hout, hret⟩ := sectorChain_out sector
  unfold VirtioBlock.parse
  rw [hout, hret]
  dsimp only [List.getLast?, List.getLast, List.dropLast, sectorRead]
  rw [if_neg (by decide), if_neg (by decide), if_neg (by decide), if_neg (by decide), if_neg (by decide)]
  exact if_neg (by decide)

/-- The last sector of a disk of 1 MiB is inside, and the next one is not. -/
theorem disk_accesses_inside_iff_last : Served 0x100000 (2047 * 512) 512 ∧ ¬ Served 0x100000 (2048 * 512) 512 := by
  obtain ⟨hvirtio, -, -⟩ := @disk_accesses_inside_iff 0x100000 (by decide)
  have hiff : ∀ sector : BitVec 64, Served 0x100000 (sector * 512) 512 ↔ sector.toNat * 512 % 2 ^ 64 + 512 ≤ 0x100000 := by
    intro sector
    have hheader : ChainHeader (sectorRead sector) (sectorChain sector) sector [⟨some 0x6000, 512⟩, ⟨some 0x7000, 1⟩] :=
      ⟨_, _, congrArg Virtio.ChainOut.iov (sectorChain_out sector).1, rfl, rfl⟩
    exact hvirtio _ _ sector _ _ (sectorChain_parse sector) hheader (.inl rfl)
  exact ⟨(hiff 2047).mpr (by decide), fun hserved => absurd ((hiff 2048).mp hserved) (by decide)⟩

/-- Sector `2 ^ 54` begins at the `off_t` below all others. -/
theorem offset_below_zero : ¬ ∀ (size : Nat) (m : VirtioBlock.Memory) (vq : Virtio.VqueueInfo) (p : VirtioBlock.Parsed),
    VirtioBlock.parse m (Virtio.vqGetchain m.toGuestMem VirtioBlock.vtblkArgs vq) = .ok p →
    VirtioBlock.opOf p.type = some .read →
      Served size p.req.brOffset (reqBytes p.req) ∧
        ∀ f, (blockifProc false f p.req.brOffset (.read (reqBytes p.req))).isSome := by
  intro hall
  obtain ⟨-, hproc⟩ := hall 0x100000 _ oneChain _ (sectorChain_parse (2 ^ 54)) rfl
  have hnone : BlockIf.preadv ⟨[], 0⟩ 512 ((2 ^ 54 : BitVec 64) * 512) = none := preadv_below_zero (by decide)
  have hsome : (blockifProc false ⟨[], 0⟩ ((2 ^ 54 : BitVec 64) * 512) (.read 512)).isSome := hproc ⟨[], 0⟩
  rw [blockifProc, hnone] at hsome
  cases hsome

end Xhyve.Emul.DiskBounds
