import Xhyve.Emul.Ahci

/-!
# The AHCI controller: commands

The handlers of the commands a port finds in its command list. The command table is read where the code reads
it, so that what a handler has written to the guest's memory is seen by what it reads later.
-/

namespace Xhyve.Emul.Ahci

open Xhyve.Lib

/-! ## Constants -/

def ataNop : UInt8 := 0x00
def ataDataSetManagement : UInt8 := 0x06
def ataRead : UInt8 := 0x20
def ataRead48 : UInt8 := 0x24
def ataReadDma48 : UInt8 := 0x25
def ataReadMul48 : UInt8 := 0x29
def ataReadLogExt : UInt8 := 0x2f
def ataWrite : UInt8 := 0x30
def ataWrite48 : UInt8 := 0x34
def ataWriteDma48 : UInt8 := 0x35
def ataWriteMul48 : UInt8 := 0x39
def ataReadLogDmaExt : UInt8 := 0x47
def ataPacketCmd : UInt8 := 0xa0
def ataAtapiIdentify : UInt8 := 0xa1
def ataReadMul : UInt8 := 0xc4
def ataWriteMul : UInt8 := 0xc5
def ataSetMulti : UInt8 := 0xc6
def ataReadDma : UInt8 := 0xc8
def ataWriteDma : UInt8 := 0xca
def ataStandbyImmediate : UInt8 := 0xe0
def ataIdleImmediate : UInt8 := 0xe1
def ataStandbyCmd : UInt8 := 0xe2
def ataIdleCmd : UInt8 := 0xe3
def ataSleep : UInt8 := 0xe6
def ataFlushcache : UInt8 := 0xe7
def ataFlushcache48 : UInt8 := 0xea
def ataAtaIdentify : UInt8 := 0xec
def ataSetfeatures : UInt8 := 0xef

def ataSfEnabWcache : UInt8 := 0x02
def ataSfSetxfer : UInt8 := 0x03
def ataSfEnabSataSf : UInt8 := 0x10
def ataSfDisRcache : UInt8 := 0x55
def ataSfDisWcache : UInt8 := 0x82
def ataSfEnabRcache : UInt8 := 0xaa
def ataSataSfAn : UInt8 := 0x05

def ataPio : UInt8 := 0x00
def ataPio0 : UInt8 := 0x08
def ataWdma0 : UInt8 := 0x20
def ataUdma0 : UInt8 := 0x40

def ataSfpdmaDsm : UInt8 := 0x00
def ataDsmTrim : UInt8 := 0x01

def ataSenseIllegalRequest : UInt8 := 0x05

def testUnitReady : UInt8 := 0x00
def requestSense : UInt8 := 0x03
def inquiry : UInt8 := 0x12
def startStopUnit : UInt8 := 0x1B
def preventAllow : UInt8 := 0x1E
def readCapacity : UInt8 := 0x25
def read10 : UInt8 := 0x28
def readToc : UInt8 := 0x43
def getEventStatusNotification : UInt8 := 0x4A
def modeSense10 : UInt8 := 0x5A
def reportLuns : UInt8 := 0xA0
def read12 : UInt8 := 0xA8

def modepageRwErrorRecovery : UInt8 := 0x01
def modepageCdCapabilities : UInt8 := 0x2A

def blockifIovMax : Nat := 33

/-! ## The command header and the PRDT -/

/-- The header of a slot in the command list. -/
def cmdHdr (p : PortNo) (slot : Slot) : AhciM Nat := do
  let pr ← getPort p
  match pr.cmdLst with
  | some a => pure (a + slot.val * ahciClSize)
  | none => throw .null

def hdrPrdtl (m : Mem) (hdr : Nat) : Nat := Mem.load 2 m (hdr + 2)
def hdrCtba (m : Mem) (hdr : Nat) : Nat := Mem.load 8 m (hdr + 8)

def setPrdbc (hdr v : Nat) : AhciM Unit := modifyMem fun m => Mem.store 4 m (hdr + 4) v

/-- `struct ahci_prdt_entry`: the address, and the length with `DBCMASK`. -/
def prdtDba (m : Mem) (prdt : Nat) : Nat := Mem.load 8 m prdt
def prdtSize (m : Mem) (prdt : Nat) : Nat := Mem.load 4 m (prdt + 12) % 0x400000 + 1

/-- The vectors from the PRDT between `skip` and the end, as long as there is something left and room for
them; with the entries of the PRDT that were not looked at. -/
def buildIov (h : Host) (m : Mem) : Nat → Nat → Nat → Nat → List (Option Nat × Nat) →
    Nat × List (Option Nat × Nat)
  | 0, _, _, _, iov => (0, iov)
  | n + 1, prdt, skip, left, iov =>
    if iov.length < blockifIovMax ∧ 0 < left then
      let dbcsz := prdtSize m prdt
      if dbcsz ≤ skip then buildIov h m n (prdt + 16) (skip - dbcsz) left iov
      else
        let size := min (dbcsz - skip) left
        let base := h.paddrGuest2host ((prdtDba m prdt + skip) % 2 ^ 64) size
        buildIov h m n (prdt + 16) 0 (left - size) (iov ++ [(base, size)])
    else (n + 1, iov)

/-- The vectors, last first, without the last `extra` bytes. -/
def dropExtra : List (Option Nat × Nat) → Nat → List (Option Nat × Nat)
  | [], _ => []
  | (base, len) :: iov, extra =>
    if extra = 0 then (base, len) :: iov
    else if extra < len then (base, len - extra) :: iov
    else dropExtra iov (extra - len)

def iovBytes (iov : List (Option Nat × Nat)) : Nat := (iov.map Prod.snd).sum

def ahciBuildIov (h : Host) (p : PortNo) (aior : Ioreq) (prdt prdtl : Nat) : AhciM Ioreq := do
  let m ← getMem
  let (rest, iov) := buildIov h m prdtl prdt aior.done.toNat (aior.len - aior.done).toInt.toNat []
  let todo := iovBytes iov
  if iov.length = blockifIovMax then
    withBctx p
    let extra := todo % h.sectsz
    if todo - extra = 0 then throw .noData
    else
      let done := aior.done + BitVec.ofNat 32 (todo - extra)
      pure { aior with
        brIov := (dropExtra iov.reverse extra).reverse
        brResid := todo - extra
        done := done
        more := done < aior.len ∧ 0 < rest }
  else
    let done := aior.done + BitVec.ofNat 32 todo
    pure { aior with brIov := iov, brResid := todo, done := done, more := done < aior.len ∧ 0 < rest }

/-- From the PRDT to a buffer, up to `size` bytes. -/
def readPrdtLoop (h : Host) (hdr : Nat) : Nat → Nat → Nat → (Nat → UInt8) → Nat → AhciM (Nat → UInt8)
  | 0, _, _, buf, _ => pure buf
  | fuel + 1, i, prdt, buf, left => do
    let m ← getMem
    if i < hdrPrdtl m hdr ∧ 0 < left then
      let dbcsz := prdtSize m prdt
      match h.paddrGuest2host (prdtDba m prdt) dbcsz with
      | none => throw .null
      | some ptr =>
        let sublen := min left dbcsz
        let filled := 512 - left
        readPrdtLoop h hdr fuel (i + 1) (prdt + 16)
          (fun j => if filled ≤ j ∧ j < filled + sublen then m (ptr + (j - filled)) else buf j)
          (left - sublen)
    else pure buf

/-- `read_prdt` of a buffer of 512 bytes; every turn of the loop reads at least one of them. -/
def readPrdt (h : Host) (p : PortNo) (slot : Slot) (cfis : Nat) (buf : Nat → UInt8) :
    AhciM (Nat → UInt8) := do
  let hdr ← cmdHdr p slot
  readPrdtLoop h hdr 512 0 (cfis + 0x80) buf 512

/-- From a buffer to the PRDT; what could not be written. -/
def writePrdtLoop (h : Host) (hdr : Nat) (buf : Nat → UInt8) : Nat → Nat → Nat → Nat → Nat → AhciM Nat
  | 0, _, _, _, left => pure left
  | fuel + 1, i, prdt, start, left => do
    let m ← getMem
    if i < hdrPrdtl m hdr ∧ 0 < left then
      let dbcsz := prdtSize m prdt
      match h.paddrGuest2host (prdtDba m prdt) dbcsz with
      | none => throw .null
      | some ptr =>
        let sublen := min left dbcsz
        modifyMem fun m => Mem.copy m ptr buf start sublen
        writePrdtLoop h hdr buf fuel (i + 1) (prdt + 16) (start + sublen) (left - sublen)
    else pure left

/-- `write_prdt`; every turn of the loop writes at least one byte. -/
def writePrdt (h : Host) (p : PortNo) (slot : Slot) (cfis : Nat) (buf : Nat → UInt8) (size : Nat) :
    AhciM Unit := do
  let hdr ← cmdHdr p slot
  let left ← writePrdtLoop h hdr buf size 0 (cfis + 0x80) 0 size
  setPrdbc hdr (size - left)

/-! ## Buffers -/

/-- A buffer with a little-endian word stored at an index. -/
def put16 (i : Nat) (v : Nat) (buf : Nat → UInt8) : Nat → UInt8 := fun j =>
  if j = 2 * i then UInt8.ofNat v else if j = 2 * i + 1 then UInt8.ofNat (v / 256) else buf j

/-- Bytes stored one after the other. -/
def putBytes (i : Nat) (bytes : List UInt8) (buf : Nat → UInt8) : Nat → UInt8 := fun j =>
  if i ≤ j ∧ j < i + bytes.length then bytes.getD (j - i) 0 else buf j

/-- A character of a string that is filled up with blanks. -/
def charOf (src : List UInt8) (i : Nat) : UInt8 := src.getD i 0x20

/-- Characters swapped in pairs, as ATA has them. -/
def ataString (i : Nat) (src : List UInt8) (len : Nat) (buf : Nat → UInt8) : Nat → UInt8 :=
  putBytes i ((List.range len).map fun j => charOf src (j ^^^ 1)) buf

def atapiString (i : Nat) (src : List UInt8) (len : Nat) (buf : Nat → UInt8) : Nat → UInt8 :=
  putBytes i ((List.range len).map (charOf src)) buf

def text (s : String) : List UInt8 := s.toList.map fun c => UInt8.ofNat c.toNat

def be16enc (u : Nat) : List UInt8 := [UInt8.ofNat (u / 256), UInt8.ofNat u]
def be32enc (u : Nat) : List UInt8 :=
  [UInt8.ofNat (u / 0x1000000), UInt8.ofNat (u / 0x10000), UInt8.ofNat (u / 256), UInt8.ofNat u]

def be16dec (c : Nat → UInt8) (i : Nat) : Nat := (c i).toNat * 256 + (c (i + 1)).toNat
def be32dec (c : Nat → UInt8) (i : Nat) : Nat := be16dec c i * 0x10000 + be16dec c (i + 2)

def lbaToMsf (lba : Int) : List UInt8 :=
  let lba := lba + 150
  [(lba.tdiv 75).tdiv 60, (lba.tdiv 75).tmod 60, lba.tmod 75].map fun x => UInt8.ofNat (x % 256).toNat

def ahciChecksum (size : Nat) (buf : Nat → UInt8) : Nat → UInt8 := fun j =>
  if j = size - 1 then 0 - ((List.range (size - 1)).map buf).sum else buf j

/-! ## Commands that go to the block interface -/

/-- `ahci_handle_port`, up to its loop. Whoever calls it does nothing after it, so that the turns of the loop
are steps of their own. -/
def ahciHandlePort (p : PortNo) : AhciM Unit := do
  let pr ← getPort p
  if pr.cmd &&& ahciPCmdSt = 0 then pure () else modify fun s => { s with handling := some p }

/-- The head of the free list. -/
def takeRequest (p : PortNo) : AhciM Nat := do
  let pr ← getPort p
  match pr.iofhd with
  | [] => throw .noRequest
  | r :: iofhd => do
    modifyPort p fun pr => { pr with iofhd := iofhd }
    pure r

/-- The command is marked in flight and its request put on the busy list. -/
def startRequest (p : PortNo) (r : Nat) (aior : Ioreq) : AhciM Unit :=
  modifyPort p fun pr => { pr with
    ioreq := Function.update pr.ioreq r aior
    pending := WordSet.set aior.slot.val pr.pending
    iobhd := r :: pr.iobhd }

/-- `blockif_read`, `blockif_write`, `blockif_flush` or `blockif_delete`, with the assertion on what it
returns: there has to be a free element. -/
def blockifRequest (p : PortNo) : AhciM Unit := do
  withBctx p
  let s ← get
  if s.used < blockifMaxreq then modify fun s => { s with used := s.used + 1 } else throw .blockErr

def lba48 (c : Nat → UInt8) : Nat :=
  (c 10).toNat <<< 40 ||| (c 9).toNat <<< 32 ||| (c 8).toNat <<< 24 ||| (c 6).toNat <<< 16 |||
    (c 5).toNat <<< 8 ||| (c 4).toNat

def isLba48 (cmd : UInt8) : Bool :=
  cmd = ataRead48 ∨ cmd = ataWrite48 ∨ cmd = ataReadMul48 ∨ cmd = ataWriteMul48 ∨ cmd = ataReadDma48 ∨
    cmd = ataWriteDma48

/-- The sector and the number of sectors of a read or write. -/
def rwRange (c : Nat → UInt8) : Nat × Nat :=
  if c 2 = ataWriteFpdmaQueued ∨ c 2 = ataReadFpdmaQueued then
    let len := (c 11).toNat <<< 8 ||| (c 3).toNat
    (lba48 c, if len = 0 then 65536 else len)
  else if isLba48 (c 2) then
    let len := (c 13).toNat <<< 8 ||| (c 12).toNat
    (lba48 c, if len = 0 then 65536 else len)
  else
    (((c 7).toNat &&& 0xf) <<< 24 ||| (c 6).toNat <<< 16 ||| (c 5).toNat <<< 8 ||| (c 4).toNat,
      if (c 12).toNat = 0 then 256 else (c 12).toNat)

/-- A request from `ahci_handle_rw` or `atapi_read` whose vectors are still to be built. -/
def Ioreq.transfer (aior : Ioreq) (cfis : Nat) (slot : Slot) (lba : BitVec 64) (len done : BitVec 32) : Ioreq :=
  { aior with cfis := cfis, slot := slot, len := len, done := done, brOffset := lba + done.setWidth 64 }

def ahciHandleRw (h : Host) (p : PortNo) (slot : Slot) (cfis : Nat) (done : BitVec 32) : AhciM Unit := do
  let m ← getMem
  let c := bytesAt m cfis
  let (lba, len) := rwRange c
  let ncq := c 2 = ataWriteFpdmaQueued ∨ c 2 = ataReadFpdmaQueued
  withBctx p
  let r ← takeRequest p
  let pr ← getPort p
  let hdr ← cmdHdr p slot
  let aior ← ahciBuildIov h p
    ((pr.ioreq r).transfer cfis slot (BitVec.ofNat 64 (lba * h.sectsz)) (BitVec.ofNat 32 (len * h.sectsz)) done)
    (cfis + 0x80) (hdrPrdtl m hdr)
  startRequest p r aior
  if ncq ∧ done = 0 then ahciWriteFisD2hNcq h p slot else pure ()
  blockifRequest p

def ahciHandleFlush (p : PortNo) (slot : Slot) (cfis : Nat) : AhciM Unit := do
  let r ← takeRequest p
  let pr ← getPort p
  startRequest p r { pr.ioreq r with cfis := cfis, slot := slot, len := 0, done := 0, more := false }
  blockifRequest p

/-- An entry of the list of ranges to be trimmed: its first sector and its length. -/
def trimEntry (buf : Nat → UInt8) (i : Nat) : Nat × Nat :=
  ((buf (i + 5)).toNat <<< 40 ||| (buf (i + 4)).toNat <<< 32 ||| (buf (i + 3)).toNat <<< 24 |||
      (buf (i + 2)).toNat <<< 16 ||| (buf (i + 1)).toNat <<< 8 ||| (buf i).toNat,
    (buf (i + 7)).toNat <<< 8 ||| (buf (i + 6)).toNat)

/-- The jumps to `next`: entries of length 0 are passed over, up to the end of the list. The result is where
the next entry begins, with the entry found if there is one; `none` is a read beyond the buffer. -/
def trimNext (buf : Nat → UInt8) (len : BitVec 32) : Nat → BitVec 32 → Option (BitVec 32 × Option (Nat × Nat))
  | 0, _ => none
  | fuel + 1, done =>
    if 512 < done.toNat + 8 then none
    else
      let entry := trimEntry buf done.toNat
      if entry.2 = 0 then
        if len ≤ done + 8 then some (done + 8, none) else trimNext buf len fuel (done + 8)
      else some (done + 8, some entry)

/-- The length of the list of ranges. -/
def trimLen (c : Nat → UInt8) : BitVec 32 :=
  BitVec.ofNat 32 (512 *
    if c 2 = ataDataSetManagement then (c 13).toNat <<< 8 ||| (c 12).toNat
    else (c 11).toNat <<< 8 ||| (c 3).toNat)

def ahciHandleDsmTrim (h : Host) (p : PortNo) (slot : Slot) (cfis : Nat) (done : BitVec 32) : AhciM Unit := do
  let s ← get
  let c := bytesAt s.mem cfis
  let len := trimLen c
  let ncq := c 2 ≠ ataDataSetManagement
  let buf ← readPrdt h p slot cfis s.stack
  match trimNext buf len 65 done with
  | none => throw .overread
  | some (_, none) =>
    ahciWriteFisD2h h p slot cfis (ataSReady ||| ataSDsc)
    modifyPort p fun pr => { pr with pending := WordSet.clr slot.val pr.pending }
    ahciCheckStopped p
    if done = 0 then pure () else ahciHandlePort p
  | some (next, some (elba, elen)) =>
    let r ← takeRequest p
    let pr ← getPort p
    startRequest p r { pr.ioreq r with
      cfis := cfis, slot := slot, len := len, done := next, more := len ≠ next,
      brOffset := BitVec.ofNat 64 (elba * h.sectsz), brResid := elen * h.sectsz % 2 ^ 32 }
    if ncq ∧ done = 0 then ahciWriteFisD2hNcq h p slot else pure ()
    blockifRequest p

/-- The length in blocks of an ATAPI read. -/
def atapiReadLen (c : Nat → UInt8) : Nat := if c 0x40 = read10 then be16dec c 0x47 else be32dec c 0x46

/-- The bits of the interrupt reason in the count register. -/
def setIreason (cfis : Nat) : AhciM Unit :=
  modifyMem fun m => Function.update m (cfis + 4) ((m (cfis + 4) &&& ~~~7) ||| 3)

def atapiRead (h : Host) (p : PortNo) (slot : Slot) (cfis : Nat) (done : BitVec 32) : AhciM Unit := do
  let m ← getMem
  let c := bytesAt m cfis
  let lba := be32dec c 0x42
  let len := atapiReadLen c
  if len = 0 then
    -- the command is completed here, and gone on with all the same
    setIreason cfis
    ahciWriteFisD2h h p slot cfis (ataSReady ||| ataSDsc)
  else pure ()
  let r ← takeRequest p
  let m ← getMem
  let pr ← getPort p
  let hdr ← cmdHdr p slot
  let aior ← ahciBuildIov h p
    ((pr.ioreq r).transfer cfis slot (BitVec.ofNat 64 (lba * 2048)) (BitVec.ofNat 32 (len * 2048)) done)
    (cfis + 0x80) (hdrPrdtl m hdr)
  startRequest p r aior
  blockifRequest p

/-! ## Commands answered at once -/

def okTfd : BitVec 32 := ataSReady ||| ataSDsc
def abortTfd : BitVec 32 := ataEAbort <<< 8 ||| ataSReady ||| ataSError
def senseTfd (key : UInt8) : BitVec 32 := BitVec.ofNat 32 key.toNat <<< 12 ||| ataSReady ||| ataSError

def zeros : Nat → UInt8 := fun _ => 0

def putWords (words : List (Nat × Nat)) (buf : Nat → UInt8) : Nat → UInt8 :=
  words.foldl (fun buf w => put16 w.1 w.2 buf) buf

def ahciHandleReadLog (h : Host) (p : PortNo) (slot : Slot) (cfis : Nat) : AhciM Unit := do
  let pr ← getPort p
  let hdr ← cmdHdr p slot
  let m ← getMem
  let c := bytesAt m cfis
  if pr.atapi ∨ hdrPrdtl m hdr = 0 ∨ c 4 ≠ 0x10 ∨ c 5 ≠ 0 ∨ c 9 ≠ 0 ∨ c 12 ≠ 1 ∨ c 13 ≠ 0 then
    ahciWriteFisD2h h p slot cfis abortTfd
  else
    let buf := ahciChecksum 512 (putBytes 0 ((List.range 20).map pr.errCfis) zeros)
    if c 2 = ataReadLogExt then ahciWriteFisPiosetup h p else pure ()
    writePrdt h p slot cfis buf 512
    ahciWriteFisD2h h p slot cfis okTfd

/-- The transfer mode of a port, as a bit of the words that list them. -/
def xfermodeBit (xfermode base : UInt8) : Nat :=
  if xfermode &&& base ≠ 0 then 1 <<< ((xfermode &&& 7).toNat + 8) else 0

/-- The words of the identify data that are the same for every disk. -/
def identifyWords : List (Nat × Nat) :=
  [(0, 0x0040), (47, 0x8000 ||| 128), (48, 0x1), (49, 1 <<< 8 ||| 1 <<< 9 ||| 1 <<< 11), (50, 1 <<< 14),
    (53, 1 <<< 1 ||| 1 <<< 2), (64, 0x3), (65, 120), (66, 120), (67, 120), (68, 120), (75, 31),
    (76, 0x0002 ||| 0x0004 ||| 0x0008 ||| 0x0100), (80, 0x3f0), (81, 0x28),
    (82, 0x0008 ||| 0x0020 ||| 0x0040 ||| 0x4000), (83, 0x0400 ||| 0x1000 ||| 0x2000 ||| 1 <<< 14),
    (84, 1 <<< 14), (85, 0x0008 ||| 0x0020 ||| 0x0040 ||| 0x4000),
    (86, 0x0400 ||| 0x1000 ||| 0x2000 ||| 1 <<< 15), (87, 1 <<< 14), (119, 0x0008 ||| 1 <<< 14),
    (120, 0x0008 ||| 1 <<< 14), (222, 0x1020), (255, 0x00a5)]

def identifyBuf (h : Host) (pr : Port) : Nat → UInt8 :=
  let sectors := h.size / h.sectsz
  let trims := h.candelete ∧ ¬ h.ro
  let words := identifyWords ++
    [(1, h.chs.1.toNat), (3, h.chs.2.1.toNat), (6, h.chs.2.2.toNat),
      (59, if pr.multSectors ≠ 0 then 0x100 ||| pr.multSectors.toNat else 0),
      (60, if sectors ≤ 0x0fffffff then sectors else 0xffff),
      (61, if sectors ≤ 0x0fffffff then sectors >>> 16 else 0x0fff),
      (63, 0x7 ||| xfermodeBit pr.xfermode ataWdma0), (69, if trims then 0x0020 ||| 0x4000 else 0),
      (77, 0x0040 ||| (pr.ssts &&& ataSsSpdMask).toNat >>> 3), (88, 0x7f ||| xfermodeBit pr.xfermode ataUdma0),
      (100, sectors), (101, sectors >>> 16), (102, sectors >>> 32), (103, sectors >>> 48),
      (105, if trims then 1 else 0), (169, if trims then 0x0001 else 0),
      (106, 0x4000 ||| (if h.psectsz > h.sectsz then
          0x2000 ||| (WordSet.ffs (BitVec.ofNat 64 (h.psectsz / h.sectsz)) - 1) else 0) |||
        (if h.sectsz > 512 then 0x1000 else 0)),
      (209, 0x4000 ||| if h.psectsz > h.sectsz then h.psectoff / h.sectsz else 0),
      (117, if h.sectsz > 512 then h.sectsz / 2 else 0),
      (118, if h.sectsz > 512 then (h.sectsz / 2) >>> 16 else 0)]
  ahciChecksum 512 (ataString 54 (text "BHYVE SATA DISK") 40 (ataString 46 (text "001") 8
    (ataString 20 h.ident 20 (putWords words zeros))))

def handleIdentify (h : Host) (p : PortNo) (slot : Slot) (cfis : Nat) : AhciM Unit := do
  let pr ← getPort p
  let hdr ← cmdHdr p slot
  let m ← getMem
  if pr.atapi ∨ hdrPrdtl m hdr = 0 then ahciWriteFisD2h h p slot cfis abortTfd
  else
    withBctx p
    ahciWriteFisPiosetup h p
    writePrdt h p slot cfis (identifyBuf h pr) 512
    ahciWriteFisD2h h p slot cfis okTfd

def atapiIdentifyWords : List (Nat × Nat) :=
  [(0, 2 <<< 14 ||| 5 <<< 8 ||| 1 <<< 7 ||| 2 <<< 5), (49, 1 <<< 9 ||| 1 <<< 8), (50, 1 <<< 14 ||| 1),
    (53, 1 <<< 2 ||| 1 <<< 1), (62, 0x3f), (64, 3), (65, 120), (66, 120), (67, 120), (68, 120),
    (76, 0x0002 ||| 0x0004 ||| 0x0008), (78, 1 <<< 5), (80, 0x3f0),
    (82, 0x0008 ||| 0x0010 ||| 0x0200 ||| 0x4000), (83, 1 <<< 14), (84, 1 <<< 14),
    (85, 0x0008 ||| 0x0010 ||| 0x0200 ||| 0x4000), (87, 1 <<< 14), (222, 0x1020), (255, 0x00a5)]

def atapiIdentifyBuf (h : Host) (pr : Port) : Nat → UInt8 :=
  let words := atapiIdentifyWords ++
    [(63, 7 ||| xfermodeBit pr.xfermode ataWdma0), (77, (pr.ssts &&& ataSsSpdMask).toNat >>> 3),
      (88, 0x7f ||| xfermodeBit pr.xfermode ataUdma0)]
  ahciChecksum 512 (ataString 54 (text "BHYVE SATA DVD ROM") 40 (ataString 46 (text "001") 8
    (ataString 20 h.ident 20 (putWords words zeros))))

def handleAtapiIdentify (h : Host) (p : PortNo) (slot : Slot) (cfis : Nat) : AhciM Unit := do
  let pr ← getPort p
  if pr.atapi then
    ahciWriteFisPiosetup h p
    writePrdt h p slot cfis (atapiIdentifyBuf h pr) 512
    ahciWriteFisD2h h p slot cfis okTfd
  else ahciWriteFisD2h h p slot cfis abortTfd

/-- A packet command refused: the sense data, the interrupt reason and the FIS. -/
def atapiRefuse (h : Host) (p : PortNo) (slot : Slot) (cfis : Nat) (asc : UInt8) : AhciM Unit := do
  modifyPort p fun pr => { pr with senseKey := ataSenseIllegalRequest, asc := asc }
  setIreason cfis
  ahciWriteFisD2h h p slot cfis (senseTfd ataSenseIllegalRequest)

/-- A packet command that is done. -/
def atapiDone (h : Host) (p : PortNo) (slot : Slot) (cfis : Nat) : AhciM Unit := do
  setIreason cfis
  ahciWriteFisD2h h p slot cfis okTfd

/-- A packet command that gives out data. -/
def atapiReply (h : Host) (p : PortNo) (slot : Slot) (cfis : Nat) (buf : Nat → UInt8) (len : Nat) :
    AhciM Unit := do
  writePrdt h p slot cfis buf len
  atapiDone h p slot cfis

def atapiInquiry (h : Host) (p : PortNo) (slot : Slot) (cfis : Nat) : AhciM Unit := do
  let m ← getMem
  let acmd := bytesAt m (cfis + 0x40)
  if acmd 1 &&& 1 ≠ 0 ∧ acmd 2 ≠ 0 then atapiRefuse h p slot cfis 0x24
  else
    let (buf, len) :=
      if acmd 1 &&& 1 ≠ 0 then (putBytes 0 [0x05, 0, 0, 1, 0] zeros, 5)
      else (atapiString 32 (text "001") 4 (atapiString 16 (text "BHYVE DVD-ROM") 16
        (atapiString 8 (text "BHYVE") 8 (putBytes 0 [0x05, 0x80, 0x00, 0x21, 31, 0, 0, 0] zeros))), 36)
    setIreason cfis
    writePrdt h p slot cfis buf (min len (acmd 4).toNat)
    ahciWriteFisD2h h p slot cfis okTfd

def atapiReadCapacity (h : Host) (p : PortNo) (slot : Slot) (cfis : Nat) : AhciM Unit := do
  withBctx p
  let last := (BitVec.ofNat 32 (h.size / 2048) - 1).toNat
  setIreason cfis
  writePrdt h p slot cfis (putBytes 0 (be32enc last ++ be32enc 2048) zeros) 8
  ahciWriteFisD2h h p slot cfis okTfd

/-- The first four bytes of an address in the table of contents. -/
def tocAddress (msf : Bool) (sectors : Nat) : List UInt8 :=
  if msf then 0 :: lbaToMsf (BitVec.ofNat 32 sectors).toInt else be32enc sectors

/-- The tables of contents in the formats 0 and 2, with their length in front. -/
def tocBuf (entries : List UInt8) : List UInt8 := be16enc entries.length ++ entries

def toc0 (msf : Bool) (startTrack : UInt8) (sectors : Nat) : List UInt8 :=
  tocBuf ([1, 1] ++ (if startTrack ≤ 1 then [0, 0x14, 1, 0] ++ tocAddress msf 0 else []) ++
    [0, 0x14, 0xaa, 0] ++ tocAddress msf sectors)

def toc2 (msf : Bool) (sectors : Nat) : List UInt8 :=
  tocBuf ([1, 1] ++ [1, 0x14, 0, 0xa0, 0, 0, 0, 0, 1, 0, 0] ++ [1, 0x14, 0, 0xa1, 0, 0, 0, 0, 1, 0, 0] ++
    [1, 0x14, 0, 0xa2, 0, 0, 0] ++ tocAddress msf sectors ++ [1, 0x14, 0, 1, 0, 0, 0] ++ tocAddress msf 0)

def atapiReadToc (h : Host) (p : PortNo) (slot : Slot) (cfis : Nat) : AhciM Unit := do
  let m ← getMem
  let acmd := bytesAt m (cfis + 0x40)
  let len := be16dec acmd 7
  let msf := acmd 1 >>> 1 &&& 1 ≠ 0
  let sectors := (h.size / h.sectsz) >>> 2
  let format := acmd 9 >>> 6
  if format = 0 then
    if acmd 6 > 1 ∧ acmd 6 ≠ 0xaa then atapiRefuse h p slot cfis 0x24
    else
      withBctx p
      let buf := toc0 msf (acmd 6) sectors
      atapiReply h p slot cfis (putBytes 0 buf zeros) (min len buf.length)
  else if format = 1 then
    atapiReply h p slot cfis (putBytes 0 [0, 0xa, 0x1, 0x1] zeros) (min len 12)
  else if format = 2 then
    withBctx p
    let buf := toc2 msf sectors
    atapiReply h p slot cfis (putBytes 0 buf zeros) (min len buf.length)
  else atapiRefuse h p slot cfis 0x24

def atapiReportLuns (h : Host) (p : PortNo) (slot : Slot) (cfis : Nat) : AhciM Unit := do
  setIreason cfis
  writePrdt h p slot cfis (putBytes 3 [8] zeros) 16
  ahciWriteFisD2h h p slot cfis okTfd

def atapiRequestSense (h : Host) (p : PortNo) (slot : Slot) (cfis : Nat) : AhciM Unit := do
  let m ← getMem
  let pr ← getPort p
  let len := min (m (cfis + 0x44)).toNat 64
  atapiReply h p slot cfis
    (putBytes 0 [0x70 ||| 0x80, 0, pr.senseKey, 0, 0, 0, 0, 10, 0, 0, 0, 0, pr.asc] zeros) len

def atapiStartStopUnit (h : Host) (p : PortNo) (slot : Slot) (cfis : Nat) : AhciM Unit := do
  let m ← getMem
  if m (cfis + 0x44) &&& 3 = 2 then atapiRefuse h p slot cfis 0x53
  else atapiDone h p slot cfis

def atapiModeSense (h : Host) (p : PortNo) (slot : Slot) (cfis : Nat) : AhciM Unit := do
  let m ← getMem
  let acmd := bytesAt m (cfis + 0x40)
  let len := be16dec acmd 7
  let pc := acmd 2 >>> 6
  let code := acmd 2 &&& 0x3f
  if pc = 0 ∧ code = modepageRwErrorRecovery then
    atapiReply h p slot cfis
      (putBytes 0 (be16enc (16 - 2) ++ [0x70, 0, 0, 0, 0, 0, 0x01, 16 - 10, 0, 0x05]) zeros) (min len 16)
  else if pc = 0 ∧ code = modepageCdCapabilities then
    atapiReply h p slot cfis
      (putBytes 18 (be16enc 2 ++ be16enc 512)
        (putBytes 0 (be16enc (30 - 2) ++ [0x70, 0, 0, 0, 0, 0, 0x2A, 30 - 10, 0x08, 0, 0x71]) zeros)) (min len 30)
  else if pc = 3 then atapiRefuse h p slot cfis 0x39
  else atapiRefuse h p slot cfis 0x24

def atapiGetEventStatusNotification (h : Host) (p : PortNo) (slot : Slot) (cfis : Nat) : AhciM Unit := do
  let m ← getMem
  let acmd := bytesAt m (cfis + 0x40)
  if acmd 1 &&& 1 = 0 then atapiRefuse h p slot cfis 0x24
  else
    atapiReply h p slot cfis (putBytes 0 (be16enc (8 - 2) ++ [0x04, 0x10, 0, 0x02]) zeros)
      (min (be16dec acmd 7) 8)

def handlePacketCmd (h : Host) (p : PortNo) (slot : Slot) (cfis : Nat) : AhciM Unit := do
  let m ← getMem
  let op := m (cfis + 0x40)
  if op = testUnitReady then atapiDone h p slot cfis
  else if op = inquiry then atapiInquiry h p slot cfis
  else if op = readCapacity then atapiReadCapacity h p slot cfis
  else if op = preventAllow then atapiDone h p slot cfis
  else if op = readToc then atapiReadToc h p slot cfis
  else if op = reportLuns then atapiReportLuns h p slot cfis
  else if op = read10 ∨ op = read12 then atapiRead h p slot cfis 0
  else if op = requestSense then atapiRequestSense h p slot cfis
  else if op = startStopUnit then atapiStartStopUnit h p slot cfis
  else if op = modeSense10 then atapiModeSense h p slot cfis
  else if op = getEventStatusNotification then atapiGetEventStatusNotification h p slot cfis
  else atapiRefuse h p slot cfis 0x20

/-! ## One command -/

/-- The task file of a command that is answered from it. -/
def answerTfd (h : Host) (p : PortNo) (slot : Slot) (cfis : Nat) (ok : Bool) : AhciM Unit := do
  modifyPort p fun pr => { pr with
    tfd := if ok then ataSDsc ||| ataSReady else ataSError ||| ataSReady ||| ataEAbort <<< 8 }
  let pr ← getPort p
  ahciWriteFisD2h h p slot cfis pr.tfd

/-- Whether `SET FEATURES` knows the feature. -/
def featureKnown (c : Nat → UInt8) : Bool :=
  if c 3 = ataSfEnabSataSf then c 12 = ataSataSfAn
  else c 3 = ataSfEnabWcache ∨ c 3 = ataSfDisWcache ∨ c 3 = ataSfEnabRcache ∨ c 3 = ataSfDisRcache ∨
    c 3 = ataSfSetxfer

def handleSetfeatures (h : Host) (p : PortNo) (slot : Slot) (cfis : Nat) : AhciM Unit := do
  let m ← getMem
  let c := bytesAt m cfis
  let mode := c 12 &&& 0xf8
  if c 3 = ataSfSetxfer ∧ (mode = ataWdma0 ∨ mode = ataUdma0) then
    modifyPort p fun pr => { pr with xfermode := c 12 &&& 0x7 }
  else pure ()
  answerTfd h p slot cfis (featureKnown c)

def handleSetMulti (h : Host) (p : PortNo) (slot : Slot) (cfis : Nat) : AhciM Unit := do
  let m ← getMem
  let n := m (cfis + 12)
  if n ≠ 0 ∧ (n > 128 ∨ n &&& (n - 1) ≠ 0) then answerTfd h p slot cfis false
  else
    modifyPort p fun pr => { pr with multSectors := n }
    answerTfd h p slot cfis true

/-- The commands of `ahci_handle_rw`. -/
def isRw (cmd : UInt8) : Bool :=
  cmd = ataRead ∨ cmd = ataWrite ∨ isLba48 cmd ∨ cmd = ataReadMul ∨ cmd = ataWriteMul ∨ cmd = ataReadDma ∨
    cmd = ataWriteDma ∨ cmd = ataReadFpdmaQueued ∨ cmd = ataWriteFpdmaQueued

def isPower (cmd : UInt8) : Bool :=
  cmd = ataStandbyCmd ∨ cmd = ataStandbyImmediate ∨ cmd = ataIdleCmd ∨ cmd = ataIdleImmediate ∨ cmd = ataSleep

def ahciHandleCmd (h : Host) (p : PortNo) (slot : Slot) (cfis : Nat) : AhciM Unit := do
  modifyPort p fun pr => { pr with tfd := pr.tfd ||| ataSBusy }
  let m ← getMem
  let pr ← getPort p
  let c := bytesAt m cfis
  let cmd := c 2
  report p (.issue slot cmd)
  if cmd = ataAtaIdentify then handleIdentify h p slot cfis
  else if cmd = ataSetfeatures then handleSetfeatures h p slot cfis
  else if cmd = ataSetMulti then handleSetMulti h p slot cfis
  else if isRw cmd then ahciHandleRw h p slot cfis 0
  else if cmd = ataFlushcache ∨ cmd = ataFlushcache48 then ahciHandleFlush p slot cfis
  else if cmd = ataDataSetManagement then
    if c 11 = 0 ∧ c 3 = ataDsmTrim ∧ c 13 = 0 ∧ c 12 = 1 then ahciHandleDsmTrim h p slot cfis 0
    else ahciWriteFisD2h h p slot cfis abortTfd
  else if cmd = ataSendFpdmaQueued then
    if c 13 &&& 0x1f = ataSfpdmaDsm ∧ c 17 = 0 ∧ c 16 = ataDsmTrim ∧ c 11 = 0 ∧ c 13 = 1 then
      ahciHandleDsmTrim h p slot cfis 0
    else ahciWriteFisD2h h p slot cfis abortTfd
  else if cmd = ataReadLogExt ∨ cmd = ataReadLogDmaExt then ahciHandleReadLog h p slot cfis
  else if cmd = ataNop then ahciWriteFisD2h h p slot cfis abortTfd
  else if isPower cmd then ahciWriteFisD2h h p slot cfis okTfd
  else if cmd = ataAtapiIdentify then handleAtapiIdentify h p slot cfis
  else if cmd = ataPacketCmd then
    if pr.atapi then handlePacketCmd h p slot cfis else ahciWriteFisD2h h p slot cfis abortTfd
  else ahciWriteFisD2h h p slot cfis abortTfd

def ahciHandleSlot (h : Host) (p : PortNo) (slot : Slot) : AhciM Unit := do
  let pr ← getPort p
  modify fun s => { s with misused := s.misused || !pr.backed }
  let hdr ← cmdHdr p slot
  let m ← getMem
  match h.paddrGuest2host (hdrCtba m hdr) (0x80 + hdrPrdtl m hdr * 16) with
  | none => throw .null
  | some cfis =>
    let c := bytesAt m cfis
    if c 0 ≠ FisType.regh2d.value then pure ()
    else if c 1 &&& 0x80 ≠ 0 then ahciHandleCmd h p slot cfis
    else
      if c 15 &&& 0x04 ≠ 0 then modifyPort p fun pr => { pr with reset := true }
      else if pr.reset then
        modifyPort p fun pr => { pr with reset := false }
        ahciPortReset h p
      else pure ()
      modifyPort p fun pr => { pr with ci := WordSet.clr slot.val pr.ci }

end Xhyve.Emul.Ahci
