import Xhyve.Lib.Circular
import Xhyve.Lib.Transition

/-!
# The UART

Registers, a receive ring of one byte or sixteen, and a tty whose read event is switched off while the ring is full. What
goes into the ring and out of it, what it loses and what the line status is read for is noted in the order it happens.
-/

namespace Xhyve.Emul.Uart

open Xhyve.Lib

abbrev Byte := BitVec 8

def regData : Nat := 0
def regIer : Nat := 1
def regIir : Nat := 2
def regFcr : Nat := 2
def regLcr : Nat := 3
def regMcr : Nat := 4
def regLsr : Nat := 5
def regMsr : Nat := 6
def regScr : Nat := 7
def regDll : Nat := 0
def regDlh : Nat := 1

def ierErxrdy : Byte := 0x01
def ierEtxrdy : Byte := 0x02
def ierErls : Byte := 0x04
def ierEmsc : Byte := 0x08

def iirRxtout : Byte := 0x0c
def iirRls : Byte := 0x06
def iirTxrdy : Byte := 0x02
def iirNopend : Byte := 0x01
def iirMlsc : Byte := 0x00
def iirFifoMask : Byte := 0xc0

def lcrDlab : Byte := 0x80

def mcrDtr : Byte := 0x01
def mcrRts : Byte := 0x02
def mcrOut1 : Byte := 0x04
def mcrOut2 : Byte := 0x08
def mcrLoopback : Byte := 0x10

def lsrRxrdy : Byte := 0x01
def lsrOe : Byte := 0x02
def lsrThre : Byte := 0x20
def lsrTemt : Byte := 0x40

def msrDcts : Byte := 0x01
def msrDdsr : Byte := 0x02
def msrTeri : Byte := 0x04
def msrDdcd : Byte := 0x08
def msrCts : Byte := 0x10
def msrDsr : Byte := 0x20
def msrRi : Byte := 0x40
def msrDcd : Byte := 0x80
def msrDeltaMask : Byte := 0x0f

def fcrEnable : Byte := 0x01
def fcrRcvRst : Byte := 0x02
def fcrDma : Byte := 0x08
def fcrRxMask : Byte := 0xc0

def fifosz : Nat := 16
def defaultRclk : Nat := 1843200
def defaultBaud : Nat := 9600

structure Fifo where
  buf : Nat → Byte
  rindex : Nat
  windex : Nat
  num : Nat
  size : Nat

structure Ttyfd where
  opened : Bool
  /-- Bytes that have come in. -/
  input : List Byte
  output : List Byte

/-- What happens to received bytes. -/
inductive Event
  | reset
  | accepted (ch : Byte)
  | received (ch : Byte)
  /-- A loopback byte for which there is no room. -/
  | dropped (ch : Byte)
  | lsrRead
deriving DecidableEq, Repr

structure Softc where
  ier : Byte
  lcr : Byte
  mcr : Byte
  lsr : Byte
  msr : Byte
  fcr : Byte
  scr : Byte
  dll : Byte
  dlh : Byte
  rxfifo : Fifo
  /-- `mev` is enabled. -/
  mev : Bool
  tty : Ttyfd
  threIntPending : Bool
  /-- What the interrupt line was last driven to. -/
  line : Option Bool
  log : List Event

def Softc.note (sc : Softc) (e : Event) : Softc := { sc with log := sc.log ++ [e] }

/-! ## The tty and the receive ring -/

def ttyread (sc : Softc) : Option Byte × Softc :=
  (sc.tty.input.head?, { sc with tty.input := sc.tty.input.tail })

def ttywrite (sc : Softc) (wb : Byte) : Softc := { sc with tty.output := sc.tty.output ++ [wb] }

/-- `rxfifo_reset`. The input of an open tty is flushed. -/
def rxfifoReset (sc : Softc) (size : Nat) : Softc :=
  let sc := ({ sc with rxfifo := ⟨fun _ => 0, 0, 0, 0, size⟩ }).note .reset
  if sc.tty.opened then { sc with tty.input := [], mev := true } else sc

def rxfifoAvailable (sc : Softc) : Bool := sc.rxfifo.num < sc.rxfifo.size

/-- `rxfifo_putchar`, and whether it fails. -/
def rxfifoPutchar (sc : Softc) (ch : Byte) : Bool × Softc :=
  let fifo := sc.rxfifo
  if fifo.num < fifo.size then
    let sc := ({ sc with rxfifo := { fifo with
      buf := Function.update fifo.buf fifo.windex ch
      windex := (fifo.windex + 1) % fifo.size
      num := fifo.num + 1 } }).note (.accepted ch)
    (false, if !rxfifoAvailable sc && sc.tty.opened then { sc with mev := false } else sc)
  else (true, sc)

def rxfifoGetchar (sc : Softc) : Option Byte × Softc :=
  let fifo := sc.rxfifo
  if fifo.num > 0 then
    let wasfull := !rxfifoAvailable sc
    let sc := { sc with rxfifo := { fifo with rindex := (fifo.rindex + 1) % fifo.size, num := fifo.num - 1 } }
    (some (fifo.buf fifo.rindex), if wasfull && sc.tty.opened then { sc with mev := true } else sc)
  else (none, sc)

def rxfifoNumchars (sc : Softc) : Nat := sc.rxfifo.num

/-! ## The interrupt -/

def uartIntrReason (sc : Softc) : Byte :=
  if sc.lsr &&& lsrOe ≠ 0 ∧ sc.ier &&& ierErls ≠ 0 then iirRls
  else if rxfifoNumchars sc > 0 ∧ sc.ier &&& ierErxrdy ≠ 0 then iirRxtout
  else if sc.threIntPending ∧ sc.ier &&& ierEtxrdy ≠ 0 then iirTxrdy
  else if sc.msr &&& msrDeltaMask ≠ 0 ∧ sc.ier &&& ierEmsc ≠ 0 then iirMlsc
  else iirNopend

def uartToggleIntr (sc : Softc) : Softc := { sc with line := some (uartIntrReason sc ≠ iirNopend) }

/-! ## The calls -/

/-- Bytes move from the tty to the ring while it has room for them. -/
def drainLoop (sc : Softc) : List Byte → Softc
  | [] => sc
  | ch :: input =>
    if rxfifoAvailable sc then drainLoop (rxfifoPutchar { sc with tty.input := input } ch).2 input else sc

def uartDrain (sc : Softc) : Softc :=
  if sc.mcr &&& mcrLoopback ≠ 0 then (ttyread sc).2 else uartToggleIntr (drainLoop sc sc.tty.input)

def writeData (sc : Softc) (value : Byte) : Softc :=
  let sc :=
    if sc.mcr &&& mcrLoopback ≠ 0 then
      let r := rxfifoPutchar sc value
      if r.1 then { r.2.note (.dropped value) with lsr := r.2.lsr ||| lsrOe } else r.2
    else if sc.tty.opened then ttywrite sc value
    else sc
  { sc with threIntPending := true }

def writeFcr (sc : Softc) (value : Byte) : Softc :=
  let sc :=
    if (sc.fcr &&& fcrEnable) ^^^ (value &&& fcrEnable) ≠ 0 then
      rxfifoReset sc (if value &&& fcrEnable ≠ 0 then fifosz else 1)
    else sc
  if value &&& fcrEnable = 0 then { sc with fcr := 0 }
  else
    let sc := if value &&& fcrRcvRst ≠ 0 then rxfifoReset sc fifosz else sc
    { sc with fcr := value &&& (fcrEnable ||| fcrDma ||| fcrRxMask) }

/-- The modem status a loopback reflects. -/
def loopbackMsr (mcr : Byte) : Byte :=
  if mcr &&& mcrLoopback ≠ 0 then
    (if mcr &&& mcrRts ≠ 0 then msrCts else 0) ||| (if mcr &&& mcrDtr ≠ 0 then msrDsr else 0) |||
      (if mcr &&& mcrOut1 ≠ 0 then msrRi else 0) ||| (if mcr &&& mcrOut2 ≠ 0 then msrDcd else 0)
  else 0

/-- The delta bit for a change of a modem status bit. -/
def msrChange (old new bit delta : Byte) : Byte := if (new &&& bit) ^^^ (old &&& bit) ≠ 0 then delta else 0

def writeMcr (sc : Softc) (value : Byte) : Softc :=
  let mcr := value &&& 0x1f
  let msr := loopbackMsr mcr
  let delta := sc.msr ||| msrChange sc.msr msr msrCts msrDcts ||| msrChange sc.msr msr msrDsr msrDdsr |||
    msrChange sc.msr msr msrDcd msrDdcd ||| (if sc.msr &&& msrRi ≠ 0 ∧ msr &&& msrRi = 0 then msrTeri else 0)
  { sc with mcr := mcr, msr := (delta &&& msrDeltaMask) ||| msr }

def writeReg (sc : Softc) (offset : Nat) (value : Byte) : Softc :=
  if sc.lcr &&& lcrDlab ≠ 0 ∧ offset = regDll then { sc with dll := value }
  else if sc.lcr &&& lcrDlab ≠ 0 ∧ offset = regDlh then { sc with dlh := value }
  else if offset = regData then writeData sc value
  else if offset = regIer then { sc with ier := value &&& 0x0f }
  else if offset = regFcr then writeFcr sc value
  else if offset = regLcr then { sc with lcr := value }
  else if offset = regMcr then writeMcr sc value
  -- The line status and the modem status are not written.
  else if offset = regScr then { sc with scr := value }
  else sc

def uartWrite (sc : Softc) (offset : Nat) (value : Byte) : Softc := uartToggleIntr (writeReg sc offset value)

def readData (sc : Softc) : Byte × Softc :=
  let r := rxfifoGetchar sc
  match r.1 with
  | some ch => (ch, r.2.note (.received ch))
  | none => (0xff, r.2)

def readIir (sc : Softc) : Byte × Softc :=
  let reason := uartIntrReason sc
  ((if sc.fcr &&& fcrEnable ≠ 0 then iirFifoMask else 0) ||| reason,
    if reason = iirTxrdy then { sc with threIntPending := false } else sc)

def readLsr (sc : Softc) : Byte × Softc :=
  let lsr := sc.lsr ||| (lsrTemt ||| lsrThre)
  let lsr := if rxfifoNumchars sc > 0 then lsr ||| lsrRxrdy else lsr &&& ~~~lsrRxrdy
  (lsr, ({ sc with lsr := lsr &&& ~~~lsrOe }).note .lsrRead)

def readReg (sc : Softc) (offset : Nat) : Byte × Softc :=
  if sc.lcr &&& lcrDlab ≠ 0 ∧ offset = regDll then (sc.dll, sc)
  else if sc.lcr &&& lcrDlab ≠ 0 ∧ offset = regDlh then (sc.dlh, sc)
  else if offset = regData then readData sc
  else if offset = regIer then (sc.ier, sc)
  else if offset = regIir then readIir sc
  else if offset = regLcr then (sc.lcr, sc)
  else if offset = regMcr then (sc.mcr, sc)
  else if offset = regLsr then readLsr sc
  else if offset = regMsr then (sc.msr, { sc with msr := sc.msr &&& ~~~msrDeltaMask })
  else if offset = regScr then (sc.scr, sc)
  else (0xff, sc)

def uartRead (sc : Softc) (offset : Nat) : Byte × Softc :=
  let r := readReg sc offset
  (r.1, uartToggleIntr r.2)

/-! ## The device -/

inductive Op
  | read (offset : Nat)
  | write (offset : Nat) (value : Byte)
  | drain
  /-- Bytes come in on the tty. -/
  | input (bytes : List Byte)

/-- A call of one of the three functions, and not the outside. -/
def Op.isCall : Op → Bool
  | .input _ => false
  | _ => true

/-- Only an open tty has an event and input. -/
def step (sc : Softc) : Op → Option Softc
  | .read offset => some (uartRead sc offset).2
  | .write offset value => some (uartWrite sc offset value)
  | .drain => if sc.tty.opened then some (uartDrain sc) else none
  | .input bytes => if sc.tty.opened then some { sc with tty.input := sc.tty.input ++ bytes } else none

def divisor : Nat := defaultRclk / defaultBaud / 16

/-- `uart_init` and then `uart_set_backend`, with a tty or without one. -/
def uartInit (opened : Bool) (input : List Byte) : Softc :=
  let sc := rxfifoReset
    { ier := 0, lcr := 0, mcr := 0, lsr := 0, msr := 0, fcr := 0, scr := 0
      dll := BitVec.ofNat 8 divisor, dlh := BitVec.ofNat 8 (divisor >>> 16)
      rxfifo := ⟨fun _ => 0, 0, 0, 0, 0⟩, mev := false, tty := ⟨false, [], []⟩, threIntPending := false
      line := none, log := [] } 1
  { sc with tty.opened := opened, tty.input := input, mev := opened }

def system : System Softc Op := System.ofFn (fun sc => ∃ opened input, sc = uartInit opened input) step

end Xhyve.Emul.Uart
