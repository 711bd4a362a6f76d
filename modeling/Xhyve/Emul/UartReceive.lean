import Xhyve.Emul.Uart

/-!
# Receiving on the UART

The ring holds what was accepted and not yet received since it was last reset, the tty has its read event exactly while
there is room, and the interrupt line is as the registers ask for after each call.
-/

namespace Xhyve.Emul.Uart

open Xhyve.Lib

/-! ## The log -/

def Event.acceptedByte : Event → Option Byte
  | .accepted ch => some ch
  | _ => none

def Event.receivedByte : Event → Option Byte
  | .received ch => some ch
  | _ => none

def Event.isDropped : Event → Bool
  | .dropped _ => true
  | _ => false

def sinceReset (log : List Event) : List Event := log.rtakeWhile (· ≠ .reset)

/-- The bytes the ring took since it was last reset. -/
def acceptedBytes (log : List Event) : List Byte := (sinceReset log).filterMap Event.acceptedByte

/-- The bytes the guest got since then. -/
def receivedBytes (log : List Event) : List Byte := (sinceReset log).filterMap Event.receivedByte

/-- A byte was lost since the line status was last read. -/
def overran (log : List Event) : Bool := (log.rtakeWhile (· ≠ .lsrRead)).any Event.isDropped

section Log

variable {log : List Event} {e : Event}

theorem sinceReset_concat (h : e ≠ .reset) : sinceReset (log ++ [e]) = sinceReset log ++ [e] := by
  unfold sinceReset
  rw [List.rtakeWhile_concat, if_pos (decide_eq_true h)]

theorem acceptedBytes_concat (h : e ≠ .reset) :
    acceptedBytes (log ++ [e]) = acceptedBytes log ++ e.acceptedByte.toList := by
  unfold acceptedBytes
  rw [sinceReset_concat h, List.filterMap_append]
  cases e <;> rfl

theorem receivedBytes_concat (h : e ≠ .reset) :
    receivedBytes (log ++ [e]) = receivedBytes log ++ e.receivedByte.toList := by
  unfold receivedBytes
  rw [sinceReset_concat h, List.filterMap_append]
  cases e <;> rfl

theorem sinceReset_reset : sinceReset (log ++ [.reset]) = [] := by
  unfold sinceReset
  rw [List.rtakeWhile_concat, if_neg (by decide)]

theorem overran_concat (h : e ≠ .lsrRead) : overran (log ++ [e]) = (overran log || e.isDropped) := by
  unfold overran
  rw [List.rtakeWhile_concat, if_pos (decide_eq_true h), List.any_append, List.any_cons, List.any_nil, Bool.or_false]

theorem overran_keep (h : e ≠ .lsrRead) (hd : e.isDropped = false) : overran (log ++ [e]) = overran log := by
  rw [overran_concat h, hd, Bool.or_false]

theorem overran_lsrRead : overran (log ++ [.lsrRead]) = false := by
  unfold overran
  rw [List.rtakeWhile_concat, if_neg (by decide)]
  rfl

end Log

/-! ## The invariant -/

/-- The bytes waiting in the ring. -/
def Fifo.bytes (fifo : Fifo) : List Byte := Circular.contents fifo.buf fifo.size fifo.rindex fifo.num

/-- The ring, the event of the tty and the overrun flag. -/
structure Received (sc : Softc) : Prop where
  size : sc.rxfifo.size = 1 ∨ sc.rxfifo.size = fifosz
  num : sc.rxfifo.num ≤ sc.rxfifo.size
  rindex : sc.rxfifo.rindex < sc.rxfifo.size
  windex : sc.rxfifo.windex = (sc.rxfifo.rindex + sc.rxfifo.num) % sc.rxfifo.size
  order : acceptedBytes sc.log = receivedBytes sc.log ++ sc.rxfifo.bytes
  event : sc.tty.opened = true → (sc.mev = true ↔ sc.rxfifo.num < sc.rxfifo.size)
  overrun : sc.lsr &&& lsrOe ≠ 0 ↔ overran sc.log = true

section Invariant

variable {sc sd : Softc}

theorem Received.congr (h : Received sc) (hf : sd.rxfifo = sc.rxfifo) (hm : sd.mev = sc.mev)
    (ho : sd.tty.opened = sc.tty.opened) (hl : sd.lsr &&& lsrOe = sc.lsr &&& lsrOe) (hlog : sd.log = sc.log) :
    Received sd := by
  constructor
  · exact hf ▸ h.size
  · exact hf ▸ h.num
  · exact hf ▸ h.rindex
  · exact hf ▸ h.windex
  · rw [hf, hlog]
    exact h.order
  · rw [hf, hm, ho]
    exact h.event
  · rw [hl, hlog]
    exact h.overrun

theorem Received.ite {c : Prop} [Decidable c] (h : Received sc) (h' : Received sd) : Received (if c then sc else sd) := by
  split
  · exact h
  · exact h'

theorem Received.ite_snd {c : Prop} [Decidable c] {x y : Byte × Softc} (h : Received x.2) (h' : Received y.2) :
    Received (if c then x else y).2 := by
  split
  · exact h
  · exact h'

theorem rxfifoAvailable_iff : rxfifoAvailable sc = true ↔ sc.rxfifo.num < sc.rxfifo.size := decide_eq_true_iff

theorem Received.emptied (h : Received sc) {size : Nat} (hs : size = 1 ∨ size = fifosz)
    (hf : sd.rxfifo = ⟨fun _ => 0, 0, 0, 0, size⟩) (hm : sd.tty.opened = true → sd.mev = true) (hl : sd.lsr = sc.lsr)
    (hlog : sd.log = sc.log ++ [.reset]) : Received sd := by
  have hpos : 0 < size := by
    rcases hs with rfl | rfl <;> decide
  constructor
  · rw [hf]
    exact hs
  · rw [hf]
    exact Nat.zero_le size
  · rw [hf]
    exact hpos
  · rw [hf]
    exact (Nat.zero_mod size).symm
  · unfold acceptedBytes receivedBytes
    rw [hlog, sinceReset_reset, hf]
    rfl
  · intro ho
    rw [hm ho, hf]
    exact iff_of_true rfl hpos
  · rw [hl, hlog, overran_keep Event.noConfusion rfl]
    exact h.overrun

theorem Received.reset (h : Received sc) {size : Nat} (hs : size = 1 ∨ size = fifosz) :
    Received (rxfifoReset sc size) := by
  unfold rxfifoReset Softc.note
  dsimp only
  split
  · exact h.emptied hs rfl (fun _ => rfl) rfl rfl
  · rename_i ho
    exact h.emptied hs rfl (fun ho' => absurd ho' ho) rfl rfl

/-- One byte more in the ring. -/
def Fifo.push (fifo : Fifo) (ch : Byte) : Fifo :=
  { fifo with
    buf := Function.update fifo.buf fifo.windex ch
    windex := (fifo.windex + 1) % fifo.size
    num := fifo.num + 1 }

theorem rxfifoPutchar_room (h : sc.rxfifo.num < sc.rxfifo.size) (ch : Byte) :
    rxfifoPutchar sc ch = (false, { sc with
      rxfifo := sc.rxfifo.push ch
      mev := if sc.rxfifo.num + 1 = sc.rxfifo.size ∧ sc.tty.opened = true then false else sc.mev
      log := sc.log ++ [.accepted ch] }) := by
  have hfull : (!decide (sc.rxfifo.num + 1 < sc.rxfifo.size)) = decide (sc.rxfifo.num + 1 = sc.rxfifo.size) := by
    rw [← decide_not, decide_eq_decide]
    omega
  have hcond : (!decide (sc.rxfifo.num + 1 < sc.rxfifo.size) && sc.tty.opened) = true ↔
      sc.rxfifo.num + 1 = sc.rxfifo.size ∧ sc.tty.opened = true := by
    rw [hfull, Bool.and_eq_true, decide_eq_true_iff]
  refine (if_pos h).trans (congrArg (Prod.mk false) ?_)
  by_cases hc : sc.rxfifo.num + 1 = sc.rxfifo.size ∧ sc.tty.opened = true
  · rw [if_pos hc]
    exact if_pos (hcond.mpr hc)
  · rw [if_neg hc]
    exact if_neg (mt hcond.mp hc)

theorem rxfifoPutchar_full (h : ¬ sc.rxfifo.num < sc.rxfifo.size) (ch : Byte) : rxfifoPutchar sc ch = (true, sc) :=
  if_neg h

theorem Received.pushed (h : Received sc) (hroom : sc.rxfifo.num < sc.rxfifo.size) (ch : Byte) :
    Received (rxfifoPutchar sc ch).2 := by
  rw [rxfifoPutchar_room hroom]
  refine ⟨h.size, hroom, h.rindex, ?_, ?_, ?_, ?_⟩
  · change (sc.rxfifo.windex + 1) % sc.rxfifo.size = (sc.rxfifo.rindex + (sc.rxfifo.num + 1)) % sc.rxfifo.size
    rw [h.windex, Nat.mod_add_mod, Nat.add_assoc]
  · have hpush : (sc.rxfifo.push ch).bytes = sc.rxfifo.bytes ++ [ch] := by
      unfold Fifo.bytes Fifo.push
      dsimp only
      rw [h.windex, Circular.contents_push hroom]
    dsimp only
    rw [acceptedBytes_concat Event.noConfusion, receivedBytes_concat Event.noConfusion, h.order, hpush]
    simp [Event.acceptedByte, Event.receivedByte]
  · intro ho
    have hev := h.event ho
    have ho : sc.tty.opened = true := ho
    change (if _ then false else sc.mev) = true ↔ sc.rxfifo.num + 1 < sc.rxfifo.size
    by_cases hfull : sc.rxfifo.num + 1 = sc.rxfifo.size
    · rw [if_pos ⟨hfull, ho⟩]
      exact iff_of_false Bool.false_ne_true hfull.not_lt
    · rw [if_neg fun hc => hfull hc.1, hev.mpr hroom]
      exact iff_of_true rfl (by omega)
  · dsimp only
    rw [overran_keep Event.noConfusion rfl]
    exact h.overrun

theorem Received.putchar (h : Received sc) (ch : Byte) : Received (rxfifoPutchar sc ch).2 := by
  by_cases hroom : sc.rxfifo.num < sc.rxfifo.size
  · exact h.pushed hroom ch
  · rw [rxfifoPutchar_full hroom]
    exact h

theorem Received.drainLoop (input : List Byte) (sc : Softc) (h : Received sc) : Received (drainLoop sc input) := by
  induction input generalizing sc with
  | nil => exact h
  | cons ch input ih =>
    unfold Uart.drainLoop
    split
    · refine ih _ (Received.putchar ?_ ch)
      exact h.congr rfl rfl rfl rfl rfl
    · exact h

theorem or_lsrOe (lsr : Byte) : (lsr ||| lsrOe) &&& lsrOe ≠ 0 := by
  revert lsr
  decide +kernel

/-- A byte for which there is no room. -/
theorem Received.dropped (h : Received sc) (ch : Byte) :
    Received { sc.note (.dropped ch) with lsr := sc.lsr ||| lsrOe } := by
  refine ⟨h.size, h.num, h.rindex, h.windex, ?_, h.event, ?_⟩
  · dsimp only [Softc.note]
    rw [acceptedBytes_concat Event.noConfusion, receivedBytes_concat Event.noConfusion, h.order]
    simp [Event.acceptedByte, Event.receivedByte]
  · dsimp only [Softc.note]
    rw [overran_concat Event.noConfusion]
    exact iff_of_true (or_lsrOe sc.lsr) (Bool.or_true _)

theorem Received.writeData (h : Received sc) (value : Byte) : Received (writeData sc value) := by
  unfold Uart.writeData
  dsimp only
  split
  · split
    · exact Received.congr (Received.dropped (h.putchar value) value) rfl rfl rfl rfl rfl
    · exact (h.putchar value).congr rfl rfl rfl rfl rfl
  split
  · exact h.congr rfl rfl rfl rfl rfl
  · exact h.congr rfl rfl rfl rfl rfl

theorem Received.writeFcr (h : Received sc) (value : Byte) : Received (writeFcr sc value) := by
  have hmode : Received (if (sc.fcr &&& fcrEnable) ^^^ (value &&& fcrEnable) ≠ 0 then
      rxfifoReset sc (if value &&& fcrEnable ≠ 0 then fifosz else 1) else sc) := by
    split
    · refine h.reset ?_
      split
      · exact .inr rfl
      · exact .inl rfl
    · exact h
  unfold Uart.writeFcr
  dsimp only
  generalize (if (sc.fcr &&& fcrEnable) ^^^ (value &&& fcrEnable) ≠ 0 then
    rxfifoReset sc (if value &&& fcrEnable ≠ 0 then fifosz else 1) else sc) = sd at hmode ⊢
  split
  · exact hmode.congr rfl rfl rfl rfl rfl
  · have hrcv : Received (if value &&& fcrRcvRst ≠ 0 then rxfifoReset sd fifosz else sd) := by
      split
      · exact hmode.reset (.inr rfl)
      · exact hmode
    exact hrcv.congr rfl rfl rfl rfl rfl

theorem Received.writeReg (h : Received sc) (offset : Nat) (value : Byte) : Received (writeReg sc offset value) := by
  unfold Uart.writeReg
  iterate 2
    refine Received.ite (h.congr rfl rfl rfl rfl rfl) ?_
  refine Received.ite (h.writeData value) ?_
  refine Received.ite (h.congr rfl rfl rfl rfl rfl) ?_
  refine Received.ite (h.writeFcr value) ?_
  iterate 3
    refine Received.ite (h.congr rfl rfl rfl rfl rfl) ?_
  exact h

theorem rxfifoGetchar_some (h : sc.rxfifo.num > 0) :
    rxfifoGetchar sc = (some (sc.rxfifo.buf sc.rxfifo.rindex), { sc with
      rxfifo := { sc.rxfifo with
        rindex := (sc.rxfifo.rindex + 1) % sc.rxfifo.size
        num := sc.rxfifo.num - 1 }
      mev := if ¬ sc.rxfifo.num < sc.rxfifo.size ∧ sc.tty.opened = true then true else sc.mev }) := by
  have hcond : (!rxfifoAvailable sc && sc.tty.opened) = true ↔
      ¬ sc.rxfifo.num < sc.rxfifo.size ∧ sc.tty.opened = true := by
    rw [Bool.and_eq_true, Bool.not_eq_true', ← Bool.not_eq_true, rxfifoAvailable_iff]
  refine (if_pos h).trans (congrArg (Prod.mk _) ?_)
  by_cases hc : ¬ sc.rxfifo.num < sc.rxfifo.size ∧ sc.tty.opened = true
  · rw [if_pos hc]
    exact if_pos (hcond.mpr hc)
  · rw [if_neg hc]
    exact if_neg (mt hcond.mp hc)

theorem Received.popped (h : Received sc) (hn : sc.rxfifo.num > 0) :
    Received ((rxfifoGetchar sc).2.note (.received (sc.rxfifo.buf sc.rxfifo.rindex))) := by
  obtain ⟨n, hnum⟩ := Nat.exists_eq_succ_of_ne_zero hn.ne'
  have hsize := h.num
  rw [rxfifoGetchar_some hn]
  refine ⟨h.size, (Nat.sub_le ..).trans h.num, Nat.mod_lt _ ((Nat.zero_le _).trans_lt h.rindex), ?_, ?_, ?_, ?_⟩
  · change sc.rxfifo.windex =
      ((sc.rxfifo.rindex + 1) % sc.rxfifo.size + (sc.rxfifo.num - 1)) % sc.rxfifo.size
    rw [h.windex, Nat.mod_add_mod, hnum, Nat.succ_sub_one, Nat.add_assoc, Nat.add_comm 1 n]
  · have hpop : Circular.contents sc.rxfifo.buf sc.rxfifo.size sc.rxfifo.rindex (n + 1) = _ := Circular.contents_pop h.rindex
    have horder := h.order
    unfold Fifo.bytes at horder
    rw [hnum, hpop] at horder
    dsimp only [Softc.note]
    rw [acceptedBytes_concat Event.noConfusion, receivedBytes_concat Event.noConfusion, horder]
    simp [Event.acceptedByte, Event.receivedByte, Fifo.bytes, hnum]
  · intro ho
    have hev := h.event ho
    have ho : sc.tty.opened = true := ho
    change (if _ then true else sc.mev) = true ↔ sc.rxfifo.num - 1 < sc.rxfifo.size
    by_cases hfull : sc.rxfifo.num < sc.rxfifo.size
    · rw [if_neg fun hc => hc.1 hfull, hev.mpr hfull]
      exact iff_of_true rfl (by omega)
    · rw [if_pos ⟨hfull, ho⟩]
      exact iff_of_true rfl (by omega)
  · dsimp only [Softc.note]
    rw [overran_keep Event.noConfusion rfl]
    exact h.overrun

theorem Received.readData (h : Received sc) : Received (readData sc).2 := by
  by_cases hn : sc.rxfifo.num > 0
  · have hpop := h.popped hn
    unfold Uart.readData
    dsimp only
    rw [rxfifoGetchar_some hn] at hpop ⊢
    exact hpop
  · have hnone : rxfifoGetchar sc = (none, sc) := if_neg hn
    unfold Uart.readData
    rw [hnone]
    exact h

theorem and_not_lsrOe (lsr : Byte) : lsr &&& ~~~lsrOe &&& lsrOe = 0 := by
  revert lsr
  decide +kernel

theorem Received.readLsr (h : Received sc) : Received (readLsr sc).2 := by
  refine ⟨h.size, h.num, h.rindex, h.windex, ?_, h.event, ?_⟩
  · dsimp only [Uart.readLsr, Softc.note]
    rw [acceptedBytes_concat Event.noConfusion, receivedBytes_concat Event.noConfusion, h.order]
    simp [Event.acceptedByte, Event.receivedByte]
  · dsimp only [Uart.readLsr, Softc.note]
    rw [overran_lsrRead]
    exact iff_of_false (fun hne => hne (and_not_lsrOe _)) Bool.false_ne_true

theorem Received.readIir (h : Received sc) : Received (readIir sc).2 := by
  unfold Uart.readIir
  dsimp only
  split
  · exact h.congr rfl rfl rfl rfl rfl
  · exact h

theorem Received.readReg (h : Received sc) (offset : Nat) : Received (readReg sc offset).2 := by
  unfold Uart.readReg
  iterate 2
    refine Received.ite_snd h ?_
  refine Received.ite_snd h.readData ?_
  refine Received.ite_snd h ?_
  refine Received.ite_snd h.readIir ?_
  iterate 2
    refine Received.ite_snd h ?_
  refine Received.ite_snd h.readLsr ?_
  refine Received.ite_snd (h.congr rfl rfl rfl rfl rfl) ?_
  exact Received.ite_snd h h

theorem Received.toggle (h : Received sc) : Received (uartToggleIntr sc) := h.congr rfl rfl rfl rfl rfl

theorem Received.step (h : Received sc) {op : Op} (hst : step sc op = some sd) : Received sd := by
  cases op with
  | read offset =>
    obtain rfl := Option.some.inj hst
    exact (h.readReg offset).toggle
  | write offset value =>
    obtain rfl := Option.some.inj hst
    exact (h.writeReg offset value).toggle
  | drain =>
    obtain ⟨-, hst⟩ := Option.ite_none_right_eq_some.mp hst
    obtain rfl := Option.some.inj hst
    unfold uartDrain
    split
    · exact h.congr rfl rfl rfl rfl rfl
    · exact (Received.drainLoop _ sc h).toggle
  | input bytes =>
    obtain ⟨-, hst⟩ := Option.ite_none_right_eq_some.mp hst
    obtain rfl := Option.some.inj hst
    exact h.congr rfl rfl rfl rfl rfl

theorem received_init (opened : Bool) (input : List Byte) : Received (uartInit opened input) := by
  have hlsr : (uartInit opened input).lsr = 0 := rfl
  have hoverrun : (uartInit opened input).lsr &&& lsrOe ≠ 0 ↔ overran (uartInit opened input).log = true := by
    rw [hlsr, show (0 : Byte) &&& lsrOe = 0 by decide]
    exact iff_of_false (fun hne => hne rfl) Bool.false_ne_true
  cases opened with
  | false => exact ⟨.inl rfl, Nat.zero_le 1, Nat.zero_lt_one, rfl, rfl, fun ho => absurd ho Bool.false_ne_true, hoverrun⟩
  | true => exact ⟨.inl rfl, Nat.zero_le 1, Nat.zero_lt_one, rfl, rfl, fun _ => iff_of_true rfl Nat.zero_lt_one, hoverrun⟩

theorem received_reachable (h : system.Reachable sc) : Received sc := by
  refine System.Inductive.reachable ⟨?_, ?_⟩ h
  · rintro _ ⟨opened, input, rfl⟩
    exact received_init opened input
  · exact fun _ _ _ hsc hst => hsc.step hst

end Invariant

/-! ## The interrupt line -/

/-- The line was last driven to what the registers ask for. -/
def Driven (sc : Softc) : Prop := sc.line = some (decide (uartIntrReason sc ≠ iirNopend))

/-- Before the first call the line has not been driven, and there is no loopback. -/
def LineInv (sc : Softc) : Prop := Driven sc ∨ (sc.line = none ∧ sc.mcr = 0)

section Line

variable {sc sd : Softc} {op : Op}

theorem LineInv.input (h : LineInv sc) (hst : step sc op = some sd) (hop : op.isCall = false) : LineInv sd := by
  cases op with
  | input bytes =>
    obtain ⟨-, hst⟩ := Option.ite_none_right_eq_some.mp hst
    obtain rfl := Option.some.inj hst
    exact h
  | read offset => cases hop
  | write offset value => cases hop
  | drain => cases hop

/-- A loopback drops a byte of the tty, and has nothing to report. -/
theorem LineInv.call (h : LineInv sc) (hst : step sc op = some sd) (hop : op.isCall = true) : Driven sd := by
  cases op with
  | read offset =>
    obtain rfl := Option.some.inj hst
    rfl
  | write offset value =>
    obtain rfl := Option.some.inj hst
    rfl
  | drain =>
    obtain ⟨-, hst⟩ := Option.ite_none_right_eq_some.mp hst
    obtain rfl := Option.some.inj hst
    unfold uartDrain
    split
    · rename_i hloop
      rcases h with h | ⟨-, hmcr⟩
      · exact h
      · rw [hmcr] at hloop
        exact absurd rfl hloop
    · rfl
  | input bytes => cases hop

theorem lineInv_reachable (h : system.Reachable sc) : LineInv sc := by
  refine System.Inductive.reachable ⟨?_, ?_⟩ h
  · rintro _ ⟨opened, input, rfl⟩
    cases opened
    · exact .inr ⟨rfl, rfl⟩
    · exact .inr ⟨rfl, rfl⟩
  · intro sc op sd hsc hst
    cases hop : op.isCall with
    | false => exact hsc.input hst hop
    | true => exact .inl (hsc.call hst hop)

end Line

/-- The receive path keeps its invariant over every run, and each call leaves the line as the registers ask for. -/
theorem uart_receives {sc : Softc} (h : system.Reachable sc) :
    Received sc ∧ ∀ op sd, step sc op = some sd → op.isCall = true → Driven sd :=
  ⟨received_reachable h, fun _ _ hst hop => (lineInv_reachable h).call hst hop⟩

/-- A loopback of two bytes, of which a ring of one loses the second. -/
theorem uart_receives_loopback : ∃ sc, system.Reachable sc ∧ sc.lsr &&& lsrOe ≠ 0 ∧
    Received sc ∧ ∀ op sd, step sc op = some sd → op.isCall = true → Driven sd :=
  have h : system.Reachable (uartWrite (uartWrite (uartWrite (uartInit true []) regMcr 0x10) regData 0x41) regData 0x42) :=
    .step (a := .write regData 0x42) (.step (a := .write regData 0x41) (.step (a := .write regMcr 0x10)
      (.init ⟨true, [], rfl⟩) rfl) rfl) rfl
  ⟨_, h, by decide, uart_receives h⟩

end Xhyve.Emul.Uart
