import Mathlib.Algebra.BigOperators.Group.Finset.Basic
import Mathlib.Tactic.IntervalCases
import Mathlib.Tactic.Ring

/-!
# Calendar and register formats of the RTC

`clock_ct_to_ts` and `clock_ts_to_ct` with their loops over years and months, and the date/time bytes in
the four formats register B selects. Times are seconds since 1970; `none` is `VRTC_BROKEN_TIME`.
-/

namespace Xhyve.Vmm.Rtc

structure Clocktime where
  year : Nat
  mon : Nat
  day : Nat
  hour : Nat
  min : Nat
  sec : Nat
  dow : Nat
deriving DecidableEq, Repr

def posixBaseYear : Nat := 1970
def secday : Nat := 24 * 60 * 60

def leapyear (year : Nat) : Nat :=
  if year &&& 3 = 0 then
    if year % 100 = 0 then
      if year % 400 = 0 then 1 else 0
    else 1
  else 0

def monthDays : List Nat := [31, 28, 31, 30, 31, 30, 31, 31, 30, 31, 30, 31]

def daysInYear (y : Nat) : Nat := if leapyear y = 1 then 366 else 365

def daysInMonth (y m : Nat) : Nat := monthDays.getD (m - 1) 0 + if m = 2 then leapyear y else 0

def dayOfWeek (days : Nat) : Nat := (days + 4) % 7

/-- The days of `n` years from the base year on. -/
def daysOfYears (n : Nat) : Nat := ∑ i ∈ Finset.range n, daysInYear (posixBaseYear + i)

/-- The days of the first `n` months. -/
def daysOfMonths (y n : Nat) : Nat := ∑ i ∈ Finset.range n, daysInMonth y (i + 1)

/-- `clock_ct_to_ts`. -/
def clockCtToTs (ct : Clocktime) : Option Nat :=
  if ct.mon < 1 ∨ 12 < ct.mon ∨ ct.day < 1 ∨ daysInMonth ct.year ct.mon < ct.day ∨ 23 < ct.hour ∨
      59 < ct.min ∨ 59 < ct.sec then none
  else
    let days := daysOfYears (ct.year - posixBaseYear) + daysOfMonths ct.year (ct.mon - 1) +
      (ct.day - 1)
    some (((days * 24 + ct.hour) * 60 + ct.min) * 60 + ct.sec)

theorem daysInYear_pos (y : Nat) : 0 < daysInYear y := by
  unfold daysInYear
  split <;> omega

/-- The loop that takes off whole years. -/
def splitYears (year days : Nat) : Nat × Nat :=
  if daysInYear year ≤ days then splitYears (year + 1) (days - daysInYear year) else (year, days)
termination_by days
decreasing_by
  have := daysInYear_pos year
  omega

/-- The loop that takes off whole months; December is the last there is. -/
def splitMonths (year i days : Nat) : Nat × Nat :=
  if i ≤ 12 ∧ daysInMonth year i ≤ days then splitMonths year (i + 1) (days - daysInMonth year i)
  else (i, days)
termination_by 13 - i

/-- `clock_ts_to_ct`. -/
def clockTsToCt (secs : Nat) : Clocktime :=
  let days := secs / secday
  let rsec := secs % secday
  let (year, ydays) := splitYears posixBaseYear days
  let (mon, mdays) := splitMonths year 1 ydays
  { year := year, mon := mon, day := mdays + 1, hour := rsec / 3600, min := rsec % 3600 / 60,
    sec := rsec % 3600 % 60, dow := dayOfWeek days }

/-! ## The calendar is kept -/

/-- A date and time of the Gregorian calendar, from the base year on. -/
structure Valid (ct : Clocktime) : Prop where
  year : posixBaseYear ≤ ct.year
  mon : 1 ≤ ct.mon ∧ ct.mon ≤ 12
  day : 1 ≤ ct.day ∧ ct.day ≤ daysInMonth ct.year ct.mon
  hour : ct.hour ≤ 23
  min : ct.min ≤ 59
  sec : ct.sec ≤ 59

theorem leapyear_le (y : Nat) : leapyear y ≤ 1 := by
  unfold leapyear
  split_ifs <;> omega

theorem daysInMonth_le (y m : Nat) : daysInMonth y m ≤ 31 := by
  have hleap := leapyear_le y
  by_cases hm : 1 ≤ m ∧ m ≤ 12
  · obtain ⟨h1, h2⟩ := hm
    interval_cases m <;> simp [daysInMonth, monthDays] <;> omega
  · rcases Nat.eq_zero_or_pos m with rfl | hpos
    · simp [daysInMonth, monthDays]
    · have h12 : monthDays.length ≤ m - 1 := by
        simp only [monthDays, List.length_cons, List.length_nil]
        omega
      rw [daysInMonth, List.getD_eq_getElem?_getD, List.getElem?_eq_none h12, if_neg (by omega)]
      exact Nat.zero_le _

theorem daysOfMonths_year (y : Nat) : daysOfMonths y 12 = daysInYear y := by
  have hleap := leapyear_le y
  simp only [daysOfMonths, Finset.sum_range_succ, Finset.sum_range_zero, daysInMonth, monthDays,
    daysInYear]
  simp
  split_ifs <;> omega

/-- What the years loop has taken off is what it counted. -/
theorem splitYears_spec (n days : Nat) :
    ∃ m, splitYears (posixBaseYear + n) days = (posixBaseYear + m, daysOfYears n + days - daysOfYears m)
      ∧ daysOfYears m ≤ daysOfYears n + days ∧ daysOfYears n + days < daysOfYears (m + 1) := by
  induction days using Nat.strongRecOn generalizing n with
  | _ days ih =>
    rw [splitYears]
    split_ifs with h
    · have hpos := daysInYear_pos (posixBaseYear + n)
      have hsucc : daysOfYears (n + 1) = daysOfYears n + daysInYear (posixBaseYear + n) :=
        Finset.sum_range_succ ..
      obtain ⟨m, hm, hlo, hhi⟩ := ih (days - daysInYear (posixBaseYear + n)) (by omega) (n + 1)
      have heq : daysOfYears (n + 1) + (days - daysInYear (posixBaseYear + n)) =
          daysOfYears n + days := by omega
      rw [heq] at hm hlo hhi
      exact ⟨m, hm, hlo, hhi⟩
    · have hsucc : daysOfYears (n + 1) = daysOfYears n + daysInYear (posixBaseYear + n) :=
        Finset.sum_range_succ ..
      refine ⟨n, ?_, by omega, by omega⟩
      rw [Nat.add_sub_cancel_left]

theorem splitMonths_spec (y n days : Nat) (hlt : daysOfMonths y n + days < daysOfMonths y 12)
    (hn : n < 12) :
    ∃ m, m < 12 ∧ splitMonths y (n + 1) days = (m + 1, daysOfMonths y n + days - daysOfMonths y m) ∧
      daysOfMonths y m ≤ daysOfMonths y n + days ∧
      daysOfMonths y n + days < daysOfMonths y (m + 1) := by
  induction hk : 12 - n generalizing n days with
  | zero => omega
  | succ k ih =>
    have hsucc : daysOfMonths y (n + 1) = daysOfMonths y n + daysInMonth y (n + 1) :=
      Finset.sum_range_succ ..
    rw [splitMonths]
    split_ifs with h
    · obtain ⟨-, hle⟩ := h
      have heq : daysOfMonths y (n + 1) + (days - daysInMonth y (n + 1)) = daysOfMonths y n + days := by
        omega
      have hn' : n + 1 < 12 := by
        by_contra hge
        have : n + 1 = 12 := by omega
        rw [this] at hsucc hle
        omega
      obtain ⟨m, hm, hs, hlo, hhi⟩ := ih (n + 1) (days - daysInMonth y (n + 1)) (by omega) hn' (by omega)
      rw [heq] at hs hlo hhi
      exact ⟨m, hm, hs, hlo, hhi⟩
    · refine ⟨n, hn, ?_, by omega, by omega⟩
      rw [Nat.add_sub_cancel_left]

/-- The date and time of a second, and the second of that date and time. -/
theorem clockTsToCt_spec (secs : Nat) :
    Valid (clockTsToCt secs) ∧ clockCtToTs (clockTsToCt secs) = some secs := by
  obtain ⟨n, hy, hylo, hyhi⟩ := splitYears_spec 0 (secs / secday)
  have hzero : daysOfYears 0 = 0 := rfl
  rw [hzero, Nat.zero_add] at hy hylo hyhi
  rw [Nat.add_zero] at hy
  have hsucc : daysOfYears (n + 1) = daysOfYears n + daysInYear (posixBaseYear + n) :=
    Finset.sum_range_succ ..
  have hlt : daysOfMonths (posixBaseYear + n) 0 + (secs / secday - daysOfYears n) <
      daysOfMonths (posixBaseYear + n) 12 := by
    rw [daysOfMonths_year]
    change 0 + _ < _
    omega
  obtain ⟨k, hk, hm, hmlo, hmhi⟩ := splitMonths_spec (posixBaseYear + n) 0 _ hlt (by omega)
  have hmzero : daysOfMonths (posixBaseYear + n) 0 = 0 := rfl
  rw [hmzero, Nat.zero_add] at hm hmlo hmhi
  rw [Nat.zero_add] at hm
  have hmsucc : daysOfMonths (posixBaseYear + n) (k + 1) = daysOfMonths (posixBaseYear + n) k +
      daysInMonth (posixBaseYear + n) (k + 1) := Finset.sum_range_succ ..
  have hday : secs % secday < 86400 := Nat.mod_lt _ (by decide)
  have hct : clockTsToCt secs =
      { year := posixBaseYear + n, mon := k + 1,
        day := secs / secday - daysOfYears n - daysOfMonths (posixBaseYear + n) k + 1,
        hour := secs % secday / 3600, min := secs % secday % 3600 / 60,
        sec := secs % secday % 3600 % 60, dow := dayOfWeek (secs / secday) } := by
    simp only [clockTsToCt, hy, hm]
  have hv : Valid (clockTsToCt secs) := by
    rw [hct]
    exact ⟨Nat.le_add_right .., ⟨by simp, by dsimp only; omega⟩, ⟨by simp, by dsimp only; omega⟩,
      by dsimp only; omega, by dsimp only; omega, by dsimp only; omega⟩
  refine ⟨hv, ?_⟩
  obtain ⟨-, hmon, hdy, hh, hmi, hs⟩ := hv
  rw [clockCtToTs, if_neg (by omega), hct]
  have hdays : daysOfYears (posixBaseYear + n - posixBaseYear) +
      daysOfMonths (posixBaseYear + n) (k + 1 - 1) +
      (secs / secday - daysOfYears n - daysOfMonths (posixBaseYear + n) k + 1 - 1) =
      secs / secday := by
    rw [Nat.add_sub_cancel_left, Nat.add_sub_cancel, Nat.add_sub_cancel]
    omega
  have hdiv := Nat.div_add_mod secs secday
  have hsd : secday = 86400 := rfl
  dsimp only
  rw [hdays]
  refine congrArg some ?_
  generalize secs % secday = r at *
  generalize secs / secday = d at *
  rw [hsd] at hdiv
  omega

/-- The seconds of a date and time. -/
def secs (ct : Clocktime) : Nat :=
  (((daysOfYears (ct.year - posixBaseYear) + daysOfMonths ct.year (ct.mon - 1) + (ct.day - 1)) * 24 +
    ct.hour) * 60 + ct.min) * 60 + ct.sec

theorem clockCtToTs_valid {ct : Clocktime} (h : Valid ct) : clockCtToTs ct = some (secs ct) := by
  obtain ⟨-, hmon, hdy, hh, hmi, hs⟩ := h
  rw [clockCtToTs, if_neg (by omega)]
  rfl

theorem secs_clockTsToCt (t : Nat) : secs (clockTsToCt t) = t := by
  obtain ⟨hv, ht⟩ := clockTsToCt_spec t
  rw [clockCtToTs_valid hv] at ht
  exact Option.some.inj ht

/-- A second of the host's 32-bit clock lies in the years the century byte can hold. -/
theorem year_lt {t : Nat} (ht : t < 2 ^ 32) : (clockTsToCt t).year < 2400 := by
  by_contra hge
  have hv := (clockTsToCt_spec t).1
  have hsec := secs_clockTsToCt t
  have hbound : ∀ n, 365 * n ≤ daysOfYears n := by
    intro n
    induction n with
    | zero => exact Nat.zero_le _
    | succ n ih =>
      have hs : daysOfYears (n + 1) = daysOfYears n + daysInYear (posixBaseYear + n) :=
        Finset.sum_range_succ ..
      have : 365 ≤ daysInYear (posixBaseYear + n) := by
        unfold daysInYear
        split <;> omega
      omega
  have hy := hbound ((clockTsToCt t).year - posixBaseYear)
  have hy' : 430 ≤ (clockTsToCt t).year - posixBaseYear := by
    simp only [posixBaseYear]
    omega
  simp only [secs] at hsec
  omega

/-! ## Register formats -/

def rtcsb24hr : BitVec 8 := 0x02
def rtcsbBin : BitVec 8 := 0x04

/-- How register B says the date/time bytes are written. -/
structure Format where
  bin : Bool
  h24 : Bool
deriving DecidableEq, Repr

def format (regB : BitVec 8) : Format where
  bin := regB &&& rtcsbBin ≠ 0
  h24 := regB &&& rtcsb24hr ≠ 0

def rtcSec : Nat := 0
def rtcMin : Nat := 2
def rtcHrs : Nat := 4
def rtcWday : Nat := 6
def rtcDay : Nat := 7
def rtcMonth : Nat := 8
def rtcYear : Nat := 9
def rtcCentury : Nat := 0x32

/-- The table of two decimal digits. -/
def bin2bcd (val : Nat) : BitVec 8 := BitVec.ofNat 8 (16 * (val / 10) + val % 10)

def rtcset (f : Format) (val : Nat) : BitVec 8 :=
  if f.bin then BitVec.ofNat 8 val else bin2bcd val

/-- The hour byte, with its PM bit in the 12-hour format. -/
def hourset (f : Format) (h : Nat) : BitVec 8 :=
  let hour := if f.h24 then h else if h = 0 ∨ h = 12 then 12 else h % 12
  if f.h24 = false ∧ 12 ≤ h then rtcset f hour ||| 0x80 else rtcset f hour

/-- The stores of `secs_to_rtc`. -/
def putClocktime (f : Format) (ram : Nat → BitVec 8) (ct : Clocktime) : Nat → BitVec 8 := fun o =>
  if o = rtcSec then rtcset f ct.sec
  else if o = rtcMin then rtcset f ct.min
  else if o = rtcHrs then hourset f ct.hour
  else if o = rtcWday then rtcset f (ct.dow + 1)
  else if o = rtcDay then rtcset f ct.day
  else if o = rtcMonth then rtcset f ct.mon
  else if o = rtcYear then rtcset f (ct.year % 100)
  else if o = rtcCentury then rtcset f (ct.year / 100)
  else ram o

/-- `none` where a digit is none. -/
def rtcget (f : Format) (val : Nat) : Option Nat :=
  if f.bin then some val
  else if 9 < val % 16 ∨ 9 < val / 16 % 16 then none
  else some (val / 16 % 16 * 10 + val % 16)

/-- The hour, with the PM bit taken off in the 12-hour format. -/
def hourget (f : Format) (b : BitVec 8) : Option Nat :=
  if f.h24 then rtcget f b.toNat
  else
    let pm := b &&& 0x80 ≠ 0
    match rtcget f (b &&& 0x7f).toNat with
    | none => none
    | some hour =>
      if 1 ≤ hour ∧ hour ≤ 12 then some ((if hour = 12 then 0 else hour) + if pm then 12 else 0)
      else none

def rtcToSecs (f : Format) (ram : Nat → BitVec 8) : Option Nat := do
  let sec ← rtcget f (ram rtcSec).toNat
  guard (sec ≤ 59)
  let min ← rtcget f (ram rtcMin).toNat
  guard (min ≤ 59)
  let hour ← hourget f (ram rtcHrs)
  guard (hour ≤ 23)
  let day ← rtcget f (ram rtcDay).toNat
  guard (1 ≤ day ∧ day ≤ 31)
  let mon ← rtcget f (ram rtcMonth).toNat
  guard (1 ≤ mon ∧ mon ≤ 12)
  let year ← rtcget f (ram rtcYear).toNat
  guard (year ≤ 99)
  let century ← rtcget f (ram rtcCentury).toNat
  guard (1900 ≤ century * 100 + year)
  clockCtToTs { year := century * 100 + year, mon, day, hour, min, sec, dow := 0 }

/-! ## What the bytes say -/

/-- The value of a byte in the chosen format. -/
def value (f : Format) (b : BitVec 8) : Nat :=
  if f.bin then b.toNat else b.toNat / 16 * 10 + b.toNat % 16

/-- Twelve o'clock is the hour before one. -/
def hourValue (f : Format) (b : BitVec 8) : Nat :=
  if f.h24 then value f b else value f (b &&& 0x7f) % 12 + if b.msb then 12 else 0

/-- A reader's view of the date/time bytes. -/
def decode (f : Format) (ram : Nat → BitVec 8) : Clocktime where
  year := value f (ram rtcCentury) * 100 + value f (ram rtcYear)
  mon := value f (ram rtcMonth)
  day := value f (ram rtcDay)
  hour := hourValue f (ram rtcHrs)
  min := value f (ram rtcMin)
  sec := value f (ram rtcSec)
  dow := 0

/-- The bytes of a date and time; guests may leave the day of the week alone. -/
structure Encodes (f : Format) (ram : Nat → BitVec 8) (ct : Clocktime) : Prop where
  sec : ram rtcSec = rtcset f ct.sec
  min : ram rtcMin = rtcset f ct.min
  hour : ram rtcHrs = hourset f ct.hour
  day : ram rtcDay = rtcset f ct.day
  mon : ram rtcMonth = rtcset f ct.mon
  year : ram rtcYear = rtcset f (ct.year % 100)
  century : ram rtcCentury = rtcset f (ct.year / 100)

theorem putClocktime_encodes (f : Format) (ram : Nat → BitVec 8) (ct : Clocktime) :
    Encodes f (putClocktime f ram ct) ct :=
  ⟨rfl, rfl, rfl, rfl, rfl, rfl, rfl⟩

theorem rtcset_toNat {f : Format} {val : Nat} (h : val < 100) :
    (rtcset f val).toNat = if f.bin then val else 16 * (val / 10) + val % 10 := by
  unfold rtcset bin2bcd
  split_ifs <;> rw [BitVec.toNat_ofNat] <;> omega

theorem rtcget_rtcset {f : Format} {val : Nat} (h : val < 100) :
    rtcget f (rtcset f val).toNat = some val := by
  rw [rtcset_toNat h, rtcget]
  split_ifs with hb hd
  · rfl
  · omega
  · congr 1
    omega

theorem value_rtcset {f : Format} {val : Nat} (h : val < 100) : value f (rtcset f val) = val := by
  rw [value, rtcset_toNat h]
  split_ifs
  · rfl
  · omega

theorem hourget_hourset (f : Format) {h : Nat} (hh : h ≤ 23) : hourget f (hourset f h) = some h := by
  obtain ⟨bin, h24⟩ := f
  revert h
  cases bin <;> cases h24 <;> decide

theorem hourValue_hourset (f : Format) {h : Nat} (hh : h ≤ 23) : hourValue f (hourset f h) = h := by
  obtain ⟨bin, h24⟩ := f
  revert h
  cases bin <;> cases h24 <;> decide

section Encodes

variable {f : Format} {ram : Nat → BitVec 8} {ct : Clocktime}

/-- `rtc_to_secs` reads the second back from the bytes of any date and time. -/
theorem rtcToSecs_encodes (h : Encodes f ram ct) (hv : Valid ct) (hy : ct.year < 10000) :
    rtcToSecs f ram = some (secs ct) := by
  obtain ⟨hyr, hmon, hday, hhour, hmin, hsec⟩ := hv
  have hd31 := daysInMonth_le ct.year ct.mon
  have hyear : ct.year / 100 * 100 + ct.year % 100 = ct.year := by omega
  have hlt : ct.year % 100 < 100 := Nat.mod_lt _ (by decide)
  have hc : ct.year / 100 < 100 := by omega
  have hge : 1900 ≤ ct.year := le_trans (by decide) hyr
  simp only [rtcToSecs, h.sec, h.min, h.hour, h.day, h.mon, h.year, h.century,
    rtcget_rtcset (show ct.sec < 100 by omega), rtcget_rtcset (show ct.min < 100 by omega),
    hourget_hourset f hhour, rtcget_rtcset (show ct.day < 100 by omega),
    rtcget_rtcset (show ct.mon < 100 by omega), rtcget_rtcset hlt, rtcget_rtcset hc]
  have hv' : Valid { ct with dow := 0 } := ⟨hyr, hmon, hday, hhour, hmin, hsec⟩
  simp only [Option.bind_eq_bind, Option.bind_some, guard, hsec, hmin, hhour, hday.1, hmon, hyear, hge,
    show ct.day ≤ 31 by omega, show ct.year % 100 ≤ 99 by omega, and_self, if_true, pure]
  exact clockCtToTs_valid hv'

theorem secs_decode (h : Encodes f ram ct) (hv : Valid ct) (hy : ct.year < 10000) :
    secs (decode f ram) = secs ct := by
  obtain ⟨hyr, hmon, hday, hhour, hmin, hsec⟩ := hv
  have hd31 := daysInMonth_le ct.year ct.mon
  have hyear : ct.year / 100 * 100 + ct.year % 100 = ct.year := by omega
  have hlt : ct.year % 100 < 100 := Nat.mod_lt _ (by decide)
  have hc : ct.year / 100 < 100 := by omega
  simp only [secs, decode, h.sec, h.min, h.hour, h.day, h.mon, h.year, h.century,
    value_rtcset (show ct.sec < 100 by omega), value_rtcset (show ct.min < 100 by omega),
    hourValue_hourset f hhour, value_rtcset (show ct.day < 100 by omega),
    value_rtcset (show ct.mon < 100 by omega), value_rtcset hlt, value_rtcset hc, hyear]

end Encodes

end Xhyve.Vmm.Rtc
