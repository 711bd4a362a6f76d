import Mathlib.Algebra.Order.BigOperators.Group.Finset
import Xhyve.Vmm.RtcClock

/-!
# The calendar in machine integers

`clock_ct_to_ts` and `clock_ts_to_ct` on the `int` fields of `struct clocktime`, with the overflow of their day counts and
with every index into the table of months. On dates whose day count is an `int` they are the functions on numbers, and
these are inverse to each other.
-/

namespace Xhyve.Vmm.RtcCalendar

open Xhyve.Vmm

/-- `int`, which an overflow wraps. -/
def int32 (x : Int) : Int := x.bmod (2 ^ 32)

structure Clocktime where
  year : Int
  mon : Int
  day : Int
  hour : Int
  min : Int
  sec : Int
  dow : Int
  nsec : Int
deriving DecidableEq, Repr

structure Timespec where
  tvSec : Int
  tvNsec : Int
deriving DecidableEq, Repr

/-- `EINVAL`, or an index outside the table of months. -/
inductive Fault
  | einval
  | index
deriving DecidableEq, Repr

def posixBaseYear : Int := 1970

def secday : Int := 24 * 60 * 60

def monthDays : List Int := [31, 28, 31, 30, 31, 30, 31, 31, 30, 31, 30, 31]

/-- The low bits of the year say whether four divides it. -/
def leapyear (year : Int) : Int :=
  if year % 4 = 0 then
    if year.tmod 100 = 0 then
      if year.tmod 400 = 0 then 1 else 0
    else 1
  else 0

def daysInYear (y : Int) : Int := if leapyear y ≠ 0 then 366 else 365

def daysInMonth (y m : Int) : Except Fault Int :=
  if m < 1 then .error .index
  else
    match monthDays[(m - 1).toNat]? with
    | none => .error .index
    | some d => .ok (d + if m = 2 then leapyear y else 0)

def dayOfWeek (days : Int) : Int := (int32 (days + 4)).tmod 7

/-- The loop over the years since the base year. -/
def yearDays (year : Int) : Int :=
  (List.range (year - posixBaseYear).toNat).foldl (fun days (i : Nat) => int32 (days + daysInYear (posixBaseYear + i))) 0

/-- The loop over the months of the year, onto the days already counted. -/
def addMonths (year mon days : Int) : Except Fault Int :=
  (List.range (mon - 1).toNat).foldlM
    (fun days (i : Nat) => (daysInMonth year (i + 1)).map fun d => int32 (days + d)) days

/-- The seconds are counted in `time_t`, which days of an `int` do not overflow. -/
def clockCtToTs (ct : Clocktime) : Except Fault Timespec :=
  if ct.mon < 1 ∨ 12 < ct.mon ∨ ct.day < 1 then .error .einval
  else
    match daysInMonth ct.year ct.mon with
    | .error e => .error e
    | .ok d =>
      if d < ct.day ∨ 23 < ct.hour ∨ 59 < ct.min ∨ 59 < ct.sec then .error .einval
      else
        (addMonths ct.year ct.mon (yearDays ct.year)).map fun days =>
          let days := int32 (days + (ct.day - 1))
          ⟨((days * 24 + ct.hour) * 60 + ct.min) * 60 + ct.sec, ct.nsec⟩

theorem daysInYear_pos (y : Int) : 0 < daysInYear y := by
  unfold daysInYear
  split <;> omega

theorem daysInMonth_index {y m d : Int} (h : daysInMonth y m = .ok d) : 1 ≤ m ∧ m ≤ 12 := by
  unfold daysInMonth at h
  split at h
  · cases h
  · split at h
    · cases h
    · rename_i hm _ _ hget
      have hlt := (List.getElem?_eq_some_iff.mp hget).1
      simp only [monthDays, List.length_cons, List.length_nil] at hlt
      omega

/-- The loop that takes off whole years. -/
def splitYears (year days : Int) : Int × Int :=
  if daysInYear year ≤ days then splitYears (year + 1) (days - daysInYear year) else (year, days)
termination_by days.toNat
decreasing_by
  have := daysInYear_pos year
  omega

/-- The loop that takes off whole months, as far as the table goes. -/
def splitMonths (year i days : Int) : Except Fault (Int × Int) :=
  match _h : daysInMonth year i with
  | .error e => .error e
  | .ok d => if d ≤ days then splitMonths year (i + 1) (days - d) else .ok (i, days)
termination_by (13 - i).toNat
decreasing_by
  have := daysInMonth_index _h
  omega

def clockTsToCt (ts : Timespec) : Except Fault Clocktime :=
  let days := int32 (ts.tvSec.tdiv secday)
  let rsec := ts.tvSec.tmod secday
  let y := splitYears posixBaseYear days
  (splitMonths y.1 1 y.2).map fun m =>
    { year := y.1, mon := m.1, day := m.2 + 1, hour := rsec.tdiv 3600, min := (rsec.tmod 3600).tdiv 60,
      sec := (rsec.tmod 3600).tmod 60, dow := dayOfWeek days, nsec := ts.tvNsec }

/-! ## On numbers -/

theorem int32_eq {x : Int} (hlo : -2 ^ 31 ≤ x) (hhi : x < 2 ^ 31) : int32 x = x := by
  unfold int32
  exact Int.bmod_eq_of_le (by norm_num; omega) (by norm_num; omega)

theorem int32_add (x y : Int) : int32 (int32 x + y) = int32 (x + y) := Int.bmod_add_bmod

/-- The `int` fields of a date and time. -/
def ofNat (ct : Rtc.Clocktime) (dow nsec : Int) : Clocktime :=
  ⟨ct.year, ct.mon, ct.day, ct.hour, ct.min, ct.sec, dow, nsec⟩

theorem leapyear_cast (y : Nat) : leapyear y = (Rtc.leapyear y : Int) := by
  have hand : y &&& 3 = y % 4 := Nat.and_two_pow_sub_one_eq_mod y 2
  have h100 : (y : Int).tmod 100 = ((y % 100 : Nat) : Int) := by
    rw [Int.tmod_eq_emod_of_nonneg (by omega)]
    rfl
  have h400 : (y : Int).tmod 400 = ((y % 400 : Nat) : Int) := by
    rw [Int.tmod_eq_emod_of_nonneg (by omega)]
    rfl
  unfold leapyear Rtc.leapyear
  rw [hand, h100, h400]
  split_ifs <;> omega

theorem daysInYear_cast (y : Nat) : daysInYear y = (Rtc.daysInYear y : Int) := by
  have hle := Rtc.leapyear_le y
  unfold daysInYear Rtc.daysInYear
  rw [leapyear_cast]
  split_ifs <;> omega

theorem daysInMonth_cast (y : Nat) {m : Nat} (hm : 1 ≤ m ∧ m ≤ 12) :
    daysInMonth y m = .ok (Rtc.daysInMonth y m : Int) := by
  obtain ⟨h1, h12⟩ := hm
  interval_cases m <;> simp [daysInMonth, Rtc.daysInMonth, monthDays, Rtc.monthDays, leapyear_cast]

/-- The loop over the years, by induction on their number. -/
theorem yearDays_cast (n : Nat) : yearDays (posixBaseYear + n) = int32 (Rtc.daysOfYears n) := by
  unfold yearDays
  rw [add_sub_cancel_left, Int.toNat_natCast]
  induction n with
  | zero => simp [Rtc.daysOfYears, int32]
  | succ n ih =>
    rw [List.range_succ, List.foldl_append, ih, List.foldl_cons, List.foldl_nil, int32_add]
    have hyear : posixBaseYear + (n : Int) = ((Rtc.posixBaseYear + n : Nat) : Int) := by
      simp [posixBaseYear, Rtc.posixBaseYear]
    have hsucc : Rtc.daysOfYears (n + 1) = Rtc.daysOfYears n + Rtc.daysInYear (Rtc.posixBaseYear + n) :=
      Finset.sum_range_succ ..
    rw [hyear, daysInYear_cast, hsucc, Nat.cast_add]

/-- The loop over the months, by induction on their number. -/
theorem addMonths_cast (y : Nat) {n : Nat} (hn : n < 12) (days : Int) :
    addMonths y (n + 1) (int32 days) = .ok (int32 (days + Rtc.daysOfMonths y n)) := by
  unfold addMonths
  rw [add_sub_cancel_right, Int.toNat_natCast]
  induction n with
  | zero =>
    have hzero : Rtc.daysOfMonths y 0 = 0 := rfl
    rw [hzero, Nat.cast_zero, add_zero]
    rfl
  | succ n ih =>
    have hsucc : Rtc.daysOfMonths y (n + 1) = Rtc.daysOfMonths y n + Rtc.daysInMonth y (n + 1) :=
      Finset.sum_range_succ ..
    have hmonth : daysInMonth y (n + 1) = .ok (Rtc.daysInMonth y (n + 1) : Int) := by
      exact_mod_cast daysInMonth_cast y (m := n + 1) (by omega)
    rw [List.range_succ, List.foldlM_append, ih (by omega)]
    simp only [bind, Except.bind, List.foldlM_cons, List.foldlM_nil, hmonth, Except.map, pure, Except.pure]
    rw [int32_add, hsucc, Nat.cast_add, add_assoc]

theorem splitYears_cast (year days : Nat) :
    splitYears year days = (((Rtc.splitYears year days).1 : Int), ((Rtc.splitYears year days).2 : Int)) := by
  induction days using Nat.strongRecOn generalizing year with
  | _ days ih =>
    have hpos := Rtc.daysInYear_pos year
    rw [splitYears, Rtc.splitYears, daysInYear_cast]
    by_cases h : Rtc.daysInYear year ≤ days
    · have hrest := ih (days - Rtc.daysInYear year) (by omega) (year + 1)
      rw [if_pos (by exact_mod_cast h), if_pos h]
      rw [Nat.cast_sub h] at hrest
      exact_mod_cast hrest
    · rw [if_neg (by exact_mod_cast h), if_neg h]

/-- The months the loop on numbers takes off without passing December. -/
theorem splitMonths_cast (y : Nat) {i days m r : Nat} (hi : 1 ≤ i) (h : Rtc.splitMonths y i days = (m, r)) (hm : m ≤ 12) :
    splitMonths y i days = .ok ((m : Int), (r : Int)) := by
  induction hk : 13 - i generalizing i days with
  | zero =>
    rw [Rtc.splitMonths, if_neg (by omega)] at h
    obtain ⟨rfl, rfl⟩ := Prod.mk.inj h
    omega
  | succ k ih =>
    have hmonth := daysInMonth_cast y (m := i) ⟨hi, by omega⟩
    rw [Rtc.splitMonths] at h
    rw [splitMonths]
    split
    · rename_i e he
      rw [he] at hmonth
      cases hmonth
    · rename_i d hd
      rw [hd] at hmonth
      obtain rfl := Except.ok.inj hmonth
      by_cases hle : Rtc.daysInMonth y i ≤ days
      · rw [if_pos ⟨by omega, hle⟩] at h
        have hrest := ih (by omega) h (by omega)
        rw [Nat.cast_sub hle] at hrest
        rw [if_pos (by exact_mod_cast hle)]
        exact_mod_cast hrest
      · rw [if_neg fun hboth => hle hboth.2] at h
        obtain ⟨rfl, rfl⟩ := Prod.mk.inj h
        rw [if_neg (by exact_mod_cast hle)]

/-! ## One way and the other -/

/-- The days since the base year, of dates from it on. -/
def dayCount (ct : Rtc.Clocktime) : Nat :=
  Rtc.daysOfYears (ct.year - Rtc.posixBaseYear) + Rtc.daysOfMonths ct.year (ct.mon - 1) + (ct.day - 1)

/-- A time whose days are an `int` is taken apart without leaving the table of months. -/
theorem clockTsToCt_cast (t : Nat) (nsec : Int) (h : t / 86400 < 2 ^ 31) :
    clockTsToCt ⟨t, nsec⟩ = .ok (ofNat (Rtc.clockTsToCt t) (dayOfWeek (t / 86400 : Nat)) nsec) := by
  have hdays : int32 ((t : Int).tdiv secday) = ((t / 86400 : Nat) : Int) := by
    rw [Int.tdiv_eq_ediv_of_nonneg (by omega)]
    exact int32_eq (by simp only [secday]; omega) (by simp only [secday]; omega)
  have hrsec : (t : Int).tmod secday = ((t % 86400 : Nat) : Int) := by
    rw [Int.tmod_eq_emod_of_nonneg (by omega)]
    simp [secday]
  have hvalid := (Rtc.clockTsToCt_spec t).1
  have hmon : (Rtc.splitMonths (Rtc.splitYears Rtc.posixBaseYear (t / 86400)).1 1
      (Rtc.splitYears Rtc.posixBaseYear (t / 86400)).2).1 ≤ 12 := hvalid.mon.2
  have hyears := splitYears_cast Rtc.posixBaseYear (t / 86400)
  have hmonths := splitMonths_cast _ le_rfl rfl hmon
  unfold clockTsToCt
  dsimp only
  rw [hdays, hrsec]
  have hbase : posixBaseYear = ((Rtc.posixBaseYear : Nat) : Int) := rfl
  rw [hbase, hyears]
  dsimp only
  rw [show ((1 : Int)) = ((1 : Nat) : Int) from rfl, hmonths]
  refine congrArg Except.ok ?_
  have hdivs : ∀ a b : Nat, (a : Int).tdiv b = ((a / b : Nat) : Int) ∧ (a : Int).tmod b = ((a % b : Nat) : Int) := by
    intro a b
    rw [Int.tdiv_eq_ediv_of_nonneg (by omega), Int.tmod_eq_emod_of_nonneg (by omega)]
    exact ⟨rfl, rfl⟩
  unfold ofNat Rtc.clockTsToCt
  dsimp only
  rw [show (3600 : Int) = ((3600 : Nat) : Int) from rfl, show (60 : Int) = ((60 : Nat) : Int) from rfl,
    (hdivs _ _).1, (hdivs _ _).2, (hdivs _ _).1, (hdivs _ _).2]
  rfl

theorem secs_eq (ct : Rtc.Clocktime) :
    Rtc.secs ct = ((dayCount ct * 24 + ct.hour) * 60 + ct.min) * 60 + ct.sec := rfl

/-- A date and time whose day count is an `int` is put together as on numbers. -/
theorem clockCtToTs_cast {ct : Rtc.Clocktime} (hv : Rtc.Valid ct) (h : dayCount ct < 2 ^ 31) (dow nsec : Int) :
    clockCtToTs (ofNat ct dow nsec) = .ok ⟨(Rtc.secs ct : Nat), nsec⟩ := by
  obtain ⟨hyear, hmon, hday, hhour, hmin, hsec⟩ := hv
  have hmonth := daysInMonth_cast ct.year hmon
  obtain ⟨n, hn⟩ := Nat.exists_eq_add_of_le hyear
  obtain ⟨k, hk⟩ := Nat.exists_eq_add_of_le' hmon.1
  have hyears : yearDays ct.year = int32 (Rtc.daysOfYears (ct.year - Rtc.posixBaseYear)) := by
    rw [hn, Nat.add_sub_cancel_left, Nat.cast_add]
    exact yearDays_cast n
  have hmonths : addMonths ct.year ct.mon (int32 (Rtc.daysOfYears (ct.year - Rtc.posixBaseYear))) =
      .ok (int32 (Rtc.daysOfYears (ct.year - Rtc.posixBaseYear) + Rtc.daysOfMonths ct.year (ct.mon - 1))) := by
    rw [hk, Nat.add_sub_cancel, Nat.cast_add]
    exact addMonths_cast ct.year (by omega) _
  have hchecked : ¬ ((ofNat ct dow nsec).mon < 1 ∨ 12 < (ofNat ct dow nsec).mon ∨ (ofNat ct dow nsec).day < 1) := by
    simp only [ofNat]
    omega
  have hinside : ¬ ((Rtc.daysInMonth ct.year ct.mon : Int) < (ofNat ct dow nsec).day ∨ 23 < (ofNat ct dow nsec).hour ∨
      59 < (ofNat ct dow nsec).min ∨ 59 < (ofNat ct dow nsec).sec) := by
    simp only [ofNat]
    omega
  unfold clockCtToTs
  rw [if_neg hchecked, show daysInMonth (ofNat ct dow nsec).year (ofNat ct dow nsec).mon = _ from hmonth]
  dsimp only
  rw [if_neg hinside, show yearDays (ofNat ct dow nsec).year = _ from hyears,
    show addMonths (ofNat ct dow nsec).year (ofNat ct dow nsec).mon _ = _ from hmonths]
  refine congrArg Except.ok ?_
  dsimp only [ofNat]
  have hcount : int32 (int32 (Rtc.daysOfYears (ct.year - Rtc.posixBaseYear) + Rtc.daysOfMonths ct.year (ct.mon - 1)) +
      ((ct.day : Int) - 1)) = dayCount ct := by
    rw [int32_add, int32_eq]
    · simp only [dayCount]
      omega
    · omega
    · simp only [dayCount] at h
      omega
  rw [hcount, secs_eq]
  push_cast
  rfl

theorem daysOfYears_mono {a b : Nat} (h : a ≤ b) : Rtc.daysOfYears a ≤ Rtc.daysOfYears b :=
  Finset.sum_le_sum_of_subset (Finset.range_subset_range.mpr h)

theorem daysOfMonths_mono (y : Nat) {a b : Nat} (h : a ≤ b) : Rtc.daysOfMonths y a ≤ Rtc.daysOfMonths y b :=
  Finset.sum_le_sum_of_subset (Finset.range_subset_range.mpr h)

/-- The days of a date lie in its month, which lies in its year. -/
theorem dayCount_bounds {ct : Rtc.Clocktime} (hv : Rtc.Valid ct) :
    Rtc.daysOfYears (ct.year - Rtc.posixBaseYear) ≤ dayCount ct ∧
      dayCount ct < Rtc.daysOfYears (ct.year - Rtc.posixBaseYear + 1) ∧
      Rtc.daysOfMonths ct.year (ct.mon - 1) ≤ dayCount ct - Rtc.daysOfYears (ct.year - Rtc.posixBaseYear) ∧
      dayCount ct - Rtc.daysOfYears (ct.year - Rtc.posixBaseYear) < Rtc.daysOfMonths ct.year (ct.mon - 1 + 1) := by
  obtain ⟨hyear, hmon, hday, -⟩ := hv
  have hysucc : Rtc.daysOfYears (ct.year - Rtc.posixBaseYear + 1) =
      Rtc.daysOfYears (ct.year - Rtc.posixBaseYear) + Rtc.daysInYear (Rtc.posixBaseYear + (ct.year - Rtc.posixBaseYear)) :=
    Finset.sum_range_succ ..
  have hmsucc : Rtc.daysOfMonths ct.year (ct.mon - 1 + 1) =
      Rtc.daysOfMonths ct.year (ct.mon - 1) + Rtc.daysInMonth ct.year (ct.mon - 1 + 1) := Finset.sum_range_succ ..
  have hmle := daysOfMonths_mono ct.year (show ct.mon - 1 + 1 ≤ 12 by omega)
  rw [Rtc.daysOfMonths_year] at hmle
  rw [Nat.add_sub_cancel' hyear] at hysucc
  rw [Nat.sub_add_cancel hmon.1] at hmsucc hmle ⊢
  unfold dayCount
  omega

/-- The date and time of a second are the only ones. -/
theorem secs_injective {a b : Rtc.Clocktime} (ha : Rtc.Valid a) (hb : Rtc.Valid b) (h : Rtc.secs a = Rtc.secs b) :
    a.year = b.year ∧ a.mon = b.mon ∧ a.day = b.day ∧ a.hour = b.hour ∧ a.min = b.min ∧ a.sec = b.sec := by
  have hcount : dayCount a = dayCount b ∧ a.hour = b.hour ∧ a.min = b.min ∧ a.sec = b.sec := by
    rw [secs_eq, secs_eq] at h
    have := ha.hour
    have := ha.min
    have := ha.sec
    have := hb.hour
    have := hb.min
    have := hb.sec
    omega
  obtain ⟨hdays, hhour, hmin, hsec⟩ := hcount
  obtain ⟨haylo, hayhi, hamlo, hamhi⟩ := dayCount_bounds ha
  obtain ⟨hbylo, hbyhi, hbmlo, hbmhi⟩ := dayCount_bounds hb
  have hyear : a.year = b.year := by
    have hay := ha.year
    have hby := hb.year
    rcases Nat.lt_trichotomy a.year b.year with hlt | heq | hlt
    · have := daysOfYears_mono (show a.year - Rtc.posixBaseYear + 1 ≤ b.year - Rtc.posixBaseYear by omega)
      omega
    · exact heq
    · have := daysOfYears_mono (show b.year - Rtc.posixBaseYear + 1 ≤ a.year - Rtc.posixBaseYear by omega)
      omega
  rw [hdays, hyear] at hamlo hamhi
  have hmon : a.mon = b.mon := by
    have ham := ha.mon.1
    have hbm := hb.mon.1
    rcases Nat.lt_trichotomy a.mon b.mon with hlt | heq | hlt
    · have := daysOfMonths_mono b.year (show a.mon - 1 + 1 ≤ b.mon - 1 by omega)
      omega
    · exact heq
    · have := daysOfMonths_mono b.year (show b.mon - 1 + 1 ≤ a.mon - 1 by omega)
      omega
  refine ⟨hyear, hmon, ?_, hhour, hmin, hsec⟩
  have had := ha.day.1
  have hbd := hb.day.1
  unfold dayCount at hdays
  rw [hyear, hmon] at hdays
  omega

/-- What is taken apart can be put together again. -/
theorem ct_of_ts {t : Int} (hpos : 0 ≤ t) (hlt : t / 86400 < 2 ^ 31) (nsec : Int) :
    ∃ ct, clockTsToCt ⟨t, nsec⟩ = .ok ct ∧ clockCtToTs ct = .ok ⟨t, nsec⟩ := by
  obtain ⟨n, rfl⟩ := Int.eq_ofNat_of_zero_le hpos
  have hn : n / 86400 < 2 ^ 31 := by omega
  have hvalid := (Rtc.clockTsToCt_spec n).1
  have hsecs := Rtc.secs_clockTsToCt n
  have hcount : dayCount (Rtc.clockTsToCt n) < 2 ^ 31 := by
    rw [secs_eq] at hsecs
    omega
  refine ⟨_, clockTsToCt_cast n nsec hn, ?_⟩
  rw [clockCtToTs_cast hvalid hcount, hsecs]

/-- The fields of an accepted date and time are numbers, and its day is one of the calendar. -/
theorem valid_of_accepted {ct : Clocktime} {ts : Timespec} (h : clockCtToTs ct = .ok ts) (hyear : 1970 ≤ ct.year)
    (hhour : 0 ≤ ct.hour) (hmin : 0 ≤ ct.min) (hsec : 0 ≤ ct.sec) :
    ∃ ct' : Rtc.Clocktime, ct = ofNat ct' ct.dow ct.nsec ∧ Rtc.Valid ct' := by
  unfold clockCtToTs at h
  split at h
  · cases h
  rename_i hchecked
  split at h
  · cases h
  rename_i d hmonth
  split at h
  · cases h
  rename_i hinside
  obtain ⟨year, mon, day, hour, min, sec, dow, nsec⟩ := ct
  simp only at hyear hhour hmin hsec hchecked hinside hmonth
  lift year to ℕ using by omega
  lift mon to ℕ using by omega
  lift day to ℕ using by omega
  lift hour to ℕ using hhour
  lift min to ℕ using hmin
  lift sec to ℕ using hsec
  have hbase : Rtc.posixBaseYear = 1970 := rfl
  rw [daysInMonth_cast year (m := mon) (by omega)] at hmonth
  obtain rfl := Except.ok.inj hmonth
  exact ⟨⟨year, mon, day, hour, min, sec, 0⟩, rfl, ⟨by dsimp only; omega, by dsimp only; omega, by dsimp only; omega,
    by dsimp only; omega, by dsimp only; omega, by dsimp only; omega⟩⟩

/-- The date and time of the fields, as numbers. -/
def toNat (ct : Clocktime) : Rtc.Clocktime :=
  ⟨ct.year.toNat, ct.mon.toNat, ct.day.toNat, ct.hour.toNat, ct.min.toNat, ct.sec.toNat, 0⟩

/-- What is put together can be taken apart again. -/
theorem ct_of_accepted {ct : Clocktime} {ts : Timespec} (h : clockCtToTs ct = .ok ts) (hyear : 1970 ≤ ct.year)
    (hhour : 0 ≤ ct.hour) (hmin : 0 ≤ ct.min) (hsec : 0 ≤ ct.sec) (hcount : dayCount (toNat ct) < 2 ^ 31) :
    ∃ ct', clockTsToCt ts = .ok ct' ∧ ct'.year = ct.year ∧ ct'.mon = ct.mon ∧ ct'.day = ct.day ∧ ct'.hour = ct.hour ∧
      ct'.min = ct.min ∧ ct'.sec = ct.sec ∧ ct'.nsec = ct.nsec := by
  obtain ⟨a, hct, ha⟩ := valid_of_accepted h hyear hhour hmin hsec
  have hacount : dayCount a < 2 ^ 31 := by
    rw [hct] at hcount
    exact hcount
  rw [hct, clockCtToTs_cast ha hacount] at h
  obtain rfl := Except.ok.inj h
  have hdays : Rtc.secs a / 86400 < 2 ^ 31 := by
    rw [secs_eq]
    have := ha.hour
    have := ha.min
    have := ha.sec
    omega
  have hsame := secs_injective (Rtc.clockTsToCt_spec (Rtc.secs a)).1 ha (Rtc.secs_clockTsToCt _)
  obtain ⟨hy, hmo, hd, hh, hmi, hs⟩ := hsame
  refine ⟨_, clockTsToCt_cast (Rtc.secs a) ct.nsec hdays, ?_⟩
  rw [hct]
  simp only [ofNat, hy, hmo, hd, hh, hmi, hs, and_self]

theorem dayOfWeek_cast {d : Nat} (h : d + 4 < 2 ^ 31) : dayOfWeek d = ((d + 4) % 7 : Nat) := by
  unfold dayOfWeek
  rw [int32_eq (by omega) (by omega), Int.tmod_eq_emod_of_nonneg (by omega)]
  rfl

theorem dow_next {t : Int} (hpos : 0 ≤ t) (hlt : t / 86400 + 5 < 2 ^ 31) (nsec : Int) :
    ∃ ct ct', clockTsToCt ⟨t, nsec⟩ = .ok ct ∧ clockTsToCt ⟨t + 86400, nsec⟩ = .ok ct' ∧
      0 ≤ ct.dow ∧ ct.dow < 7 ∧ ct'.dow = (ct.dow + 1) % 7 := by
  obtain ⟨n, rfl⟩ := Int.eq_ofNat_of_zero_le hpos
  have hlater : (n + 86400) / 86400 = n / 86400 + 1 := by omega
  have hct := clockTsToCt_cast n nsec (by omega)
  have hct' := clockTsToCt_cast (n + 86400) nsec (by omega)
  rw [Nat.cast_add] at hct'
  rw [dayOfWeek_cast (by omega)] at hct hct'
  refine ⟨_, _, hct, hct', ?_, ?_, ?_⟩
  · dsimp only [ofNat]
    omega
  · dsimp only [ofNat]
    omega
  · dsimp only [ofNat]
    omega

/-- Calendar conversion is a bijection between the times whose days are an `int` and the dates and times of these days; the
month loop stays inside its table; and the day of the week goes on by one modulo 7, as long as the day with four added is an
`int`. -/
theorem calendar_bijection :
    (∀ t nsec : Int, 0 ≤ t → t / 86400 < 2 ^ 31 →
      ∃ ct, clockTsToCt ⟨t, nsec⟩ = .ok ct ∧ clockCtToTs ct = .ok ⟨t, nsec⟩) ∧
    (∀ ct ts, clockCtToTs ct = .ok ts → 1970 ≤ ct.year → 0 ≤ ct.hour → 0 ≤ ct.min → 0 ≤ ct.sec →
      dayCount (toNat ct) < 2 ^ 31 →
      ∃ ct', clockTsToCt ts = .ok ct' ∧ ct'.year = ct.year ∧ ct'.mon = ct.mon ∧ ct'.day = ct.day ∧ ct'.hour = ct.hour ∧
        ct'.min = ct.min ∧ ct'.sec = ct.sec ∧ ct'.nsec = ct.nsec) ∧
    ∀ t nsec : Int, 0 ≤ t → t / 86400 + 5 < 2 ^ 31 →
      ∃ ct ct', clockTsToCt ⟨t, nsec⟩ = .ok ct ∧ clockTsToCt ⟨t + 86400, nsec⟩ = .ok ct' ∧
        0 ≤ ct.dow ∧ ct.dow < 7 ∧ ct'.dow = (ct.dow + 1) % 7 :=
  ⟨fun _ nsec hpos hlt => ct_of_ts hpos hlt nsec,
    fun _ _ h hyear hhour hmin hsec hcount => ct_of_accepted h hyear hhour hmin hsec hcount,
    fun _ nsec hpos hlt => dow_next hpos hlt nsec⟩

/-- 29 February 2000, 23:59:59. -/
theorem calendar_bijection_leap_day : ∃ ct, clockTsToCt ⟨951868799, 0⟩ = .ok ct ∧ clockCtToTs ct = .ok ⟨951868799, 0⟩ ∧
    ct.year = 2000 ∧ ct.mon = 2 ∧ ct.day = 29 := by
  obtain ⟨ct, hct, hts⟩ := calendar_bijection.1 951868799 0 (by decide) (by decide)
  have hfields : clockTsToCt ⟨951868799, 0⟩ = .ok ⟨2000, 2, 29, 23, 59, 59, 2, 0⟩ := by decide +kernel
  have heq : ct = ⟨2000, 2, 29, 23, 59, 59, 2, 0⟩ := Except.ok.inj (hct.symm.trans hfields)
  exact ⟨ct, hct, hts, by rw [heq], by rw [heq], by rw [heq]⟩

/-! ## Where the day count is no `int` -/

theorem daysOfYears_bounds (n : Nat) : 365 * n ≤ Rtc.daysOfYears n ∧ Rtc.daysOfYears n ≤ 366 * n := by
  induction n with
  | zero => exact ⟨le_rfl, le_rfl⟩
  | succ n ih =>
    have hsucc : Rtc.daysOfYears (n + 1) = Rtc.daysOfYears n + Rtc.daysInYear (Rtc.posixBaseYear + n) :=
      Finset.sum_range_succ ..
    have hyear : Rtc.daysInYear (Rtc.posixBaseYear + n) = 366 ∨ Rtc.daysInYear (Rtc.posixBaseYear + n) = 365 := by
      unfold Rtc.daysInYear
      split <;> simp
    omega

/-- A day count that has wrapped is taken for a day of the first month there is. -/
theorem clockTsToCt_wrapped {days : Int} (hneg : days < 0) (hlo : -2 ^ 31 ≤ days) :
    ∃ ct, clockTsToCt ⟨days * 86400, 0⟩ = .ok ct ∧ ct.year = 1970 := by
  have hdays : int32 ((days * 86400).tdiv secday) = days := by
    rw [show secday = 86400 from rfl, Int.mul_tdiv_cancel _ (by decide)]
    exact int32_eq hlo (by omega)
  have hyears : splitYears posixBaseYear days = (posixBaseYear, days) := by
    have := daysInYear_pos posixBaseYear
    rw [splitYears, if_neg (by omega)]
  have hmonths : splitMonths posixBaseYear 1 days = .ok (1, days) := by
    have hjan : daysInMonth posixBaseYear 1 = .ok 31 := by decide
    rw [splitMonths]
    split
    · rename_i e he
      rw [he] at hjan
      cases hjan
    · rename_i d hd
      rw [hd] at hjan
      obtain rfl := Except.ok.inj hjan
      rw [if_neg (by omega)]
  unfold clockTsToCt
  dsimp only
  rw [hdays, hyears]
  dsimp only
  rw [hmonths]
  exact ⟨_, rfl, rfl⟩

/-- New year's day of the year 8001970 is accepted and comes back as a day of 1970; and on the last days that are an `int`
the day of the week is negative. -/
theorem far_date_lost :
    (∃ ct ts ct', clockCtToTs ct = .ok ts ∧ ct = ⟨8001970, 1, 1, 0, 0, 0, 0, 0⟩ ∧ clockTsToCt ts = .ok ct' ∧
      ct'.year ≠ ct.year) ∧
    ∃ ct, clockTsToCt ⟨(2 ^ 31 - 4) * 86400, 0⟩ = .ok ct ∧ ct.dow = -2 := by
  constructor
  · have hb := daysOfYears_bounds 8000000
    have hyears : yearDays 8001970 = int32 (Rtc.daysOfYears 8000000) := yearDays_cast 8000000
    have hwrap : int32 (Rtc.daysOfYears 8000000) = (Rtc.daysOfYears 8000000 : Int) - 2 ^ 32 := by
      generalize Rtc.daysOfYears 8000000 = d at hb
      unfold int32
      rw [Int.bmod_def, Int.emod_eq_of_lt (by omega) (by norm_num; omega), if_neg (by norm_num; omega)]
      norm_num
    have hts : clockCtToTs ⟨8001970, 1, 1, 0, 0, 0, 0, 0⟩ =
        .ok ⟨((Rtc.daysOfYears 8000000 : Int) - 2 ^ 32) * 86400, 0⟩ := by
      have hjan : daysInMonth 8001970 1 = .ok 31 := by decide
      have hmonths : addMonths 8001970 1 (yearDays 8001970) = .ok ((Rtc.daysOfYears 8000000 : Int) - 2 ^ 32) := by
        rw [hyears, hwrap]
        rfl
      have hday : int32 ((Rtc.daysOfYears 8000000 : Int) - 2 ^ 32 + (1 - 1)) = (Rtc.daysOfYears 8000000 : Int) - 2 ^ 32 := by
        rw [sub_self, add_zero, int32_eq (by omega) (by omega)]
      unfold clockCtToTs
      rw [if_neg (by decide)]
      dsimp only
      rw [hjan]
      dsimp only
      rw [if_neg (by decide), hmonths]
      dsimp only [Except.map]
      rw [hday, add_zero, add_zero, add_zero, mul_assoc, mul_assoc]
      rfl
    obtain ⟨ct', hct', hyear⟩ := @clockTsToCt_wrapped ((Rtc.daysOfYears 8000000 : Int) - 2 ^ 32) (by omega) (by omega)
    refine ⟨_, _, ct', hts, rfl, hct', ?_⟩
    rw [hyear]
    decide
  · refine ⟨_, clockTsToCt_cast ((2 ^ 31 - 4) * 86400) 0 (by norm_num), ?_⟩
    decide

end Xhyve.Vmm.RtcCalendar
