import Xhyve.Vmm.RtcCalendar

/-!
# What the RTC bytes are taken for

`rtc_to_secs` accepts a byte pattern exactly if it encodes a date and time from 1900 on. The calendar it then asks counts from
1970, and takes the years before for that one.
-/

namespace Xhyve.Vmm.Rtc

variable {f : Format} {ram : Nat → BitVec 8}

/-! ## Well-formed bytes -/

/-- Two decimal digits, where the bytes are decimal. -/
def Digits (f : Format) (b : BitVec 8) : Prop := f.bin = true ∨ b.toNat % 16 ≤ 9 ∧ b.toNat / 16 ≤ 9

/-- The hour byte without its PM bit. -/
def hourByte (f : Format) (b : BitVec 8) : BitVec 8 := if f.h24 then b else b &&& 0x7f

/-- The bytes encode a date and time that exists. -/
structure Denotes (f : Format) (ram : Nat → BitVec 8) : Prop where
  digits : ∀ o ∈ [rtcSec, rtcMin, rtcDay, rtcMonth, rtcYear, rtcCentury], Digits f (ram o)
  hourDigits : Digits f (hourByte f (ram rtcHrs))
  hour12 : f.h24 = false → 1 ≤ value f (hourByte f (ram rtcHrs)) ∧ value f (hourByte f (ram rtcHrs)) ≤ 12
  year : value f (ram rtcYear) ≤ 99
  mon : 1 ≤ (decode f ram).mon ∧ (decode f ram).mon ≤ 12
  day : 1 ≤ (decode f ram).day ∧ (decode f ram).day ≤ daysInMonth (decode f ram).year (decode f ram).mon
  hour : (decode f ram).hour ≤ 23
  min : (decode f ram).min ≤ 59
  sec : (decode f ram).sec ≤ 59

/-- A time that is returned denotes the encoded date and time, which exists and is not before 1970. -/
def Sound (f : Format) (ram : Nat → BitVec 8) : Prop :=
  ∀ t : Nat, rtcToSecs f ram = some t → Denotes f ram ∧ posixBaseYear ≤ (decode f ram).year ∧
    ∃ ct, RtcCalendar.clockTsToCt ⟨t, 0⟩ = .ok ct ∧ RtcCalendar.toNat ct = decode f ram

theorem rtcget_eq_some_iff (b : BitVec 8) (v : Nat) : rtcget f b.toNat = some v ↔ Digits f b ∧ v = value f b := by
  have hlt := b.isLt
  have hmod : b.toNat / 16 % 16 = b.toNat / 16 := Nat.mod_eq_of_lt (by omega)
  unfold rtcget Digits value
  rw [hmod]
  cases f.bin with
  | true => simp [eq_comm]
  | false =>
    by_cases hdigits : b.toNat % 16 ≤ 9 ∧ b.toNat / 16 ≤ 9
    · simp [show ¬ (9 < b.toNat % 16 ∨ 9 < b.toNat / 16) by omega, hdigits, eq_comm]
    · simp [show 9 < b.toNat % 16 ∨ 9 < b.toNat / 16 by omega, hdigits]

theorem and_0x80 (b : BitVec 8) : (b &&& 0x80 ≠ 0) ↔ b.msb = true := by
  revert b
  decide

theorem hourget_eq_some_iff (b : BitVec 8) (v : Nat) : hourget f b = some v ↔
    Digits f (hourByte f b) ∧ (f.h24 = false → 1 ≤ value f (hourByte f b) ∧ value f (hourByte f b) ≤ 12) ∧
      v = hourValue f b := by
  unfold hourget hourByte hourValue
  cases hf : f.h24 with
  | true => simp [rtcget_eq_some_iff]
  | false =>
    simp only [Bool.false_eq_true, if_false, forall_const, and_0x80]
    generalize b &&& 0x7f = c
    cases hget : rtcget f c.toNat with
    | none =>
      have hdigits : ¬ Digits f c := fun hd => by
        rw [(rtcget_eq_some_iff c _).mpr ⟨hd, rfl⟩] at hget
        cases hget
      simp [hdigits]
    | some hour =>
      obtain ⟨hdigits, rfl⟩ := (rtcget_eq_some_iff _ _).mp hget
      by_cases hrange : 1 ≤ value f c ∧ value f c ≤ 12
      · have htwelve : (if value f c = 12 then 0 else value f c) = value f c % 12 := by
          split_ifs <;> omega
        simp only [hrange, hdigits, htwelve, and_self, if_true, true_and, Option.some.injEq]
        exact eq_comm
      · simp [hrange]

theorem guard_eq_some_iff (p : Prop) [Decidable p] (u : Unit) : (guard p : Option Unit) = some u ↔ p := by
  by_cases h : p <;> simp [guard, h]

theorem clockCtToTs_eq_some_iff (ct : Clocktime) (t : Nat) : clockCtToTs ct = some t ↔
    (1 ≤ ct.mon ∧ ct.mon ≤ 12) ∧ (1 ≤ ct.day ∧ ct.day ≤ daysInMonth ct.year ct.mon) ∧ ct.hour ≤ 23 ∧ ct.min ≤ 59 ∧
      ct.sec ≤ 59 ∧ t = secs ct := by
  unfold clockCtToTs
  split_ifs with h
  · constructor
    · exact nofun
    · rintro ⟨hmon, hday, hhour, hmin, hsec, -⟩
      omega
  · constructor
    · intro ht
      exact ⟨by omega, by omega, by omega, by omega, by omega, (Option.some.inj ht).symm⟩
    · rintro ⟨-, -, -, -, -, rfl⟩
      rfl

/-- What `rtc_to_secs` accepts, and the second it makes of it. -/
theorem rtcToSecs_eq_some_iff (t : Nat) :
    rtcToSecs f ram = some t ↔ Denotes f ram ∧ 1900 ≤ (decode f ram).year ∧ t = secs (decode f ram) := by
  unfold rtcToSecs
  simp only [Option.bind_eq_bind, Option.bind_eq_some_iff, rtcget_eq_some_iff, hourget_eq_some_iff, guard_eq_some_iff,
    clockCtToTs_eq_some_iff]
  constructor
  · rintro ⟨_, ⟨hsecd, rfl⟩, -, hsec, _, ⟨hmind, rfl⟩, -, hmin, _, ⟨hhourd, hhour12, rfl⟩, -, hhour, _, ⟨hdayd, rfl⟩, -, -,
      _, ⟨hmond, rfl⟩, -, hmon, _, ⟨hyeard, rfl⟩, -, hyear, _, ⟨hcentd, rfl⟩, -, hpast, -, hday, -, -, -, rfl⟩
    refine ⟨⟨?_, hhourd, hhour12, hyear, hmon, hday, hhour, hmin, hsec⟩, hpast, rfl⟩
    simp only [List.forall_mem_cons]
    exact ⟨hsecd, hmind, hdayd, hmond, hyeard, hcentd, nofun⟩
  · rintro ⟨⟨hdigits, hhourd, hhour12, hyear, hmon, hday, hhour, hmin, hsec⟩, hpast, rfl⟩
    simp only [List.forall_mem_cons] at hdigits
    obtain ⟨hsecd, hmind, hdayd, hmond, hyeard, hcentd, -⟩ := hdigits
    have hday31 : value f (ram rtcDay) ≤ 31 := hday.2.trans (daysInMonth_le ..)
    exact ⟨_, ⟨hsecd, rfl⟩, (), hsec, _, ⟨hmind, rfl⟩, (), hmin, _, ⟨hhourd, hhour12, rfl⟩, (), hhour, _, ⟨hdayd, rfl⟩, (),
      ⟨hday.1, hday31⟩, _, ⟨hmond, rfl⟩, (), hmon, _, ⟨hyeard, rfl⟩, (), hyear, _, ⟨hcentd, rfl⟩, (), hpast, hmon, hday, hhour,
      hmin, hsec, rfl⟩

/-- The days of a date the bytes can hold are an `int`. -/
theorem dayCount_decode (hd : Denotes f ram) (hyear : posixBaseYear ≤ (decode f ram).year) :
    RtcCalendar.dayCount (decode f ram) < 2 ^ 31 := by
  have hvalid : Valid (decode f ram) := ⟨hyear, hd.mon, hd.day, hd.hour, hd.min, hd.sec⟩
  have hcentury : value f (ram rtcCentury) ≤ 255 := by
    have hlt := (ram rtcCentury).isLt
    unfold value
    split_ifs <;> omega
  have hle : (decode f ram).year ≤ 25599 := by
    have := hd.year
    simp only [decode]
    omega
  have hdays := (RtcCalendar.dayCount_bounds hvalid).2.1
  have hbound := (RtcCalendar.daysOfYears_bounds ((decode f ram).year - posixBaseYear + 1)).2
  omega

/-- From 1970 on the calendar gives the encoded date and time back. -/
theorem clockTsToCt_decode (hd : Denotes f ram) (hyear : posixBaseYear ≤ (decode f ram).year) :
    ∃ ct, RtcCalendar.clockTsToCt ⟨(secs (decode f ram) : Nat), 0⟩ = .ok ct ∧ RtcCalendar.toNat ct = decode f ram := by
  have hvalid : Valid (decode f ram) := ⟨hyear, hd.mon, hd.day, hd.hour, hd.min, hd.sec⟩
  have hdays : secs (decode f ram) / 86400 < 2 ^ 31 := by
    have hcount := dayCount_decode hd hyear
    have := hd.hour
    have := hd.min
    have := hd.sec
    rw [RtcCalendar.secs_eq]
    omega
  refine ⟨_, RtcCalendar.clockTsToCt_cast _ 0 hdays, ?_⟩
  have hback := (clockTsToCt_spec (secs (decode f ram))).1
  obtain ⟨hy, hmon, hday, hhour, hmin, hsec⟩ := RtcCalendar.secs_injective hback hvalid (secs_clockTsToCt _)
  simp only [RtcCalendar.toNat, RtcCalendar.ofNat, Int.toNat_natCast, hy, hmon, hday, hhour, hmin, hsec]
  rfl

/-- For any content of the bytes and any format, what `rtc_to_secs` returns denotes the encoded date and time unless this is one
of the years from 1900 to 1969, which exists and is taken for a day of 1970. -/
theorem rtc_to_secs_sound (f : Format) (ram : Nat → BitVec 8) :
    Sound f ram ↔ ¬ (Denotes f ram ∧ 1900 ≤ (decode f ram).year ∧ (decode f ram).year < 1970) := by
  constructor
  · rintro hsound ⟨hd, hpast, hearly⟩
    obtain ⟨-, hyear, -⟩ := hsound _ ((rtcToSecs_eq_some_iff _).mpr ⟨hd, hpast, rfl⟩)
    exact absurd hyear (Nat.not_le.mpr hearly)
  · intro hlate t ht
    obtain ⟨hd, hpast, rfl⟩ := (rtcToSecs_eq_some_iff t).mp ht
    have hyear : posixBaseYear ≤ (decode f ram).year := by
      by_contra hearly
      exact hlate ⟨hd, hpast, Nat.not_le.mp hearly⟩
    exact ⟨hd, hyear, clockTsToCt_decode hd hyear⟩

/-- The bytes of 1 January 1960 in decimal give the first second of 1970. -/
theorem year_1960_misread :
    let f : Format := ⟨false, true⟩
    let ram : Nat → BitVec 8 := fun o =>
      if o = rtcDay ∨ o = rtcMonth then 0x01 else if o = rtcYear then 0x60 else if o = rtcCentury then 0x19 else 0x00
    (decode f ram).year = 1960 ∧ rtcToSecs f ram = some 0 ∧ ¬ Sound f ram := by
  intro f ram
  have ht : rtcToSecs f ram = some 0 := by decide +kernel
  refine ⟨by decide, ht, fun hsound => ?_⟩
  obtain ⟨-, hyear, -⟩ := hsound 0 ht
  exact absurd hyear (by decide)

end Xhyve.Vmm.Rtc
