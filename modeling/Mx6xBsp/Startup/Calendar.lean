import Mathlib.Data.BitVec
import Mx6xBsp.Lib.Strides

/-!
# Calendar conversions of the startup

`_gmtime` takes every fourth year for a leap year. So does `calc_time_t` for the years before the
one of the date, but for that year itself it follows the Gregorian rule. They agree, and are right,
up to the end of February 2100 (`calendar_iff`).
-/

namespace Mx6xBsp.Startup

open Strides

/-- `struct tm` -/
structure Tm where
  sec : Nat
  min : Nat
  hour : Nat
  mday : Nat
  mon : Nat
  year : Nat
  wday : Nat
  yday : Nat

/-! ## `_gmtime` -/

def mdays (leap : Bool) : List Nat :=
  if leap then [31, 29, 31, 30, 31, 30, 31, 31, 30, 31, 30, 31]
  else [31, 28, 31, 30, 31, 30, 31, 31, 30, 31, 30, 31]

/-- The loop over the years since 1970: the year, and the day of it -/
def gmtimeYear (year days : Nat) : Nat × Nat :=
  let t := 365 + if (year + 2) % 4 = 0 then 1 else 0
  if t > days then (year, days) else gmtimeYear (year + 1) (days - t)
termination_by days
decreasing_by omega

/-- The loop over the months, of which `left` are left: the month, and the day of it -/
def gmtimeMon (leap : Bool) : Nat → Nat → Nat → Nat × Nat
  | 0, mon, days => (mon, days)
  | left + 1, mon, days =>
    let t := (mdays leap).getD mon 0
    if t > days then (mon, days) else gmtimeMon leap left (mon + 1) (days - t)

def gmtime (timer : BitVec 32) : Tm :=
  let days := timer.toNat / (60 * 60 * 24)
  let secs := timer.toNat % (60 * 60 * 24)
  let wday := (days + 4) % 7
  let (year, days) := gmtimeYear 0 days
  let yday := days
  let (mon, days) := gmtimeMon ((year + 2) % 4 = 0) 12 0 days
  { sec := secs % 60, min := secs / 60 % 60, hour := secs / 60 / 60
    mday := days + 1, mon := mon, year := year + 70, wday := wday, yday := yday }

/-! ## `calc_time_t` -/

def SEC_PER_MIN : BitVec 32 := 60
def SEC_PER_HOUR : BitVec 32 := 60 * SEC_PER_MIN
def SEC_PER_DAY : BitVec 32 := 24 * SEC_PER_HOUR

def monthSec : List (BitVec 32) :=
  [0, 2678400, 5097600, 7776000, 10368000, 13046400, 15638400, 18316800, 20995200, 23587200,
    26265600, 28857600]

def calcTimeT (tm : Tm) : BitVec 32 :=
  let year := BitVec.ofNat 32 tm.year - 70
  let leaps := (year + 1) >>> 2
  let sec := (year * 365 + leaps) * SEC_PER_DAY
  let sec := sec + monthSec.getD tm.mon 0
  let year := BitVec.ofNat 32 tm.year + 1900
  let sec :=
    if tm.mon ≥ 2 ∧ year % 4 = 0 ∧ (year % 100 ≠ 0 ∨ year % 400 = 0) then sec + SEC_PER_DAY else sec
  let sec := sec + BitVec.ofNat 32 (tm.mday - 1) * SEC_PER_DAY
  let sec := sec + BitVec.ofNat 32 tm.hour * SEC_PER_HOUR
  let sec := sec + BitVec.ofNat 32 tm.min * SEC_PER_MIN
  sec + BitVec.ofNat 32 tm.sec

/-! ## The Gregorian calendar -/

def LeapYear (year : Nat) : Prop := year % 4 = 0 ∧ (year % 100 ≠ 0 ∨ year % 400 = 0)

instance (year : Nat) : Decidable (LeapYear year) := inferInstanceAs (Decidable (_ ∧ _))

/-- The days of a year since 1970 -/
def gregorianYear (y : Nat) : Nat := 365 + if LeapYear (1970 + y) then 1 else 0

def monthDays (leap : Bool) (mon : Nat) : Nat := (mdays leap).getD mon 0

/-- The days since the start of 1970 -/
def Tm.days (tm : Tm) : Nat := total gregorianYear (tm.year - 70) + tm.yday

def Tm.seconds (tm : Tm) : Nat := tm.days * 86400 + tm.hour * 3600 + tm.min * 60 + tm.sec

structure Tm.Clock (tm : Tm) : Prop where
  sec : tm.sec < 60
  min : tm.min < 60
  hour : tm.hour < 24

/-- A date of the calendar, from 1970 on, and a time of the day -/
structure Tm.Valid (tm : Tm) : Prop where
  clock : tm.Clock
  since : 70 ≤ tm.year
  mon : tm.mon < 12
  mday : 1 ≤ tm.mday
  date : At (monthDays (LeapYear (1900 + tm.year))) tm.yday tm.mon (tm.mday - 1)
  wday : tm.wday = (tm.days + 4) % 7

/-! ## What `_gmtime` gives -/

/-- The days of a year since 1970, as `_gmtime` counts -/
def gmtimeDays (y : Nat) : Nat := 365 + if (y + 2) % 4 = 0 then 1 else 0

/-- What `_gmtime` makes of the second `t` -/
structure Tm.Broken (t : Nat) (tm : Tm) : Prop where
  clock : tm.Clock
  since : 70 ≤ tm.year
  mon : tm.mon < 12
  mday : 1 ≤ tm.mday
  time : t % 86400 = tm.hour * 3600 + tm.min * 60 + tm.sec
  year : At gmtimeDays (t / 86400) (tm.year - 70) tm.yday
  date : At (monthDays ((tm.year - 70 + 2) % 4 = 0)) tm.yday tm.mon (tm.mday - 1)
  wday : tm.wday = (t / 86400 + 4) % 7

theorem gmtimeYear_at (year days : Nat) :
    At gmtimeDays (total gmtimeDays year + days) (gmtimeYear year days).1
      (gmtimeYear year days).2 := by
  fun_induction gmtimeYear year days with
  | case1 year days t more => exact At.here more
  | case2 year days t less ih =>
    have enough : gmtimeDays year ≤ days := Nat.not_lt.mp less
    rw [total_next enough]
    exact ih

theorem gmtimeMon_at (leap : Bool) (left mon days : Nat)
    (within : total (monthDays leap) mon + days < total (monthDays leap) (mon + left)) :
    At (monthDays leap) (total (monthDays leap) mon + days) (gmtimeMon leap left mon days).1
      (gmtimeMon leap left mon days).2 := by
  induction left generalizing mon days with
  | zero =>
    rw [Nat.add_zero] at within
    omega
  | succ left ih =>
    unfold gmtimeMon
    dsimp only
    split
    · rename_i more
      exact At.here more
    · rename_i less
      have enough : monthDays leap mon ≤ days := Nat.not_lt.mp less
      rw [total_next enough] at within ⊢
      exact ih _ _ (by rw [Nat.add_assoc, Nat.add_comm 1]; exact within)

/-! ## Sums of days -/

theorem gmtimeDays_total (y : Nat) : total gmtimeDays y = 365 * y + (y + 1) / 4 := by
  induction y with
  | zero => rfl
  | succ y ih =>
    rw [total, ih, gmtimeDays]
    split <;> omega

theorem leapYear_iff {y : Nat} (before : y < 130) : LeapYear (1970 + y) ↔ (y + 2) % 4 = 0 := by
  unfold LeapYear
  omega

theorem gregorianYear_total {y : Nat} (before : y ≤ 130) :
    total gregorianYear y = total gmtimeDays y := by
  refine total_congr fun k below => ?_
  unfold gregorianYear gmtimeDays
  rw [if_congr (leapYear_iff (Nat.lt_of_lt_of_le below before)) rfl rfl]

theorem monthDays_year (leap : Bool) :
    total (monthDays leap) 12 = 365 + if leap then 1 else 0 := by
  cases leap <;> rfl

theorem monthDays_total (leap : Bool) {mon : Nat} (within : mon < 12) :
    total (monthDays leap) mon =
      total (monthDays false) mon + if leap ∧ 2 ≤ mon then 1 else 0 := by
  revert leap mon
  decide

theorem months_at {y yday : Nat} (within : yday < gmtimeDays y) :
    At (monthDays ((y + 2) % 4 = 0)) yday
      (gmtimeMon ((y + 2) % 4 = 0) 12 0 yday).1 (gmtimeMon ((y + 2) % 4 = 0) 12 0 yday).2 := by
  have year : gmtimeDays y = total (monthDays ((y + 2) % 4 = 0)) 12 := by
    rw [monthDays_year, gmtimeDays]
    simp only [decide_eq_true_eq]
  have none_ : total (monthDays ((y + 2) % 4 = 0)) 0 + yday = yday := Nat.zero_add yday
  have place := gmtimeMon_at ((y + 2) % 4 = 0) 12 0 yday
    (by rw [none_, Nat.zero_add, ← year]; exact within)
  rw [none_] at place
  exact place

theorem gmtime_eq (t : BitVec 32) : gmtime t =
    let secs := t.toNat % 86400
    let year := gmtimeYear 0 (t.toNat / 86400)
    let mon := gmtimeMon ((year.1 + 2) % 4 = 0) 12 0 year.2
    ⟨secs % 60, secs / 60 % 60, secs / 60 / 60, mon.2 + 1, mon.1, year.1 + 70,
      (t.toNat / 86400 + 4) % 7, year.2⟩ := rfl

theorem gmtime_broken (t : BitVec 32) : (gmtime t).Broken t.toNat := by
  have year := gmtimeYear_at 0 (t.toNat / 86400)
  have none_ : total gmtimeDays 0 + t.toNat / 86400 = t.toNat / 86400 := Nat.zero_add _
  rw [none_] at year
  have date := months_at year.within
  have within := year.within
  have mon : (gmtimeMon (((gmtimeYear 0 (t.toNat / 86400)).1 + 2) % 4 = 0) 12 0
      (gmtimeYear 0 (t.toNat / 86400)).2).1 < 12 := by
    refine date.lt_iff.mp ?_
    rw [monthDays_year]
    unfold gmtimeDays at within
    simpa only [decide_eq_true_eq] using within
  rw [gmtime_eq]
  dsimp only
  refine ⟨⟨?_, ?_, ?_⟩, ?_, mon, ?_, ?_, ?_, ?_, rfl⟩
  · exact Nat.mod_lt _ (by decide)
  · exact Nat.mod_lt _ (by decide)
  · dsimp only
    omega
  · exact Nat.le_add_left _ _
  · exact Nat.le_add_left _ _
  · dsimp only
    omega
  · exact year
  · exact date

theorem Tm.Broken.unique {t : Nat} {tm tm' : Tm} (broken : tm.Broken t) (broken' : tm'.Broken t) :
    tm = tm' := by
  obtain ⟨year, yday⟩ := broken.year.unique broken'.year
  have date := broken.date
  rw [year, yday] at date
  obtain ⟨mon, mday⟩ := date.unique broken'.date
  have time := broken.time.symm.trans broken'.time
  have since := broken.since
  have since' := broken'.since
  have first := broken.mday
  have first' := broken'.mday
  obtain ⟨sec, min, hour⟩ := broken.clock
  obtain ⟨sec', min', hour'⟩ := broken'.clock
  have wday := broken.wday.trans broken'.wday.symm
  cases tm
  cases tm'
  simp only [Tm.mk.injEq] at *
  omega

/-! ## What `calc_time_t` gives -/

theorem monthSec_eq {mon : Nat} (within : mon < 12) :
    monthSec.getD mon 0 = BitVec.ofNat 32 (total (monthDays false) mon * 86400) := by
  revert mon
  decide

theorem year_eq (y : Nat) : BitVec.ofNat 32 (y + 70) - 70 = BitVec.ofNat 32 y := by
  rw [BitVec.ofNat_add]
  exact add_sub_cancel_right _ _

theorem leaps_eq {y : Nat} (few : y < 1000) :
    (BitVec.ofNat 32 y + 1) >>> 2 = BitVec.ofNat 32 ((y + 1) / 4) := by
  apply BitVec.eq_of_toNat_eq
  have one : (1 : BitVec 32).toNat = 1 := rfl
  rw [BitVec.toNat_ushiftRight, Nat.shiftRight_eq_div_pow, BitVec.toNat_add, one,
    BitVec.toNat_ofNat, BitVec.toNat_ofNat]
  omega

theorem leap_iff {year : Nat} (few : year < 2000) :
    (BitVec.ofNat 32 year + 1900) % 4 = 0 ∧
        ((BitVec.ofNat 32 year + 1900) % 100 ≠ 0 ∨ (BitVec.ofNat 32 year + 1900) % 400 = 0) ↔
      LeapYear (1900 + year) := by
  have whole : (BitVec.ofNat 32 year + 1900).toNat = 1900 + year := by
    have base : (1900 : BitVec 32).toNat = 1900 := rfl
    rw [BitVec.toNat_add, BitVec.toNat_ofNat, base]
    omega
  have rest : ∀ n : BitVec 32,
      (BitVec.ofNat 32 year + 1900) % n = 0 ↔ (1900 + year) % n.toNat = 0 := by
    intro n
    rw [← BitVec.toNat_inj, BitVec.toNat_umod, whole]
    rfl
  unfold LeapYear
  rw [Ne, rest, rest, rest]
  rfl

theorem calcTimeT_eq {tm : Tm} (since : 70 ≤ tm.year) (few : tm.year < 1000) (mon : tm.mon < 12) :
    calcTimeT tm = BitVec.ofNat 32
      ((total gmtimeDays (tm.year - 70) + total (monthDays (LeapYear (1900 + tm.year))) tm.mon +
        (tm.mday - 1)) * 86400 + tm.hour * 3600 + tm.min * 60 + tm.sec) := by
  obtain ⟨y, y_⟩ : ∃ y, tm.year = y + 70 := ⟨tm.year - 70, by omega⟩
  unfold calcTimeT
  dsimp only
  rw [monthDays_total _ mon, gmtimeDays_total, monthSec_eq mon]
  simp only [leap_iff (show tm.year < 2000 by omega)]
  rw [y_, year_eq, leaps_eq (by omega), Nat.add_sub_cancel]
  have year : (365 : BitVec 32) = BitVec.ofNat 32 365 := rfl
  have day : SEC_PER_DAY = BitVec.ofNat 32 86400 := rfl
  have hour : SEC_PER_HOUR = BitVec.ofNat 32 3600 := rfl
  have minute : SEC_PER_MIN = BitVec.ofNat 32 60 := rfl
  rw [year, day, hour, minute]
  by_cases longer : tm.mon ≥ 2 ∧ LeapYear (1900 + (y + 70))
  · rw [if_pos longer, if_pos ⟨decide_eq_true longer.2, longer.1⟩]
    simp only [← BitVec.ofNat_mul, ← BitVec.ofNat_add]
    exact congrArg (BitVec.ofNat 32) (by omega)
  · rw [if_neg longer, if_neg (fun both => longer ⟨both.2, of_decide_eq_true both.1⟩)]
    simp only [← BitVec.ofNat_mul, ← BitVec.ofNat_add]
    exact congrArg (BitVec.ofNat 32) (by omega)

/-! ## There and back -/

section
variable {t : BitVec 32} {tm : Tm}

theorem Tm.Broken.years_lt (broken : tm.Broken t.toNat) : tm.year - 70 < 137 := by
  refine broken.year.lt_iff.mp ?_
  have := t.isLt
  rw [gmtimeDays_total]
  omega

theorem Tm.Broken.sum (broken : tm.Broken t.toNat) : t.toNat =
    (total gmtimeDays (tm.year - 70) + total (monthDays ((tm.year - 70 + 2) % 4 = 0)) tm.mon +
      (tm.mday - 1)) * 86400 + tm.hour * 3600 + tm.min * 60 + tm.sec := by
  have days := broken.year.sum
  have yday := broken.date.sum
  have time := broken.time
  omega

theorem Tm.Broken.back (broken : tm.Broken t.toNat) :
    calcTimeT tm = t ↔ ¬(tm.year = 200 ∧ 2 ≤ tm.mon) := by
  have years := broken.years_lt
  have since := broken.since
  have sum := broken.sum
  have t_lt := t.isLt
  rw [calcTimeT_eq since (by omega) broken.mon, ← BitVec.toNat_inj, BitVec.toNat_ofNat]
  rw [monthDays_total _ broken.mon] at sum ⊢
  simp only [decide_eq_true_eq] at sum ⊢
  have rules : LeapYear (1900 + tm.year) ↔ (tm.year - 70 + 2) % 4 = 0 ∧ tm.year ≠ 200 := by
    unfold LeapYear
    omega
  by_cases apart : tm.year = 200 ∧ 2 ≤ tm.mon
  · rw [if_pos ⟨by omega, apart.2⟩] at sum
    rw [if_neg (fun both => (rules.mp both.1).2 apart.1)]
    exact iff_of_false (by omega) (not_not.mpr apart)
  · have same : (LeapYear (1900 + tm.year) ∧ 2 ≤ tm.mon) ↔
        (tm.year - 70 + 2) % 4 = 0 ∧ 2 ≤ tm.mon := by
      rw [rules]
      omega
    rw [if_congr same rfl rfl, ← sum, Nat.mod_eq_of_lt t_lt]
    exact iff_of_true rfl apart

/-- When `_gmtime` is past February 2100, in that year -/
theorem Tm.Broken.late_iff (broken : tm.Broken t.toNat) :
    tm.year = 200 ∧ 2 ≤ tm.mon ↔ 4107628800 ≤ t.toNat ∧ t.toNat < 4134067200 := by
  have since := broken.since
  have first : t.toNat / 86400 < total gmtimeDays 130 ↔ tm.year - 70 < 130 := broken.year.lt_iff
  have last : t.toNat / 86400 < total gmtimeDays 131 ↔ tm.year - 70 < 131 := broken.year.lt_iff
  rw [gmtimeDays_total] at first last
  have months : total (monthDays ((tm.year - 70 + 2) % 4 = 0)) 2 =
      59 + if (tm.year - 70 + 2) % 4 = 0 then 1 else 0 := by
    rw [monthDays_total _ (by decide)]
    simp only [decide_eq_true_eq, le_refl, and_true]
    rfl
  have march : tm.yday < total (monthDays ((tm.year - 70 + 2) % 4 = 0)) 2 ↔ tm.mon < 2 :=
    broken.date.lt_iff
  have sum := broken.year.sum
  rw [gmtimeDays_total] at sum
  rw [months] at march
  constructor
  · rintro ⟨year, mon⟩
    rw [if_pos (by omega)] at march
    omega
  · rintro ⟨from_, until_⟩
    have year : tm.year = 200 := by omega
    rw [if_pos (by omega)] at march
    omega

end

/-! ## Dates of the calendar -/

/-- The date is before March 2100. -/
def Tm.Early (tm : Tm) : Prop := tm.year < 200 ∨ tm.year = 200 ∧ tm.mon < 2

theorem gregorianYear_late {k : Nat} (few : k < 99) :
    total gregorianYear (131 + k) + 1 = total gmtimeDays (131 + k) := by
  induction k with
  | zero =>
    have last : gregorianYear 130 + 1 = gmtimeDays 130 := rfl
    have same := gregorianYear_total (Nat.le_refl 130)
    change total gregorianYear (130 + 1) + 1 = total gmtimeDays (130 + 1)
    rw [total_succ gregorianYear 130, total_succ gmtimeDays 130]
    omega
  | succ k ih =>
    have same : gregorianYear (131 + k) = gmtimeDays (131 + k) := by
      have rules : LeapYear (1970 + (131 + k)) ↔ (131 + k + 2) % 4 = 0 := by
        unfold LeapYear
        omega
      unfold gregorianYear gmtimeDays
      rw [if_congr rules rfl rfl]
    have earlier := ih (by omega)
    rw [← Nat.add_assoc, total, total]
    omega

section
variable {t : BitVec 32} {tm : Tm}

theorem rules_2100 (year : tm.year = 200) :
    decide (LeapYear (1900 + tm.year)) = false ∧ decide ((tm.year - 70 + 2) % 4 = 0) = true := by
  rw [year]
  decide

/-- What `_gmtime` gives from March 2100 on is no date of the calendar: the day is one too early,
or later the weekday is that of the next day. -/
theorem Tm.Broken.early (broken : tm.Broken t.toNat) (valid : tm.Valid) : tm.Early := by
  have years := broken.years_lt
  have since := broken.since
  by_contra late
  unfold Tm.Early at late
  rcases Nat.lt_or_eq_of_le (show 200 ≤ tm.year by omega) with after | year
  · have wday := broken.wday.symm.trans valid.wday
    have sum := broken.year.sum
    have days := gregorianYear_late (k := tm.year - 201) (by omega)
    rw [show 131 + (tm.year - 201) = tm.year - 70 by omega] at days
    unfold Tm.days at wday
    omega
  · have date := broken.date.sum.symm.trans valid.date.sum
    obtain ⟨short, long⟩ := rules_2100 year.symm
    rw [short, long, monthDays_total true broken.mon, if_pos ⟨rfl, by omega⟩] at date
    omega

theorem Tm.Early.date_iff (early : tm.Early) (since : 70 ≤ tm.year) {r : Nat}
    (february : tm.year = 200 → tm.mon = 1 → r < 28) :
    At (monthDays (LeapYear (1900 + tm.year))) tm.yday tm.mon r ↔
      At (monthDays ((tm.year - 70 + 2) % 4 = 0)) tm.yday tm.mon r := by
  rcases early with before | ⟨year, mon⟩
  · have rules : LeapYear (1900 + tm.year) ↔ (tm.year - 70 + 2) % 4 = 0 := by
      unfold LeapYear
      omega
    rw [decide_eq_decide.mpr rules]
  · have one : tm.mon = 0 ∨ tm.mon = 1 := by omega
    obtain ⟨short, long⟩ := rules_2100 year
    rw [short, long]
    rcases one with mon | mon
    · rw [mon]
      exact ⟨fun place => ⟨place.sum, place.within⟩, fun place => ⟨place.sum, place.within⟩⟩
    · have few := february year mon
      rw [mon]
      exact ⟨fun place => ⟨place.sum, few.trans (by decide)⟩, fun place => ⟨place.sum, few⟩⟩

theorem Tm.Early.years_total (early : tm.Early) (since : 70 ≤ tm.year) :
    total gregorianYear (tm.year - 70) = total gmtimeDays (tm.year - 70) :=
  gregorianYear_total (by unfold Tm.Early at early; omega)

/-- `calc_time_t` is right up to February 2100. -/
theorem Tm.Valid.seconds_eq (valid : tm.Valid) (early : tm.Early) (range : tm.seconds < 2 ^ 32) :
    (calcTimeT tm).toNat = tm.seconds := by
  have few : tm.year < 1000 := by
    unfold Tm.Early at early
    omega
  have yday := valid.date.sum
  rw [calcTimeT_eq valid.since few valid.mon, BitVec.toNat_ofNat,
    ← early.years_total valid.since, Nat.add_assoc (total gregorianYear _), ← yday]
  exact Nat.mod_eq_of_lt range

/-- Such a date is what `_gmtime` gives for its second. -/
theorem Tm.Valid.broken (valid : tm.Valid) (early : tm.Early) : tm.Broken tm.seconds := by
  obtain ⟨sec, min, hour⟩ := valid.clock
  have since := valid.since
  have day : tm.seconds / 86400 = tm.days := by
    unfold Tm.seconds
    omega
  have date : At (monthDays ((tm.year - 70 + 2) % 4 = 0)) tm.yday tm.mon (tm.mday - 1) := by
    refine (early.date_iff since fun year mon => ?_).mp valid.date
    have within := valid.date.within
    rw [(rules_2100 year).1, mon] at within
    exact within
  have within := date.lt_iff.mpr valid.mon
  rw [monthDays_year] at within
  refine ⟨valid.clock, since, valid.mon, valid.mday, ?_, ?_, date, ?_⟩
  · unfold Tm.seconds
    omega
  · refine ⟨?_, ?_⟩
    · rw [day, Tm.days, early.years_total since]
    · simpa only [gmtimeDays, decide_eq_true_eq] using within
  · rw [day]
    exact valid.wday

/-- And what `_gmtime` gives for such a second is a date of the calendar. -/
theorem Tm.Broken.valid (broken : tm.Broken t.toNat) (before : t.toNat < 4107542400) :
    tm.Valid ∧ tm.seconds = t.toNat := by
  have since := broken.since
  have first : t.toNat / 86400 < total gmtimeDays 130 ↔ tm.year - 70 < 130 := broken.year.lt_iff
  have last : t.toNat / 86400 < total gmtimeDays 131 ↔ tm.year - 70 < 131 := broken.year.lt_iff
  rw [gmtimeDays_total] at first last
  have sum := broken.year.sum
  have february : tm.year = 200 → tm.yday < 59 := by
    intro year
    rw [year, gmtimeDays_total] at sum
    omega
  have early : tm.Early := by
    rcases Nat.lt_or_ge tm.year 200 with before_ | after
    · exact Or.inl before_
    · have year : tm.year = 200 := by omega
      have march := broken.date.lt_iff (j := 2)
      rw [(rules_2100 year).2] at march
      exact Or.inr ⟨year, march.mp ((february year).trans (by decide))⟩
  have days : tm.days = t.toNat / 86400 := by
    rw [Tm.days, early.years_total since, sum]
  refine ⟨⟨broken.clock, since, broken.mon, broken.mday, ?_, ?_⟩, ?_⟩
  · refine (early.date_iff since fun year mon => ?_).mpr broken.date
    have yday := broken.date.sum
    have january : total (monthDays true) 1 = 31 := rfl
    have few := february year
    rw [(rules_2100 year).2, mon, january] at yday
    omega
  · rw [days]
    exact broken.wday
  · have time := broken.time
    unfold Tm.seconds
    omega

theorem Tm.Early.seconds_lt (early : tm.Early) (valid : tm.Valid) : tm.seconds < 4107542400 := by
  have since := valid.since
  obtain ⟨sec, min, hour⟩ := valid.clock
  have within := valid.date.lt_iff.mpr valid.mon
  rw [monthDays_year] at within
  have days : tm.days < 47541 := by
    rw [Tm.days, early.years_total since, gmtimeDays_total]
    rcases early with before | ⟨year, mon⟩
    · have leap : (LeapYear (1900 + tm.year)) → (tm.year - 70 + 2) % 4 = 0 := by
        unfold LeapYear
        omega
      simp only [decide_eq_true_eq] at within
      split at within <;> omega
    · have march := valid.date.lt_iff.mpr mon
      have february : total (monthDays false) 2 = 59 := rfl
      rw [(rules_2100 year).1, february] at march
      omega
  unfold Tm.seconds
  omega

end

/-- The two conversions invert each other up to February 2100. From March 2100 on `_gmtime` gives no
date of the calendar, and through the rest of that year not one that `calc_time_t` takes back. -/
theorem calendar_iff (t : BitVec 32) (tm : Tm) (valid : tm.Valid) (range : tm.seconds < 2 ^ 32) :
    (calcTimeT (gmtime t) = t ↔ t.toNat < 4107628800 ∨ 4134067200 ≤ t.toNat) ∧
      ((gmtime t).Valid ∧ (gmtime t).seconds = t.toNat ↔ t.toNat < 4107542400) ∧
      (gmtime (calcTimeT tm) = tm ↔ tm.Early) := by
  have broken := gmtime_broken t
  refine ⟨?_, ⟨fun right => ?_, broken.valid⟩, fun back => ?_, fun early => ?_⟩
  · rw [broken.back, broken.late_iff]
    omega
  · have late := (broken.early right.1).seconds_lt right.1
    omega
  · exact Tm.Broken.early (back ▸ gmtime_broken (calcTimeT tm)) valid
  · refine (gmtime_broken (calcTimeT tm)).unique ?_
    rw [valid.seconds_eq early range]
    exact valid.broken early

theorem days_2100 {tm : Tm} (year : tm.year = 200) : tm.days = 47482 + tm.yday := by
  rw [Tm.days, year, gregorianYear_total (by decide), gmtimeDays_total]

/-- The last second of February 2100 -/
def lastSecond : Tm := ⟨59, 59, 23, 28, 1, 200, 0, 58⟩

/-- The first one of March -/
def firstSecond : Tm := ⟨0, 0, 0, 1, 2, 200, 1, 59⟩

theorem lastSecond_valid : lastSecond.Valid ∧ lastSecond.seconds = 4107542399 := by
  have days : lastSecond.days = 47540 := days_2100 rfl
  refine ⟨⟨⟨by decide, by decide, by decide⟩, by decide, by decide, by decide,
    ⟨by decide, by decide⟩, ?_⟩, ?_⟩
  · rw [days]
    rfl
  · rw [Tm.seconds, days]
    rfl

theorem firstSecond_valid : firstSecond.Valid ∧ firstSecond.seconds = 4107542400 := by
  have days : firstSecond.days = 47541 := days_2100 rfl
  refine ⟨⟨⟨by decide, by decide, by decide⟩, by decide, by decide, by decide,
    ⟨by decide, by decide⟩, ?_⟩, ?_⟩
  · rw [days]
    rfl
  · rw [Tm.seconds, days]
    rfl

/-- Up to that second all is well. -/
theorem calendar_lastSecond :
    calcTimeT (gmtime 4107542399) = 4107542399 ∧ (gmtime 4107542399).Valid ∧
      gmtime (calcTimeT lastSecond) = lastSecond := by
  obtain ⟨valid, seconds⟩ := lastSecond_valid
  obtain ⟨there, right, back⟩ :=
    calendar_iff 4107542399 lastSecond valid (seconds.trans_lt (by decide))
  exact ⟨there.mpr (Or.inl (by decide)), (right.mpr (by decide)).1,
    back.mpr (Or.inr ⟨rfl, by decide⟩)⟩

/-- The day after it is 29 February for `_gmtime`, and the next one 1 March, which `calc_time_t`
takes for the day before. -/
theorem calendar_2100 :
    (¬∀ t, calcTimeT (gmtime t) = t) ∧ firstSecond.Valid ∧ firstSecond.seconds = 4107542400 ∧
      gmtime (calcTimeT firstSecond) ≠ firstSecond := by
  obtain ⟨valid, seconds⟩ := firstSecond_valid
  refine ⟨fun all => ?_, valid, seconds, fun back => ?_⟩
  · have broken := gmtime_broken 4107628800
    exact broken.back.mp (all 4107628800) (broken.late_iff.mpr ⟨by decide, by decide⟩)
  · have early := Tm.Broken.early (back ▸ gmtime_broken (calcTimeT firstSecond)) valid
    exact absurd (early.seconds_lt valid) (by rw [seconds]; decide)

end Mx6xBsp.Startup
