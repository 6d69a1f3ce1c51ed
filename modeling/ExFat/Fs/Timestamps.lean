import ExFat.Fs.Time
import Mathlib.Data.Nat.Bitwise
import Mathlib.Tactic.IntervalCases

namespace ExFat

/-!
# Timestamps there and back

A timestamp holds the local time from 1980 on, for 128 years of which every fourth one is a leap
year. Within this time what is stored is read as it was, to the second or to two seconds.  Earlier
times are stored as the first one; nothing of the kind is done for later times, which are stored as
times within the 128 years.
-/

/-! ### The calendar -/

/-- The days from the epoch to a day of the calendar. -/
def dayNumber (year month day : Nat) : Int :=
  year * 365 + leapYears year + daysInYear.getD month 0 +
    (if isLeapYear year ∧ month > 2 then 1 else 0) + (day - 1)

/-- The years that a date can say, in days. -/
def calendarDays : Int := 128 * 365 + 32

/-- The month is looked for in a leap year or in another one. -/
theorem findMonth_congr {year year' : Int} (h : isLeapYear year = isLeapYear year') (days : Int)
    (fuel i : Nat) : findMonth year days fuel i = findMonth year' days fuel i := by
  induction fuel generalizing i with
  | zero => rfl
  | succ fuel ih =>
    unfold findMonth
    rw [h, ih]

/-- What the loop finds for the day `r` of a year. -/
def MonthFound (leap : Bool) (r : Int) (found : Nat × Int) : Prop :=
  1 ≤ found.1 ∧ found.1 ≤ 12 ∧ 0 ≤ found.2 ∧ found.2 ≤ 30 ∧
    daysInYear.getD found.1 0 + (if leap ∧ found.1 > 2 then 1 else 0) + found.2 = r

instance (leap : Bool) (r : Int) (found : Nat × Int) : Decidable (MonthFound leap r found) := by
  unfold MonthFound
  infer_instance

/-- The loop over the months is right for every day of the year. -/
theorem monthFound_table :
    ∀ r : Nat, r < 366 → MonthFound true r (findMonth 0 r 12 1) ∧
      (r < 365 → MonthFound false r (findMonth 1 r 12 1)) := by
  decide +kernel

/-- The loop over the months finds the month of a day. -/
theorem monthFound_findMonth {year r : Int} (h₀ : 0 ≤ r)
    (h : r < 365 + if isLeapYear year then 1 else 0) :
    MonthFound (isLeapYear year) r (findMonth year r 12 1) := by
  obtain ⟨n, rfl⟩ := Int.eq_ofNat_of_zero_le h₀
  cases hleap : isLeapYear year with
  | true =>
    rw [hleap] at h
    rw [findMonth_congr (hleap.trans (by decide) : isLeapYear year = isLeapYear 0)]
    exact (monthFound_table n (by simpa using h)).1
  | false =>
    rw [hleap] at h
    rw [findMonth_congr (hleap.trans (by decide) : isLeapYear year = isLeapYear 1)]
    have hn : n < 365 := by simpa using h
    exact (monthFound_table n (by omega)).2 (by simpa using h)

/-- Every fourth year from 1980 on is taken for a leap year. -/
theorem isLeapYear_natCast (year : Nat) : isLeapYear year = decide (year % 4 = 0) := by
  have hmod : (exfatEpochYear + (year : Int)).tmod 4 = ((1980 + year) % 4 : Nat) := by
    rw [show exfatEpochYear + (year : Int) = ((1980 + year : Nat) : Int) by rfl]
    rfl
  unfold isLeapYear
  rw [hmod, Bool.eq_iff_iff, beq_iff_eq, decide_eq_true_iff]
  omega

/-- The leap years before a year. -/
theorem leapYears_natCast (year : Nat) : leapYears year = ((year + 3) / 4 : Nat) := by
  have hdiv : (exfatEpochYear + (year : Int) - 1).tdiv 4 = ((1979 + year) / 4 : Nat) := by
    rw [show exfatEpochYear + (year : Int) - 1 = ((1979 + year : Nat) : Int) by
      unfold exfatEpochYear
      omega]
    rfl
  unfold leapYears
  rw [hdiv]
  unfold exfatEpochYear
  omega

/-- The year, and the day of the year, that `exfat_unix2exfat` finds. -/
theorem year_spec {days : Nat} (h : (days : Int) < calendarDays) :
    4 * days / 1461 < 128 ∧ (4 * days / 1461 : Nat) * 365 + leapYears (4 * days / 1461 : Nat) ≤
    (days : Int) ∧
      (days : Int) - ((4 * days / 1461 : Nat) * 365 + leapYears (4 * days / 1461 : Nat)) <
        365 + if isLeapYear (4 * days / 1461 : Nat) then 1 else 0 := by
  unfold calendarDays at h
  rw [leapYears_natCast, isLeapYear_natCast]
  generalize hyear : 4 * days / 1461 = year
  refine ⟨by omega, by omega, ?_⟩
  by_cases hleap : year % 4 = 0
  · rw [if_pos (by simpa using hleap)]
    omega
  · rw [if_neg (by simpa using hleap)]
    have hnext : (year + 3) / 4 = year / 4 + 1 := by omega
    rw [hnext]
    omega

/-! ### Packed fields -/

/-- Three numbers side by side, the lowest one in five bits. -/
theorem packed_eq {a b k : Nat} (ha : a < 2 ^ 5) (hb : b < 2 ^ k) (c : Nat) :
    a ||| b <<< 5 ||| c <<< (5 + k) = c * 2 ^ (5 + k) + b * 2 ^ 5 + a := by
  have hlow : a ||| b <<< 5 = b * 2 ^ 5 + a := by
    rw [Nat.or_comm, ← Nat.shiftLeft_add_eq_or_of_lt ha, Nat.shiftLeft_eq]
  have hlt : b * 2 ^ 5 + a < 2 ^ (5 + k) := by
    have hpow : (2 : Nat) ^ (5 + k) = 2 ^ k * 2 ^ 5 := by rw [Nat.pow_add, Nat.mul_comm]
    omega
  rw [hlow, Nat.or_comm, ← Nat.shiftLeft_add_eq_or_of_lt hlt, Nat.shiftLeft_eq, Nat.add_assoc]

/-- The offset that `exfat_exfat2unix` subtracts. -/
def zoneSeconds (tzoffset : Nat) : Int := (int8 (tzoffset <<< 1) * 15 * 60).tdiv 2

/-- The seconds that a date and a time of the calendar stand for, in local time. -/
def localSeconds (year month day hour min twosec : Nat) : Int :=
  epochDiffSec + dayNumber year month day * secInDay + hour * secInHour + min *
    secInMin + twosec * 2

/-- The fields of a date are read back from its bits. -/
theorem dateFields {month day : Nat} (year : Nat) (hmonth : month ≤ 12) (hday : day ≤ 31) :
    (year * 2 ^ 9 + month * 2 ^ 5 + day) &&& 0x1f = day ∧
      (year * 2 ^ 9 + month * 2 ^ 5 + day) >>> 5 &&& 0xf = month ∧
      (year * 2 ^ 9 + month * 2 ^ 5 + day) >>> 9 = year := by
  refine ⟨?_, ?_, ?_⟩
  · rw [show 0x1f = 2 ^ 5 - 1 by rfl, Nat.and_two_pow_sub_one_eq_mod]
    omega
  · rw [show 0xf = 2 ^ 4 - 1 by rfl, Nat.and_two_pow_sub_one_eq_mod, Nat.shiftRight_eq_div_pow]
    omega
  · rw [Nat.shiftRight_eq_div_pow]
    omega

/-- The fields of a time are read back from its bits. -/
theorem timeFields {min twosec : Nat} (hour : Nat) (hmin : min ≤ 59) (htwosec : twosec ≤ 29) :
    (hour * 2 ^ 11 + min * 2 ^ 5 + twosec) &&& 0x1f = twosec ∧
      (hour * 2 ^ 11 + min * 2 ^ 5 + twosec) >>> 5 &&& 0x3f = min ∧
      (hour * 2 ^ 11 + min * 2 ^ 5 + twosec) >>> 11 = hour := by
  refine ⟨?_, ?_, ?_⟩
  · rw [show 0x1f = 2 ^ 5 - 1 by rfl, Nat.and_two_pow_sub_one_eq_mod]
    omega
  · rw [show 0x3f = 2 ^ 6 - 1 by rfl, Nat.and_two_pow_sub_one_eq_mod, Nat.shiftRight_eq_div_pow]
    omega
  · rw [Nat.shiftRight_eq_div_pow]
    omega

/-- What is read from fields within their ranges. -/
theorem exfat2unix_packed {year month day hour min twosec centisec tzoffset : Nat} (tz : Int)
    (hmonth : 1 ≤ month ∧ month ≤ 12) (hday : 1 ≤ day ∧ day ≤ 31) (hhour : hour ≤ 23)
    (hmin : min ≤ 59) (htwosec : twosec ≤ 29) (hcentisec : centisec ≤ 199)
    (hzone : tzoffset &&& 0x80 ≠ 0) :
    exfat2unix tz (year * 2 ^ 9 + month * 2 ^ 5 + day)
      (hour * 2 ^ 11 + min * 2 ^ 5 + twosec) centisec
      tzoffset = some (localSeconds year month day hour min twosec + (centisec / 100 : Nat) -
        zoneSeconds tzoffset) := by
  obtain ⟨hd, hm, hy⟩ := dateFields year hmonth.2 hday.2
  obtain ⟨hs, hi, hh⟩ := timeFields hour hmin htwosec
  unfold exfat2unix
  dsimp only
  rw [hd, hm, hy, hs, hi, hh, if_neg (by omega), if_neg (by omega), if_neg (by omega), if_pos hzone]
  rfl

/-! ### Writing and reading -/

/-- The first second that can be stored. -/
def firstTime (tz : Int) : Int := epochDiffSec + tz

/-- The last second that can be stored. -/
def lastTime (tz : Int) : Int := epochDiffSec + tz + calendarDays * secInDay - 1

/-- A number below 2^31 is stored in 32 bits with a sign. -/
theorem int32_of_lt {n : Int} (h₀ : 0 ≤ n) (h : n < 2 ^ 31) : int32 n = n := by
  unfold int32
  exact Int.bmod_eq_of_le (by omega) (by omega)

/-- A number below 2^16 is stored in 16 bits. -/
theorem uint16_natCast {n : Nat} (h : n < 2 ^ 16) : uint16 n = n := by
  unfold uint16
  omega

/-- The offset byte. -/
def zoneByte (tz : Int) : Nat := (((-tz).tdiv 60).tdiv 15 % 256).toNat ||| 0x80

/-- The byte for the time zone has its valid bit set. -/
theorem zoneByte_and (tz : Int) : zoneByte tz &&& 0x80 ≠ 0 := by
  have hbit : (zoneByte tz).testBit 7 = true := by
    unfold zoneByte
    rw [Nat.testBit_or]
    simp [show (128 : Nat).testBit 7 = true by rfl]
  intro h
  have hand : (zoneByte tz &&& 0x80).testBit 7 = true := by
    rw [Nat.testBit_and, hbit]
    rfl
  rw [h] at hand
  cases hand

/-- The fields of a time that can be stored. -/
theorem unix2exfat_eq {tz t : Int} (h : firstTime tz ≤ t) (h' : t ≤ lastTime tz) :
    ∃ year month day hour min twosec : Nat, 1 ≤ month ∧ month ≤ 12 ∧ 1 ≤ day ∧
    day ≤ 31 ∧ hour ≤ 23 ∧ min ≤ 59 ∧ twosec ≤ 29 ∧
      localSeconds year month day hour min twosec + (t - firstTime tz) % 2 + tz = t ∧
      unix2exfat tz t = ⟨year * 2 ^ 9 + month * 2 ^ 5 + day, hour * 2 ^ 11 + min * 2 ^ 5 + twosec,
        ((t - firstTime tz) % 2).toNat * 100, zoneByte tz⟩ := by
  unfold firstTime at h ⊢
  unfold lastTime at h'
  have hspan : t - (epochDiffSec + tz) < calendarDays * secInDay := by omega
  -- the seconds since the first time that can be stored
  obtain ⟨s, hs⟩ := Int.eq_ofNat_of_zero_le (show 0 ≤ t - (epochDiffSec + tz) by omega)
  rw [hs] at hspan
  have hmax : max t (epochDiffSec + tz) - (epochDiffSec + tz) = s := by rw [max_eq_left h, hs]
  have hdays : (s : Int) / secInDay = (s / 86400 : Nat) := rfl
  have hlt : ((s / 86400 : Nat) : Int) < calendarDays := by
    unfold calendarDays secInDay secInHour secInMin at hspan
    unfold calendarDays
    omega
  have hsmall : s / 86400 < 2 ^ 16 := by
    unfold calendarDays at hlt
    omega
  -- the year is a quotient of the days; the month is searched within it
  obtain ⟨hyear, hle, hrest⟩ := year_spec hlt
  generalize hy : 4 * (s / 86400) / 1461 = year at hyear hle hrest
  generalize hr : ((s / 86400 : Nat) : Int) - ((year : Int) * 365 + leapYears year) = r at hrest
  obtain ⟨hm₁, hm₂, hd₁, hd₂, hday⟩ := monthFound_findMonth (by omega : 0 ≤ r) hrest
  generalize hfound : findMonth year r 12 1 = found at hm₁ hm₂ hd₁ hd₂ hday
  obtain ⟨month, d⟩ := found
  obtain ⟨day, rfl⟩ := Int.eq_ofNat_of_zero_le hd₁
  have hr₃₂ : int32 r = r := by
    refine int32_of_lt (by omega) (hrest.trans ?_)
    split <;> decide
  -- the source computes in 16 bits, and everything fits
  have hyear₁₆ : uint16 ((int32 (4 * ((s / 86400 : Nat) : Int))).tdiv (4 * 365 + 1)) = year := by
    rw [int32_of_lt (by omega) (by omega)]
    rw [show (4 : Int) * ((s / 86400 : Nat) : Int) = ((4 * (s / 86400) : Nat) : Int) by
      push_cast; rfl]
    rw [show ((4 * (s / 86400) : Nat) : Int).tdiv (4 * 365 + 1) =
      (4 * (s / 86400) / 1461 : Nat) from rfl, hy]
    exact uint16_natCast (by omega)
  have hday₁₆ : uint16 ((day : Int) + 1) = day + 1 := uint16_natCast (n := day + 1) (by omega)
  refine ⟨year, month, day + 1, s % 86400 / 3600, s % 3600 / 60, s % 60 / 2, hm₁,
    hm₂, by omega, by omega,
    by omega, by omega, by omega, ?_, ?_⟩
  -- the fields name the day they were found from
  · have hnumber : dayNumber year month (day + 1) = (s / 86400 : Nat) := by
      unfold dayNumber
      push_cast at hday ⊢
      omega
    unfold localSeconds
    rw [hnumber, hs]
    unfold secInDay secInHour secInMin
    omega
  -- and they are packed as the two words of the entry
  · unfold unix2exfat
    dsimp only
    rw [hmax, hdays, int32_of_lt (n := ((s / 86400 : Nat) : Int)) (Int.natCast_nonneg _) (by omega),
      hyear₁₆, hr, hr₃₂, hfound, hs, ExfatTime.mk.injEq]
    refine ⟨?_, ?_, rfl, rfl⟩
    · rw [hday₁₆, packed_eq (k := 4) (by omega) (by omega) year]
      omega
    · have hhour : ((s : Int) % secInDay / secInHour).toNat = s % 86400 / 3600 := rfl
      have hmin : ((s : Int) % secInHour / secInMin).toNat = s % 3600 / 60 := rfl
      have htwosec : ((s : Int) % secInMin / 2).toNat = s % 60 / 2 := rfl
      rw [hhour, hmin, htwosec, packed_eq (k := 6) (by omega) (by omega)]
      omega

/-- What is read is the second that was stored, shifted by what the offset byte loses. -/
theorem exfat2unix_unix2exfat {tz t : Int} (h : firstTime tz ≤ t) (h' : t ≤ lastTime tz) :
    let stored := unix2exfat tz t
    exfat2unix tz stored.date stored.time stored.centisec stored.tzoffset =
        some (t - tz - zoneSeconds (zoneByte tz)) ∧
      exfat2unix tz stored.date stored.time 0 stored.tzoffset =
        some (t - (t - firstTime tz) % 2 - tz - zoneSeconds (zoneByte tz)) := by
  obtain ⟨year, month, day, hour, min, twosec, hm₁, hm₂, hd₁, hd₂, hhour, hmin,
      htwosec, ht, hstored⟩ :=
    unix2exfat_eq h h'
  rw [hstored]
  dsimp only
  rw [exfat2unix_packed tz ⟨hm₁, hm₂⟩ ⟨hd₁, hd₂⟩ hhour hmin htwosec (by omega) (zoneByte_and tz),
    exfat2unix_packed tz ⟨hm₁, hm₂⟩ ⟨hd₁, hd₂⟩ hhour hmin htwosec (by omega) (zoneByte_and tz)]
  constructor
  · congr 1
    omega
  · congr 1
    omega

/-- Times before the first one are stored as the first one. -/
theorem unix2exfat_of_lt {tz t : Int} (h : t < firstTime tz) :
    unix2exfat tz t = unix2exfat tz (firstTime tz) := by
  unfold firstTime at h ⊢
  unfold unix2exfat
  dsimp only
  rw [max_eq_right h.le, max_self]

/-- The offset byte holds an offset of quarters of an hour between 16 hours to the east and to the
west. -/
theorem zoneSeconds_zoneByte {tz : Int} (hquarter : 900 ∣ tz) (hwest : -64 ≤ -tz / 900)
    (heast : -tz / 900 ≤ 63) : zoneSeconds (zoneByte tz) = -tz := by
  obtain ⟨k, rfl⟩ := hquarter
  have hrange : -63 ≤ k ∧ k ≤ 64 := by omega
  have htable : ∀ j : Fin 128, zoneSeconds (zoneByte (900 * ((j : Int) - 63))) =
      -(900 * ((j : Int) - 63)) := by
    decide +kernel
  have hk := htable ⟨(k + 63).toNat, by omega⟩
  have hj : (((k + 63).toNat : Nat) : Int) - 63 = k := by omega
  dsimp only at hk
  rw [hj] at hk
  exact hk

/-- What is read of a time that was stored, with the centiseconds or, as for the time of the last
access, without them. -/
def reread (tz : Int) (keep : Bool) (t : Int) : Option Int :=
  let stored := unix2exfat tz t
  exfat2unix tz stored.date stored.time (if keep then stored.centisec else 0) stored.tzoffset

/-- Between 1980 and the end of the 128th year a timestamp is read as it was written, to the second,
and to two seconds if the centiseconds are not kept; an earlier one is read as the first second of
1980. -/
theorem timestamp_roundTrip {tz t : Int} (hquarter : 900 ∣ tz) (hwest : -64 ≤ -tz / 900)
    (heast : -tz / 900 ≤ 63) :
    (firstTime tz ≤ t → t ≤ lastTime tz →
      reread tz true t = some t ∧ reread tz false t = some (t - (t - tz) % 2)) ∧
    (t < firstTime tz →
      reread tz true t = some (firstTime tz) ∧ reread tz false t = some (firstTime tz)) := by
  have hzone := zoneSeconds_zoneByte hquarter hwest heast
  have hfirst : firstTime tz ≤ lastTime tz := by
    unfold firstTime lastTime calendarDays secInDay secInHour secInMin
    omega
  refine ⟨fun h h' => ?_, fun h => ?_⟩
  · obtain ⟨hkept, hlost⟩ := exfat2unix_unix2exfat h h'
    rw [hzone] at hkept hlost
    have heven : (t - firstTime tz) % 2 = (t - tz) % 2 := by
      unfold firstTime epochDiffSec secInDay secInHour secInMin
      omega
    rw [heven] at hlost
    exact ⟨hkept.trans (by congr 1; omega), hlost.trans (by congr 1; omega)⟩
  · obtain ⟨hkept, hlost⟩ := exfat2unix_unix2exfat le_rfl hfirst
    rw [hzone] at hkept hlost
    unfold reread
    rw [unix2exfat_of_lt h]
    exact ⟨hkept.trans (by congr 1; omega), hlost.trans (by congr 1; omega)⟩

/-- The last second of February 2024, an odd one, an hour east of Greenwich. -/
theorem timestamp_roundTrip_leap :
    reread (-3600) true 1709247599 = some 1709247599 ∧
      reread (-3600) false 1709247599 = some 1709247598 :=
  (@timestamp_roundTrip (-3600) 1709247599 (by decide) (by decide) (by decide)).1
    (by decide) (by decide)

/-! ### The order of timestamps -/

/-- What is read of a time that was stored, or the epoch if that is refused. -/
def readBack (tz : Int) (keep : Bool) (t : Int) : Int := (reread tz keep t).getD 0

/-- Times up to `last` keep their order, and those that cannot be stored are stored as the first or
the last one that can. -/
def OrderKept (tz last : Int) : Prop :=
  ∀ (keep : Bool) (t t' : Int), t ≤ t' → t' ≤ last → readBack tz keep t ≤ readBack tz keep t' ∧
    readBack tz keep t' = readBack tz keep (max (firstTime tz) (min t' (lastTime tz)))

/-- A time inside the range is read back, up to its odd second. -/
theorem readBack_of_le {tz t : Int} (h : firstTime tz ≤ t) (h' : t ≤ lastTime tz) (keep : Bool) :
    readBack tz keep t = t - (if keep then 0 else (t - firstTime tz) % 2) - tz -
      zoneSeconds (zoneByte tz) := by
  obtain ⟨hkept, hlost⟩ := exfat2unix_unix2exfat h h'
  unfold readBack reread
  cases keep with
  | true =>
    simp only [if_true, hkept, Option.getD_some]
    omega
  | false =>
    simp only [Bool.false_eq_true, if_false, hlost, Option.getD_some]

/-- A time before the range is stored as the first time. -/
theorem readBack_max (tz : Int) (keep : Bool) (t : Int) :
    readBack tz keep (max (firstTime tz) t) = readBack tz keep t := by
  rcases le_or_gt (firstTime tz) t with h | h
  · rw [max_eq_right h]
  · unfold readBack reread
    rw [max_eq_left h.le, unix2exfat_of_lt h]

/-- The second behind the last one is stored as the first one. -/
theorem unix2exfat_lastTime_succ (tz : Int) :
    unix2exfat tz (lastTime tz + 1) = unix2exfat tz (firstTime tz) := by
  have hspan : max (lastTime tz + 1) (epochDiffSec + tz) - (epochDiffSec + tz) = 46752 * 86400 := by
    unfold lastTime calendarDays secInDay secInHour secInMin
    omega
  have hzero : max (firstTime tz) (epochDiffSec + tz) - (epochDiffSec + tz) = 0 := by
    unfold firstTime
    omega
  unfold unix2exfat
  dsimp only
  rw [hspan, hzero, ExfatTime.mk.injEq]
  exact ⟨by decide +kernel, by decide +kernel, by decide +kernel, rfl⟩

/-- The range of times is not empty. -/
theorem firstTime_lt_lastTime (tz : Int) : firstTime tz + 1 < lastTime tz := by
  unfold firstTime lastTime calendarDays secInDay secInHour secInMin
  omega

/-- The order of timestamps is kept as far as they can be stored, and no further. -/
theorem orderKept_iff (tz last : Int) : OrderKept tz last ↔ last ≤ lastTime tz := by
  have hfirst := firstTime_lt_lastTime tz
  constructor
  · intro h
    by_contra hlast
    obtain ⟨hle, -⟩ := h true (lastTime tz) (lastTime tz + 1) (by omega) (by omega)
    have hwrap : readBack tz true (lastTime tz + 1) = readBack tz true (firstTime tz) := by
      unfold readBack reread
      rw [unix2exfat_lastTime_succ]
    rw [hwrap, readBack_of_le (by omega) le_rfl, readBack_of_le le_rfl (by omega),
      if_pos rfl] at hle
    omega
  · intro hlast keep t t' hle hle'
    refine ⟨?_, ?_⟩
    · rw [← readBack_max tz keep t, ← readBack_max tz keep t', readBack_of_le (by omega) (by omega),
        readBack_of_le (by omega) (by omega)]
      split <;> omega
    · rw [min_eq_left (hle'.trans hlast), readBack_max]

/-- With every fourth year a leap year, the first second of 2108 is read as the first one of 1980.
-/
theorem not_orderKept : ¬ OrderKept 0 4354905600 ∧ readBack 0 true 4354905599 = 4354905599 ∧
    readBack 0 true 4354905600 = 315532800 := by
  have hlast : readBack 0 true 4354905599 = 4354905599 := by decide +kernel
  have hwrap : readBack 0 true 4354905600 = 315532800 := by decide +kernel
  refine ⟨fun h => ?_, hlast, hwrap⟩
  obtain ⟨hle, -⟩ := h true 4354905599 4354905600 (by decide) le_rfl
  rw [hlast, hwrap] at hle
  exact absurd hle (by decide)

end ExFat
