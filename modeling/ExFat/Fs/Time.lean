import ExFat.Fs.Types

namespace ExFat

/-!
# `time.c`

Timestamps are stored in local time as a date, a time of two seconds' resolution, a number of
centiseconds and an offset from UTC in quarters of an hour.  `tz` is `exfat_timezone`, the offset of
the local time in seconds, positive to the west.
-/

/-- `SEC_IN_MIN`. -/
def secInMin : Int := 60
/-- `SEC_IN_HOUR`. -/
def secInHour : Int := 60 * secInMin
/-- `SEC_IN_DAY`. -/
def secInDay : Int := 24 * secInHour
/-- `SEC_IN_YEAR`. -/
def secInYear : Int := 365 * secInDay

/-- `EXFAT_EPOCH_YEAR`. -/
def exfatEpochYear : Int := 1980

/-- `EPOCH_DIFF_SEC`. -/
def epochDiffSec : Int := (10 * 365 + 10 / 4) * secInDay

/-- `LEAP_YEARS`: the leap years from the epoch to the year, without the year itself. -/
def leapYears (year : Int) : Int := (exfatEpochYear + year - 1).tdiv 4 - (exfatEpochYear - 1) / 4

/-- `IS_LEAP_YEAR`. -/
def isLeapYear (year : Int) : Bool := (exfatEpochYear + year).tmod 4 == 0

/-- `days_in_year`. -/
def daysInYear : List Int := [0, 0, 31, 59, 90, 120, 151, 181, 212, 243, 273, 304, 334]

/-- The value of the bits of a byte read as `int8_t`. -/
def int8 (n : Nat) : Int := if n % 256 < 128 then (n % 256 : Nat) else (n % 256 : Nat) - 256

/-- The value of a number stored into an `int`. -/
def int32 (n : Int) : Int := Int.bmod n (2 ^ 32)

/-- The value of a number stored into a `uint16_t`. -/
def uint16 (n : Int) : Nat := (n % 2 ^ 16).toNat

/-- `exfat_exfat2unix`; `none` is the result 0 after an error message. -/
def exfat2unix (tz : Int) (date time centisec tzoffset : Nat) : Option Int :=
  let day := date &&& 0x1f
  let month := date >>> 5 &&& 0xf
  let year := date >>> 9
  let twosec := time &&& 0x1f
  let min := time >>> 5 &&& 0x3f
  let hour := time >>> 11
  if day = 0 ∨ month = 0 ∨ month > 12 then none
  else if hour > 23 ∨ min > 59 ∨ twosec > 29 then none
  else if centisec > 199 then none
  else
    let days : Int := year * 365 + leapYears year + daysInYear.getD month 0 +
      (if isLeapYear year ∧ month > 2 then 1 else 0) + (day - 1)
    let unixTime := epochDiffSec + days * secInDay + hour * secInHour + min *
      secInMin + twosec * 2 +
      (centisec / 100 : Nat)
    -- the lower seven bits are a signed offset, if the uppermost says that there is one
    some (if tzoffset &&& 0x80 ≠ 0 then unixTime - (int8 (tzoffset <<< 1) * 15 * 60).tdiv 2
      else unixTime + tz)

/-- The loop of `exfat_unix2exfat` over the months from `i` on: the month and the days left. -/
def findMonth (year days : Int) : (fuel i : Nat) → Nat × Int
  | 0, i => (i, days)
  | fuel + 1, i =>
    let leapDay : Int := if isLeapYear year ∧ i = 2 then 1 else 0
    let leapSub : Int := if isLeapYear year ∧ i ≥ 3 then 1 else 0
    if i = 12 ∨ days - leapSub < daysInYear.getD (i + 1) 0 + leapDay then
      (i, days - (daysInYear.getD i 0 + leapSub))
    else findMonth year days fuel (i + 1)

/-- The four fields of a timestamp. -/
structure ExfatTime where
  date : Nat
  time : Nat
  centisec : Nat
  tzoffset : Nat
  deriving DecidableEq, Repr

/-- `exfat_unix2exfat`. -/
def unix2exfat (tz unixTime : Int) : ExfatTime :=
  let shift := epochDiffSec + tz
  -- time before exFAT epoch cannot be represented
  let t := max unixTime shift - shift
  let days := int32 (t / secInDay)
  let year := uint16 ((int32 (4 * days)).tdiv (4 * 365 + 1))
  let month := findMonth year (int32 (days - (year * 365 + leapYears year))) 12 1
  let day := uint16 (month.2 + 1)
  let hour := (t % secInDay / secInHour).toNat
  let min := (t % secInHour / secInMin).toNat
  let twosec := (t % secInMin / 2).toNat
  { date := (day ||| month.1 <<< 5 ||| year <<< 9) % 2 ^ 16
    time := (twosec ||| min <<< 5 ||| hour <<< 11) % 2 ^ 16
    centisec := (t % 2).toNat * 100
    tzoffset := (((-tz).tdiv 60).tdiv 15 % 256).toNat ||| 0x80 }

end ExFat
