import Mathlib.Tactic.IntervalCases

/-! The real-time clock (devices/rtc.c), against the Gregorian calendar. `cmos n` are the registers
at the n-th read; int is as wide as the numbers need, time_t counts modulo `2 ^ 32`. -/
namespace Pintos.Devices

def daysPerMonth : List Int := [31, 28, 31, 30, 31, 30, 31, 31, 30, 31, 30, 31]

def bcdToBin (x : Nat) : Int := (x % 16 : Nat) + (x / 16 : Nat) * 10

structure Reading where
  sec : Int
  min : Int
  hour : Int
  mday : Int
  mon : Int
  year : Int
  deriving DecidableEq, Repr

def readClock (cmos : Nat → Nat → Nat) (n : Nat) : Nat → Option Reading
  | 0 => none
  | fuel + 1 =>
    let read : Reading :=
      { sec := bcdToBin (cmos n 0)
        min := bcdToBin (cmos (n + 1) 2)
        hour := bcdToBin (cmos (n + 2) 4)
        mday := bcdToBin (cmos (n + 3) 7)
        mon := bcdToBin (cmos (n + 4) 8)
        year := bcdToBin (cmos (n + 5) 9) }
    if read.sec ≠ bcdToBin (cmos (n + 6) 0) then readClock cmos (n + 7) fuel else some read

def addMonths (mon : Int) (time : Int) : Int :=
  (List.range mon.toNat).foldl
    (fun time i => (time + daysPerMonth.getD i 0 * 24 * 60 * 60) % 2 ^ 32) time

def seconds (read : Reading) : Int :=
  let year := (if read.year < 70 then read.year + 100 else read.year) - 70
  let time := (year * 365 + (year - 1).tdiv 4) * 24 * 60 * 60 % 2 ^ 32
  let time := addMonths read.mon time
  let time :=
    if read.mon > 2 ∧ year.tmod 4 = 0 then (time + 24 * 60 * 60) % 2 ^ 32 else time
  let time := (time + (read.mday - 1) * 24 * 60 * 60) % 2 ^ 32
  let time := (time + read.hour * 60 * 60) % 2 ^ 32
  let time := (time + read.min * 60) % 2 ^ 32
  (time + read.sec) % 2 ^ 32

def rtcGetTime (cmos : Nat → Nat → Nat) (fuel : Nat) : Option Int :=
  (readClock cmos 0 fuel).map seconds

/-! The calendar. -/

def leap (year : Nat) : Bool := year % 4 == 0 && (year % 100 != 0 || year % 400 == 0)

def yearDays (year : Nat) : Nat := if leap year then 366 else 365

def monthDays (year month : Nat) : Nat :=
  if month = 2 ∧ leap year then 29 else (daysPerMonth.getD (month - 1) 0).toNat

def epochDays (year month day : Nat) : Nat :=
  ((List.range (year - 1970)).map fun k => yearDays (1970 + k)).sum +
    ((List.range (month - 1)).map fun k => monthDays year (k + 1)).sum + (day - 1)

structure Date where
  year : Nat
  month : Nat
  day : Nat
  hour : Nat
  minute : Nat
  second : Nat
  years : 1970 ≤ year ∧ year ≤ 2038
  months : 1 ≤ month ∧ month ≤ 12
  days : 1 ≤ day ∧ day ≤ monthDays year month
  hours : hour < 24
  minutes : minute < 60
  seconds : second < 60
  last : epochDays year month day * 86400 + hour * 3600 + minute * 60 + second < 2 ^ 31

namespace Date

def unixTime (date : Date) : Nat :=
  epochDays date.year date.month date.day * 86400 + date.hour * 3600 + date.minute * 60 +
    date.second

def bcd (n : Nat) : Nat := n / 10 * 16 + n % 10

def register (date : Date) : Nat → Nat
  | 0 => bcd date.second
  | 2 => bcd date.minute
  | 4 => bcd date.hour
  | 7 => bcd date.day
  | 8 => bcd date.month
  | _ => bcd (date.year % 100)

/-- By how many days the clock is late: the days of the current month are counted as passed, and
the leap years as if 1970 were one. -/
def late (date : Date) : Int :=
  let year : Int := date.year - 1970
  daysPerMonth.getD (date.month - 1) 0 + ((year - 1).tdiv 4 - (year + 1) / 4) +
    ((if 2 < date.month ∧ year % 4 = 0 then 1 else 0) -
      if 2 < date.month ∧ year % 4 = 2 then 1 else 0)

end Date

theorem bcdBack (n : Nat) : bcdToBin (Date.bcd n) = n := by
  unfold bcdToBin Date.bcd
  omega

theorem readStable (date : Date) (fuel : Nat) :
    readClock (fun _ => date.register) 0 (fuel + 1) = some
      { sec := date.second, min := date.minute, hour := date.hour, mday := date.day,
        mon := date.month, year := (date.year % 100 : Nat) } := by
  unfold readClock
  simp only [Date.register, bcdBack]
  exact if_neg (by simp)

def daysBefore (month : Nat) : Int := (daysPerMonth.take month).sum

theorem addMonthsSpec {month : Nat} (months : 1 ≤ month ∧ month ≤ 12) (time : Int) :
    addMonths month time = (time + daysBefore month * 86400) % 2 ^ 32 := by
  obtain ⟨first, last⟩ := months
  unfold addMonths
  interval_cases month <;> simp [List.range, List.range.loop, daysPerMonth, daysBefore] <;> omega

theorem yearsPassed : ∀ k < 69,
    ((List.range k).map fun j => yearDays (1970 + j)).sum = 365 * k + (k + 1) / 4 := by
  decide

theorem leapYears : ∀ k < 69, leap (1970 + k) = decide (k % 4 = 2) := by
  decide

theorem monthsPassed {month : Nat} (year : Nat) (months : 1 ≤ month ∧ month ≤ 12) :
    (((List.range (month - 1)).map fun k => monthDays year (k + 1)).sum : Int) =
      daysBefore (month - 1) + if 2 < month ∧ leap year then 1 else 0 := by
  obtain ⟨first, last⟩ := months
  cases leaps : leap year <;> interval_cases month <;>
    simp [List.range, List.range.loop, daysPerMonth, daysBefore, monthDays, leaps]

theorem daysBeforeNext {month : Nat} (months : 1 ≤ month ∧ month ≤ 12) :
    daysBefore month = daysBefore (month - 1) + daysPerMonth.getD (month - 1) 0 ∧
      28 ≤ daysPerMonth.getD (month - 1) 0 ∧ daysPerMonth.getD (month - 1) 0 ≤ 31 ∧
      0 ≤ daysBefore (month - 1) := by
  obtain ⟨first, last⟩ := months
  interval_cases month <;> decide

theorem rounded : ∀ k : Fin 69, ((k.val : Int) - 1).tdiv 4 = ((k.val - 1) / 4 : Nat) ∧
    (k.val : Int).tmod 4 = k.val % 4 := by
  decide

theorem secondsSpec (date : Date) : seconds
    { sec := date.second, min := date.minute, hour := date.hour, mday := date.day,
      mon := date.month, year := (date.year % 100 : Nat) } = date.unixTime + 86400 * date.late ∧
    26 ≤ date.late := by
  obtain ⟨year, month, day, hour, minute, second, years, months, ⟨days, _⟩, _, _, _, last⟩ := date
  obtain ⟨k, rfl⟩ : ∃ k, year = 1970 + k := ⟨year - 1970, by omega⟩
  have short : (if (((1970 + k) % 100 : Nat) : Int) < 70 then (((1970 + k) % 100 : Nat) : Int) + 100
      else (((1970 + k) % 100 : Nat) : Int)) - 70 = k := by
    split <;> omega
  have since : ((1970 + k : Nat) : Int) - 1970 = k := by omega
  have before := monthsPassed (1970 + k) months
  obtain ⟨next, least, most, positive⟩ := daysBeforeNext months
  obtain ⟨quarter, four⟩ := rounded ⟨k, by omega⟩
  unfold epochDays at last
  simp only [seconds, Date.late, Date.unixTime, epochDays, short, since, quarter, four, next,
    addMonthsSpec months]
  rw [Nat.add_sub_cancel_left, yearsPassed k (by omega)] at last ⊢
  rw [leapYears k (by omega)] at before
  generalize daysPerMonth.getD (month - 1) 0 = this at *
  generalize daysBefore (month - 1) = sum at *
  generalize ((List.range (month - 1)).map fun j => monthDays (1970 + k) (j + 1)).sum = sum' at *
  simp only [decide_eq_true_eq] at before
  have fewer : ((k : Int) + 1) / 4 = ((k + 1) / 4 : Nat) ∧ (k - 1) / 4 ≤ (k + 1) / 4 ∧
      (k + 1) / 4 ≤ (k - 1) / 4 + 1 := by
    omega
  rw [fewer.1]
  clear short since next quarter four
  generalize (k - 1) / 4 = earlier at *
  generalize (k + 1) / 4 = later at *
  split at before <;> split <;> split <;> split <;> simp only [Int.emod_add_emod] <;> omega

/-- The clock is at least 26 days late on every date. -/
theorem rtcLate (date : Date) (fuel : Nat) :
    rtcGetTime (fun _ => date.register) (fuel + 1) = some (date.unixTime + 86400 * date.late) ∧
      26 ≤ date.late ∧
      rtcGetTime (fun _ => date.register) (fuel + 1) ≠ some (date.unixTime : Int) := by
  obtain ⟨sum, late⟩ := secondsSpec date
  have result : rtcGetTime (fun _ => date.register) (fuel + 1) =
      some (date.unixTime + 86400 * date.late) := by
    rw [← sum, rtcGetTime, readStable]
    rfl
  refine ⟨result, late, fun same => ?_⟩
  have equal := Option.some.inj (result.symm.trans same)
  omega

def epoch : Date where
  year := 1970
  month := 1
  day := 1
  hour := 0
  minute := 0
  second := 0
  years := by decide
  months := by decide
  days := by decide
  hours := by decide
  minutes := by decide
  seconds := by decide
  last := by decide

theorem rtcEpochLate : epoch.unixTime = 0 ∧
    rtcGetTime (fun _ => epoch.register) 1 = some (31 * 86400) := by
  decide

end Pintos.Devices
