/-! Calendar days of the years 1 to 9999 in the Gregorian calendar, numbered from 1 January of year 1,
which is day 1 and a Monday. Weeks begin on Monday, and week 1 of a year holds its first Thursday. -/
namespace HealthRollup

structure Date where
  year : Nat
  month : Nat
  day : Nat
  deriving DecidableEq, Repr, Inhabited

namespace Date

def isLeap (y : Nat) : Bool := y%4 == 0 && (y%100 != 0 || y%400 == 0)

def monthLengths (y : Nat) : List Nat :=
  [31,if isLeap y then 29 else 28,31,30,31,30,31,31,30,31,30,31]

def monthLength (y m : Nat) : Nat := (monthLengths y).getD (m-1) 0

def IsValid (d : Date) : Prop :=
  (1 ≤ d.year ∧ d.year ≤ 9999) ∧ (1 ≤ d.month ∧ d.month ≤ 12) ∧
    (1 ≤ d.day ∧ d.day ≤ monthLength d.year d.month)

instance (d : Date) : Decidable d.IsValid := inferInstanceAs (Decidable (_ ∧ _ ∧ _))

def daysBeforeYear (y : Nat) : Nat := (y-1)*365+(y-1)/4-(y-1)/100+(y-1)/400
def daysBeforeMonth (y m : Nat) : Nat := ((monthLengths y).take (m-1)).foldl (·+·) 0

def ordinal (d : Date) : Nat := daysBeforeYear d.year+daysBeforeMonth d.year d.month+d.day

/-- The last day of year 9999. -/
def lastOrdinal : Nat := 3652059

/-- The index of the length that a count falls into, and the count left over there. -/
def locate : List Nat → Nat → Nat × Nat
  | [], n => (0,n)
  | l::ls, n => if n < l then (0,n) else ((locate ls (n-l)).1+1,(locate ls (n-l)).2)

def ofDayOfYear (y n : Nat) : Date :=
  let p := locate (monthLengths y) n
  ⟨y,p.1+1,p.2+1⟩

/-- Takes off cycles of 400, 100, 4 and 1 years; the last century of a long cycle and the last year of a
short one may be a day longer than the others. -/
def ofOrdinal (n : Nat) : Date :=
  let a := (n-1)/146097
  let r := (n-1)%146097
  let b := min (r/36524) 3
  let s := r-b*36524
  let c := s/1461
  let t := s%1461
  let d := min (t/365) 3
  ofDayOfYear (400*a+100*b+4*c+d+1) (t-d*365)

/-- Days since Monday. -/
def weekday (ordinal : Nat) : Nat := (ordinal+6)%7

/-- The day number of the Monday that begins week 1. -/
def firstMonday (y : Nat) : Nat :=
  let n := daysBeforeYear y+1
  if weekday n ≤ 3 then n-weekday n else n-weekday n+7

/-- A year has 53 weeks when it begins on a Thursday, or is a leap year that begins on a Wednesday. -/
def weeksIn (y : Nat) : Nat :=
  let w := weekday (daysBeforeYear y+1)
  if w = 3 || (w = 2 && isLeap y) then 53 else 52

def ofWeek? (y week day : Nat) : Option Date :=
  if 1 ≤ y && 1 ≤ week && week ≤ weeksIn y && 1 ≤ day && day ≤ 7 then
    some (ofOrdinal (firstMonday y+(week-1)*7+(day-1)))
  else none

example : ofWeek? 2020 53 7 = some ⟨2021,1,3⟩ ∧ ofWeek? 2021 53 1 = none := by decide

end Date
end HealthRollup
