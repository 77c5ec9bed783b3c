import HealthRollup.Number.Binary64
import HealthRollup.Text.Digit
import HealthRollup.Time.Date

/-! Moments: a date and a time of day to the microsecond, with the offset of its clock from UTC. -/
namespace HealthRollup

structure TimeOfDay where
  hour : Nat
  minute : Nat
  second : Nat
  micro : Nat
  deriving DecidableEq, Repr, Inhabited

namespace TimeOfDay

def dayLength : Nat := 86400000000

def IsValid (t : TimeOfDay) : Prop :=
  t.hour ≤ 23 ∧ t.minute ≤ 59 ∧ t.second ≤ 59 ∧ t.micro ≤ 999999

instance (t : TimeOfDay) : Decidable t.IsValid := inferInstanceAs (Decidable (_ ∧ _ ∧ _ ∧ _))

def micros (t : TimeOfDay) : Nat := ((t.hour*60+t.minute)*60+t.second)*1000000+t.micro

def ofMicros (n : Nat) : TimeOfDay :=
  ⟨n/3600000000,n/60000000%60,n/1000000%60,n%1000000⟩

theorem ofMicros_micros (t : TimeOfDay) (h : t.IsValid) : ofMicros t.micros = t := by
  obtain ⟨_,hm,hs,hu⟩ := h
  simp only [ofMicros,micros]
  congr 1 <;> omega

theorem micros_ofMicros (n : Nat) : (ofMicros n).micros = n := by
  simp only [ofMicros,micros]
  omega

end TimeOfDay

/-- The offset is in microseconds, positive east of Greenwich. -/
structure Moment where
  date : Date
  time : TimeOfDay
  offset : Int
  deriving DecidableEq, Repr, Inhabited

namespace Moment

def IsValid (m : Moment) : Prop :=
  m.date.IsValid ∧ m.time.IsValid ∧ m.offset.natAbs < TimeOfDay.dayLength

instance (m : Moment) : Decidable m.IsValid := inferInstanceAs (Decidable (_ ∧ _ ∧ _))

/-- Microseconds shown by the moment's own clock since the start of year 1. -/
def reading (m : Moment) : Int := ((m.date.ordinal : Int)-1)*TimeOfDay.dayLength+m.time.micros

/-- The same moment counted on the clock of UTC. -/
def instant (m : Moment) : Int := m.reading-m.offset

/-- There is no moment before year 1 or after year 9999. -/
def ofReading? (reading offset : Int) : Option Moment :=
  if 0 ≤ reading && reading < Date.lastOrdinal*TimeOfDay.dayLength then
    some ⟨Date.ofOrdinal (reading.toNat/TimeOfDay.dayLength+1),
      TimeOfDay.ofMicros (reading.toNat%TimeOfDay.dayLength),offset⟩
  else none

def utc? (m : Moment) : Option Moment := ofReading? m.instant 0

def advance? (m : Moment) (micros : Int) : Option Moment := ofReading? (m.reading+micros) m.offset

/-- Seconds from one moment to another, rounded once to a binary floating-point number. -/
def secondsFrom (last now : Moment) : Binary64 :=
  let d := now.instant-last.instant
  Binary64.ofRatio (d < 0) d.natAbs 1000000

/-- Whole seconds from one moment to another, towards zero. -/
def elapsed (last now : Moment) : Int := (secondsFrom last now).truncate

def dateText (d : Date) : List Char :=
  Digit.padded 4 d.year++ '-' :: Digit.padded 2 d.month++ '-' :: Digit.padded 2 d.day

/-- `always` keeps a fraction of zero microseconds. -/
def timeText (always : Bool) (t : TimeOfDay) : List Char :=
  Digit.padded 2 t.hour++ ':' :: Digit.padded 2 t.minute++ ':' :: Digit.padded 2 t.second++
    if always || t.micro != 0 then '.' :: Digit.padded 6 t.micro else []

/-- Hours and minutes; seconds and microseconds only where they are not zero. -/
def offsetText (offset : Int) : List Char :=
  let n := offset.natAbs
  let seconds := n/1000000%60
  let micro := n%1000000
  (if offset < 0 then '-' else '+') :: Digit.padded 2 (n/3600000000)++
    ':' :: Digit.padded 2 (n/60000000%60)++
    (if seconds != 0 || micro != 0 then ':' :: Digit.padded 2 seconds else [])++
    if micro != 0 then '.' :: Digit.padded 6 micro else []

def chars (always : Bool) (m : Moment) : List Char :=
  dateText m.date++ 'T' :: timeText always m.time++offsetText m.offset

def text (m : Moment) : String := String.ofList (chars false m)

/-- The UTC timestamp with six fraction digits, `none` where UTC leaves the calendar. -/
def timestamp? (m : Moment) : Option String := m.utc?.map fun u => String.ofList (chars true u)

end Moment
end HealthRollup
