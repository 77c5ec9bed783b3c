import HealthRollup.Text.Blank
import HealthRollup.Text.Quoted
import HealthRollup.Time.Moment

/-! Reading timestamps. Blanks around the text, a final `Z` and the length of the fraction are put into
one form first; what is left has a calendar or week date, one separator of any kind, a time of day with
or without colons, and an offset. Control characters U+0000 end a text early. -/
namespace HealthRollup

inductive TimestampFault
  | malformed (text : String) | noOffset (text : String)
  deriving DecidableEq, Repr

namespace TimestampFault

def message : TimestampFault → String
  | .malformed s => "Invalid RFC3339 timestamp: " ++ Quoted.encode s
  | .noOffset s => "RFC3339 timestamp has no offset: " ++ Quoted.encode s

end TimestampFault

namespace Timestamp

def isDigit (c : Char) : Bool := (Digit.value? c).isSome

/-- A final `Z` of either case stands for the offset zero. -/
def expandZulu (cs : List Char) : List Char :=
  match cs.getLast? with
  | some 'Z' | some 'z' => cs.dropLast++['+', '0', '0', ':', '0', '0']
  | _ => cs

/-- The first point that has digits after it keeps six of them, padded with zeros. -/
def sixDigits : List Char → List Char
  | [] => []
  | c::cs =>
    let ds := cs.takeWhile isDigit
    if c = '.' && !ds.isEmpty then
      c::ds.take 6++List.replicate (6-ds.length) '0' ++cs.dropWhile isDigit
    else c::sixDigits cs

def normalize (cs : List Char) : List Char :=
  sixDigits (expandZulu (Blank.trim Blank.isBlank cs))

def ends : List Char → Bool
  | [] => true
  | c::_ => c = '\x00'

/-- What stands after the two-digit fields of a time. -/
inductive TimeRest
  | stop (clean : Bool) | fraction (digits : List Char)

/-- Up to three two-digit fields. The first decides whether colons separate them; one ASCII character
after the last field is reported as an end that is not clean. -/
def fields? : Nat → Option Bool → List Char → Option (List Nat × TimeRest)
  | 0, _, cs => some ([],.fraction cs)
  | k+1, colons, cs =>
    match Digit.take? 2 cs with
    | none => none
    | some (n,[]) => some ([n],.stop true)
    | some (n,[c]) => if c.toNat < 128 then some ([n],.stop (ends [c])) else none
    | some (n,c::rest) =>
      let colons := colons.getD (c = ':')
      if colons && c = ':' then (fields? k (some colons) rest).map fun p => (n::p.1,p.2)
      else if c = '.' || c = ',' then some ([n],.fraction rest)
      else if colons then none
      else (fields? k (some colons) (c::rest)).map fun p => (n::p.1,p.2)

/-- At most six digits count; digits after them are dropped. -/
def fraction? (cs : List Char) : Option (Nat × Bool) :=
  let k := min 6 cs.length
  (Digit.take? k cs).map fun p => (p.1*Nat.pow 10 (6-k),ends (p.2.dropWhile Char.isDigit))

/-- A time of day, and whether its text ended cleanly. -/
def time? (cs : List Char) : Option (TimeOfDay × Bool) :=
  (fields? 3 none cs).bind fun p =>
    let t (micro : Nat) : TimeOfDay := ⟨p.1.getD 0 0,p.1.getD 1 0,p.1.getD 2 0,micro⟩
    match p.2 with
    | .stop clean => some (t 0,clean)
    | .fraction ds => (fraction? ds).map fun f => (t f.1,f.2)

/-- An offset of less than a second counts as none. -/
def offset? (negative : Bool) (cs : List Char) : Option Int :=
  match time? cs with
  | some (t,true) =>
    if t.micros < 1000000 then some 0
    else if t.micros < TimeOfDay.dayLength then some (Binary64.signed negative t.micros)
    else none
  | _ => none

def isZoneMark (c : Char) : Bool := c = '+' || c = '-' || c = 'Z'

/-- A time of day with its offset. Before an offset the time need not end cleanly. -/
def zonedTime? (cs : List Char) : Option (TimeOfDay × Option Int) :=
  (time? (cs.takeWhile fun c => !isZoneMark c)).bind fun p =>
    match cs.dropWhile fun c => !isZoneMark c with
    | [] => if p.2 then some (p.1,none) else none
    | c::rest =>
      if c = 'Z' then (if ends rest then some (p.1,some 0) else none)
      else (offset? (c = '-') rest).map fun o => (p.1,some o)

def charAt (cs : List Char) (i : Nat) : Char := cs.getD i '\x00'

/-- How many characters the date takes, told by its fifth, sixth and ninth characters. -/
def dateLength? (cs : List Char) : Option Nat :=
  if cs.length = 7 then some 7
  else if charAt cs 4 = '-' then
    if charAt cs 5 = 'W' then
      if cs.length < 8 then none
      else if charAt cs 8 = '-' then
        if cs.length = 9 then none else if (charAt cs 10).isDigit then some 8 else some 10
      else some 8
    else some 10
  else if charAt cs 4 = 'W' then
    let stop := 7+((cs.drop 7).takeWhile Char.isDigit).length
    if stop < 9 then some stop else if stop%2 = 0 then some 7 else some 8
  else some 8

/-- Drops the dash that a date with dashes must have here. -/
def dash? (dashed : Bool) (cs : List Char) : Option (List Char) :=
  if dashed then (if cs.head? = some '-' then some (cs.drop 1) else none) else some cs

def weekDate? (year : Nat) (dashed : Bool) (size length : Nat) (cs : List Char) : Option Date :=
  (Digit.take? 2 cs).bind fun week =>
    if size-week.2.length < length then
      (dash? dashed week.2).bind fun rest =>
        (Digit.take? 1 rest).bind fun day => Date.ofWeek? year week.1 day.1
    else Date.ofWeek? year week.1 1

def date? (length : Nat) (cs : List Char) : Option Date :=
  (Digit.take? 4 cs).bind fun year =>
    let dashed := year.2.head? = some '-'
    let rest := if dashed then year.2.drop 1 else year.2
    if rest.head? = some 'W' then weekDate? year.1 dashed cs.length length (rest.drop 1)
    else
      (Digit.take? 2 rest).bind fun month =>
        (dash? dashed month.2).bind fun rest =>
          (Digit.take? 2 rest).map fun day => ⟨year.1,month.1,day.1⟩

/-- A date alone, or a date, any one character and a time, which must not be empty then. -/
def parts? (cs : List Char) : Option (Date × TimeOfDay × Option Int) :=
  (dateLength? cs).bind fun length =>
    (date? length cs).bind fun date =>
      match cs.drop length with
      | [] => some (date,default,none)
      | _::rest => (zonedTime? rest).map fun p => (date,p.1,p.2)

example : parts? "2024-05-01T".toList = none := by decide +kernel

def read (s : String) : Except TimestampFault Moment :=
  match parts? (normalize s.toList) with
  | some (date,time,offset) =>
    if date.IsValid ∧ time.IsValid then
      match offset with
      | some o => .ok ⟨date,time,o⟩
      | none => .error (.noOffset s)
    else .error (.malformed s)
  | none => .error (.malformed s)

example : (read "20240501 1200-0130").toOption = some ⟨⟨2024,5,1⟩,⟨12,0,0,0⟩,-5400000000⟩ := by
  decide +kernel

end Timestamp
end HealthRollup
