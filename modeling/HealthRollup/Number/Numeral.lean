import HealthRollup.Number.Shortest

/-! Written form of binary floating-point numbers. Writing takes the shortest digits and lays them out;
reading takes any decimal numeral and rounds it once. -/
namespace HealthRollup

/-- Where positional notation begins and ends, by the exponent of the leading digit, and how many
digits the written exponent has at least. -/
structure Layout where
  plainFrom : Int
  plainBelow : Int
  exponentDigits : Nat

namespace Layout

def zeros (n : Nat) : List Char := List.replicate n '0'

def plain (ds : List Char) (x : Int) : List Char :=
  if x < 0 then '0' :: '.' :: zeros (-x-1).toNat++ds
  else
    let ds := ds++zeros (x.toNat+1-ds.length)
    let fraction := ds.drop (x.toNat+1)
    ds.take (x.toNat+1)++ '.' :: (if fraction.isEmpty then ['0'] else fraction)

def power (l : Layout) (x : Int) : List Char :=
  let ds := Nat.toDigits 10 x.natAbs
  (if x < 0 then '-' else '+') :: zeros (l.exponentDigits-ds.length)++ds

def scientific (l : Layout) (ds : List Char) (x : Int) : List Char :=
  ds.take 1++(if ds.length ≤ 1 then [] else '.' :: ds.drop 1)++ 'e' :: l.power x

/-- Digits `d₁ d₂ …` standing for `d₁.d₂… × 10 ^ x`. -/
def write (l : Layout) (ds : List Char) (x : Int) : List Char :=
  if l.plainFrom ≤ x && x < l.plainBelow then plain ds x else l.scientific ds x

end Layout

namespace Binary64

/-- Positional from `0.0001` up to and not including `10 ^ 16`; a written exponent has two digits or
more. -/
def layout : Layout := ⟨-4,16,2⟩

def magnitudeText (m : Nat) (e : Int) : List Char :=
  if m = 0 then ['0', '.', '0']
  else
    let d := Shortest.digits m e
    let ds := Nat.toDigits 10 d.coefficient
    let significant := (ds.reverse.dropWhile (· == '0')).reverse
    layout.write significant (d.exponent+ds.length-1)

def text : Binary64 → String
  | .nan => "nan"
  | .infinite s => if s then "-inf" else "inf"
  | .finite s m e => String.ofList ((if s then ['-'] else [])++magnitudeText m e)

/-- A decimal coefficient times a power of ten, correctly rounded. Powers far outside the range are
settled without being computed. -/
def ofDecimal (negative : Bool) (coefficient : Nat) (p : Int) : Binary64 :=
  let x := p+(Nat.toDigits 10 coefficient).length
  if coefficient = 0 || x < -400 then zero negative
  else if 400 < x then .infinite negative
  else
    let t := Shortest.pow10 p
    ofRatio negative (coefficient*t.1) t.2

def natural (ds : List Char) : Nat := ds.foldl (fun n c => 10*n+(c.toNat- '0'.toNat)) 0

def wholeNumber? (cs : List Char) : Option Nat :=
  if !cs.isEmpty && cs.all Char.isDigit then some (natural cs) else none

def power? : List Char → Option Int
  | [] => some 0
  | 'e' :: '-' :: cs => (wholeNumber? cs).map fun n => -(n : Int)
  | 'e' :: '+' :: cs | 'e' :: cs => (wholeNumber? cs).map fun n => (n : Int)
  | _ => none

/-- Digits, optionally a point and digits, optionally a power of ten. -/
def ofNumeral? (negative : Bool) (cs : List Char) : Option Binary64 :=
  let whole := cs.takeWhile Char.isDigit
  let rest := cs.dropWhile Char.isDigit
  let pointed := rest.head? = some '.'
  let fraction := if pointed then (rest.drop 1).takeWhile Char.isDigit else []
  let tail := if pointed then (rest.drop 1).dropWhile Char.isDigit else rest
  if whole.isEmpty && fraction.isEmpty then none
  else (power? tail).map fun p => ofDecimal negative (natural (whole++fraction)) (p-fraction.length)

def ofChars? (negative : Bool) (cs : List Char) : Option Binary64 :=
  if cs = ['n', 'a', 'n'] then some .nan
  else if cs = ['i', 'n', 'f'] then some (.infinite negative)
  else ofNumeral? negative cs

def ofText? (s : String) : Option Binary64 :=
  match s.toList with
  | '-' :: cs => ofChars? true cs
  | cs => ofChars? false cs

example : (ofText? "9007199254740993.0").map text = some "9007199254740992.0" := by decide +kernel
example : (ofText? "1e+16").map text = some "1e+16" := by decide +kernel

end Binary64

/-- A number is an integer of any size or a binary floating-point number. -/
inductive Number
  | int (n : Int) | real (x : Binary64)
  deriving DecidableEq, Repr, Inhabited

namespace Number

def text : Number → String
  | .int n => toString n
  | .real x => x.text

def isZero : Number → Bool
  | .int n => n == 0
  | .real x => x.isZero

def isWhole : Number → Bool
  | .int _ => true
  | .real x => x.isWhole

/-- The exact comparison `x ≤ k`, which no not-a-number satisfies. -/
def atMost : Number → Int → Bool
  | .int n, k => n ≤ k
  | .real x, k => x.atMost k

@[simp] theorem atMost_int (n k : Int) : (Number.int n).atMost k = decide (n ≤ k) := rfl
@[simp] theorem atMost_real (x : Binary64) (k : Int) : (Number.real x).atMost k = x.atMost k := rfl

end Number
end HealthRollup
