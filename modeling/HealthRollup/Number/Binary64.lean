/-! Binary floating-point numbers with 53 significant bits, kept as exact data: a sign, a natural
significand and a power of two. An exact quotient is rounded once to the nearest of them, and a tie
goes to the even significand. -/
namespace HealthRollup

inductive Binary64
  | nan | infinite (negative : Bool) | finite (negative : Bool) (significand : Nat) (exponent : Int)
  deriving DecidableEq, Repr, Inhabited

namespace Binary64

def leastExponent : Int := -1074
def greatestExponent : Int := 971

def zero (negative : Bool) : Binary64 := .finite negative 0 leastExponent

def signed (negative : Bool) (n : Nat) : Int := if negative then -(n : Int) else n

@[simp] theorem signed_false (n : Nat) : signed false n = n := rfl
@[simp] theorem signed_true (n : Nat) : signed true n = -(n : Int) := rfl

/-- The quotient of two naturals measured in units of `2 ^ e`, again as a quotient of naturals. -/
def inUnits (num den : Nat) (e : Int) : Nat × Nat :=
  if 0 ≤ e then (num,den*Nat.pow 2 e.toNat) else (num*Nat.pow 2 (-e).toNat,den)

/-- The natural nearest to a quotient; halfway between two, the even one. -/
def roundEven (num den : Nat) : Nat :=
  if den < 2*(num%den) || (2*(num%den) == den && num/den%2 == 1) then num/den+1 else num/den

/-- The least exponent whose units leave fewer than 54 bits before the point. -/
def unitExponent (num den : Nat) : Int :=
  let e : Int := num.log2-den.log2-52
  let u := inUnits num den e
  max leastExponent (if u.1 < Nat.pow 2 52*u.2 then e-1 else e)

/-- A quotient of naturals with a sign, correctly rounded. -/
def ofRatio (negative : Bool) (num den : Nat) : Binary64 :=
  if num = 0 then zero negative
  else
    let e := unitExponent num den
    let u := inUnits num den e
    let m := roundEven u.1 u.2
    let r : Nat × Int := if m = Nat.pow 2 53 then (Nat.pow 2 52,e+1) else (m,e)
    if greatestExponent < r.2 then .infinite negative else .finite negative r.1 r.2

example : (ofRatio false (2^1024) 1) = .infinite false := by decide +kernel

def isZero : Binary64 → Bool
  | .finite _ 0 _ => true
  | _ => false

/-- No fractional part; neither an infinity nor a not-a-number is whole. -/
def isWhole : Binary64 → Bool
  | .finite _ m e => 0 ≤ e || m%Nat.pow 2 (-e).toNat == 0
  | _ => false

/-- The integer part, towards zero; `0` for what is not finite. -/
def truncate : Binary64 → Int
  | .finite s m e => signed s (if 0 ≤ e then m*Nat.pow 2 e.toNat else m/Nat.pow 2 (-e).toNat)
  | _ => 0

/-- The exact comparison with an integer; a not-a-number is at most nothing. -/
def atMost : Binary64 → Int → Bool
  | .nan, _ => false
  | .infinite s, _ => s
  | .finite s m e, k =>
    if 0 ≤ e then signed s (m*Nat.pow 2 e.toNat) ≤ k else signed s m ≤ k*Nat.pow 2 (-e).toNat

@[simp] theorem atMost_nan (k : Int) : atMost .nan k = false := rfl
@[simp] theorem atMost_infinite (s : Bool) (k : Int) : atMost (.infinite s) k = s := rfl

end Binary64
end HealthRollup
