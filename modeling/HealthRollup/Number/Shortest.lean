import HealthRollup.Number.Binary64

/-! The fewest decimal digits that read back as the same binary number. A number owns the interval of
reals that round to it; for one digit, two digits and so on, only the two neighbours of the number on
that decimal grid can lie inside, and the first grid with a hit wins. -/
namespace HealthRollup
namespace Shortest

/-- A natural coefficient times a power of ten. -/
structure Decimal where
  coefficient : Nat
  exponent : Int
  deriving DecidableEq, Repr, Inhabited

def pow10 (p : Int) : Nat × Nat := if 0 ≤ p then (Nat.pow 10 p.toNat,1) else (1,Nat.pow 10 (-p).toNat)
def pow2 (p : Int) : Nat × Nat := if 0 ≤ p then (Nat.pow 2 p.toNat,1) else (1,Nat.pow 2 (-p).toNat)

/-- A decimal and a number of quarter units of `2 ^ e`, brought to one denominator. -/
def common (d : Decimal) (quarters : Nat) (e : Int) : Nat × Nat :=
  let a := pow10 d.exponent
  let b := pow2 (e-2)
  (d.coefficient*a.1*b.2,quarters*b.1*a.2)

/-- The ends of the interval that rounds to `m * 2 ^ e`, in quarter units. Below a power of two the
neighbour is twice as near. -/
def interval (m : Nat) (e : Int) : Nat × Nat :=
  (4*m-(if m = Nat.pow 2 52 && Binary64.leastExponent < e then 1 else 2),4*m+2)

/-- An end belongs to the interval exactly when the significand is even. -/
def readsBack (m : Nat) (e : Int) (d : Decimal) : Bool :=
  let low := common d (interval m e).1 e
  let high := common d (interval m e).2 e
  if m%2 = 0 then low.2 ≤ low.1 && high.1 ≤ high.2 else low.2 < low.1 && high.1 < high.2

def distance (m : Nat) (e : Int) (d : Decimal) : Nat :=
  let c := common d (4*m) e
  (c.1-c.2)+(c.2-c.1)

/-- The exponent of the leading decimal digit. -/
def magnitude (m : Nat) (e : Int) : Int :=
  let guess : Int := ((m.log2+e)*30103).fdiv 100000
  let above := common ⟨1,guess+1⟩ (4*m) e
  let here := common ⟨1,guess⟩ (4*m) e
  if above.1 ≤ above.2 then guess+1 else if here.1 ≤ here.2 then guess else guess-1

/-- The two neighbours of `m * 2 ^ e` among the multiples of `10 ^ p`. -/
def neighbours (m : Nat) (e p : Int) : List Decimal :=
  let c := common ⟨1,p⟩ (4*m) e
  [⟨c.2/c.1,p⟩,⟨c.2/c.1+1,p⟩]

/-- Of two grid points the nearer; of two equally near ones the even coefficient. -/
def better (m : Nat) (e : Int) (a b : Decimal) : Decimal :=
  if distance m e a < distance m e b then a
  else if distance m e b < distance m e a then b
  else if a.coefficient%2 = 0 then a else b

def onGrid (m : Nat) (e : Int) (p : Int) : Option Decimal :=
  match (neighbours m e p).filter (readsBack m e) with
  | [] => none
  | d::ds => some (ds.foldl (better m e) d)

/-- Seventeen digits always read back, so the last grid tried never fails. -/
def digits (m : Nat) (e : Int) : Decimal :=
  let x := magnitude m e
  ((List.range 17).findSome? fun k : Nat => onGrid m e (x-k)).getD ⟨m,e⟩

end Shortest
end HealthRollup
