import HealthRollup.Text.Blank
import HealthRollup.Text.Digit

/-! Integers as people spell them: blanks around, one sign, digits of any script, single underscores
between digits. A numeral of more than 4300 digits is not read. -/
namespace HealthRollup
namespace Integer

def digitLimit : Nat := 4300

/-- The digit values after a first digit. -/
def more? : List Char → Option (List Nat)
  | [] => some []
  | c::cs =>
    match Digit.value? c with
    | some d => (more? cs).map (d::·)
    | none =>
      if c = '_' then
        match cs with
        | [] => none
        | b::bs => (Digit.value? b).bind fun d => (more? bs).map (d::·)
      else none

def digits? : List Char → Option (List Nat)
  | [] => none
  | c::cs => (Digit.value? c).bind fun d => (more? cs).map (d::·)

def magnitude? (cs : List Char) : Option Nat :=
  (digits? cs).bind fun ds => if ds.length ≤ digitLimit then some (Digit.number ds) else none

def signed? : List Char → Option Int
  | '-' :: cs => (magnitude? cs).map fun n => -(n : Int)
  | '+' :: cs => (magnitude? cs).map fun n => (n : Int)
  | cs => (magnitude? cs).map fun n => (n : Int)

def read? (cs : List Char) : Option Int := signed? (Blank.trim Blank.isNumberBlank cs)

end Integer
end HealthRollup
