import HealthRollup.Fault
import HealthRollup.Text.Cut
import HealthRollup.Text.Integer

/-! Bind addresses `host:port`. The last colon divides; an empty host binds all interfaces. -/
namespace HealthRollup

structure Address where
  host : String
  port : Int
  deriving DecidableEq, Repr, Inhabited

namespace Address

def anyHost : String := "0.0.0.0"

/-- What stands before and after the last colon. -/
def split? (cs : List Char) : Option (List Char × List Char) :=
  if cs.contains ':' then some (Cut.last ':' cs) else none

def hostOf (cs : List Char) : String := if cs.isEmpty then anyHost else String.ofList cs

def read (a : String) : Except AddressFault Address :=
  match split? a.toList with
  | none => .error (.format a)
  | some (host,port) =>
    match Integer.read? port with
    | none => .error (.port a)
    | some n => if 0 ≤ n && n ≤ 65535 then .ok ⟨hostOf host,n⟩ else .error (.range a)

end Address
end HealthRollup
