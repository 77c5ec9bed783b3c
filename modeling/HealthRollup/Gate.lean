import HealthRollup.Notice
import HealthRollup.Scope.Status

/-! The interval gate. A scope is due when its interval is not positive, when it has no readable time of
its last aggregation, or when that many whole seconds have gone by since. An interval that is no quantity
and a time that is no text are faults, the interval first. -/
namespace HealthRollup
namespace Gate

/-- Whether a scope is due, and what is reported about its timestamp. -/
structure Decision where
  due : Bool
  notices : List Notice

def timeOf : Value → Except Fault Moment
  | .text s => (Timestamp.read s).mapError Fault.timestamp
  | _ => .error .notText

/-- The decision on the time of the last aggregation, for a positive interval. -/
def decision (last : Value) (interval : Number) (now : Moment) : Except Fault Decision :=
  match last with
  | .null => .ok ⟨true,[]⟩
  | v =>
    match timeOf v with
    | .ok last => .ok ⟨interval.atMost (Moment.elapsed last now),[]⟩
    | .error (.timestamp e) => .ok ⟨true,[.badTimestamp e]⟩
    | .error f => .error f

def check (status : Option ScopeStatus) (interval : Value) (now : Moment) : Except Fault Decision :=
  match interval.quantity? with
  | some n =>
    if n.atMost 0 then .ok ⟨true,[]⟩
    else decision ((status.map ScopeStatus.aggregatedAt).getD .null) n now
  | none => .error .mistyped

end Gate
end HealthRollup
