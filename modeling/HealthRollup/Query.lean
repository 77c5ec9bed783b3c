import HealthRollup.Program
import HealthRollup.Scope.Basic

/-! Queries for the health of one scope. The answer is a verdict, or the text of what went wrong. -/
namespace HealthRollup
namespace Query

def isShape : Fault → Bool
  | .shape _ _ => true
  | _ => false

def answerFault (name : String) (foreseen : Bool) (reason : String) (f : Fault) : Program String :=
  if foreseen then do
    Program.note (.queryFailed name reason)
    return reason
  else do
    Program.note (.queryBroke name f)
    return f.shown

def evaluate (name : String) : Program String := do
  match ← Program.attempt (Program.get .scopes name) with
  | .error f => answerFault name f.isRequest f.message f
  | .ok raw =>
    match Scope.ofValue raw with
    | .ok scope => return ScopeStatus.verdict scope.status
    | .error f => answerFault name (isShape f) ("invalid health scope " ++ name ++ ": " ++ f.message) f

end Query
end HealthRollup
