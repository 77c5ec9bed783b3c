import HealthRollup.Gate
import HealthRollup.Program
import HealthRollup.Scope.Basic

/-! Aggregation of one scope: every component is read anew, and the new states and the time are written
back as a patch that leaves exactly the new status block. -/
namespace HealthRollup

/-- The scope of this name as the platform has it. -/
def Scope.load (name : String) : Program Scope := do
  let raw ← Program.get .scopes name
  Program.ofExcept (Scope.ofValue raw)

/-- How an aggregation ended that did not fail. -/
inductive Aggregation
  | notDue | written (scope : Scope)
  deriving Repr

namespace Aggregation
def isWritten : Aggregation → Bool
  | .notDue => false
  | .written _ => true

/-- The state of a component's object, which is `unhealthy` unless it is a text. -/
def stateOf : Value → Except Fault String
  | .record fs =>
    match Fields.get? "status" fs with
    | some (.text s) => .ok s
    | _ => .ok unhealthy
  | _ => .error .notRecord

/-- A component whose request fails counts as unhealthy. -/
def componentState (r : ComponentRef) : Program String := do
  match ← Program.attempt (Program.get .components r.key) with
  | .ok v => Program.ofExcept (stateOf v)
  | .error f =>
    if f.isRequest then
      Program.note (.componentUnread f)
      return unhealthy
    else .fail f

def refresh : List ComponentRef → Program (List ComponentRef)
  | [] => pure []
  | r::rs => do
    let state ← componentState r
    let rest ← refresh rs
    return ⟨r.name,r.instanceName,.text state⟩::rest

def refreshAll : Option (List ComponentRef) → Program (Option (List ComponentRef))
  | none => pure none
  | some rs => do
    let fresh ← refresh rs
    return some fresh

def timestamp (m : Moment) : Except Fault String :=
  match m.timestamp? with
  | some s => .ok s
  | none => .error .overflow

/-- The fields of the new block, and `null` for every other field the block is known to have. -/
def blockPatch (keys : List String) (status : ScopeStatus) : Fields :=
  (keys.filter fun k => !(Fields.keys status.toFields).contains k).foldl
    (fun fs k => Fields.put k .null fs) status.toFields

def replacement (scope : Scope) (status : ScopeStatus) : Value :=
  .record [("status",.record (blockPatch scope.statusKeys status))]

def updated (scope : Scope) (status : ScopeStatus) : Scope :=
  { scope with status := some status, statusKeys := Fields.keys status.toFields }

def writeBack (scope : Scope) (status : ScopeStatus) : Program Aggregation := do
  match ← Program.attempt (Program.patch .scopes scope.name (replacement scope status)) with
  | .ok _ => return .written (updated scope status)
  | .error f => .fail (if f.isRequest then .writeBack scope.name f else f)

/-- The part after the gate. -/
def probe (scope : Scope) : Program Aggregation := do
  Program.note (.probing scope.name)
  if scope.isSupported then
    let components ← refreshAll (scope.status.bind ScopeStatus.components)
    let now ← Program.now
    let stamp ← Program.ofExcept (timestamp now)
    writeBack scope ⟨components,.text stamp⟩
  else .fail (.unsupportedProbe scope.method scope.endpoint)

/-- `standard` is the interval of scopes that set none. -/
def ofScope (standard : Value) (scope : Scope) : Program Aggregation := do
  let now ← Program.now
  let gate ← Program.ofExcept (Gate.check scope.status (scope.interval.orElse standard) now)
  Program.report gate.notices
  if gate.due then probe scope else return .notDue

/-- What the caller holds after an aggregation of the scope it held. -/
def kept (scope : Scope) : Except Fault Aggregation → Scope
  | .ok (.written s) => s
  | _ => scope

end Aggregation
end HealthRollup
