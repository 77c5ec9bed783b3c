import HealthRollup.Scope.Status

/-! Scopes: named groups of components whose combined health is tracked. -/
namespace HealthRollup

/-- An interval that is `null` is unset. `statusKeys` are the fields of the stored status block in
ascending order, among them fields that the controller does not know. -/
structure Scope where
  name : String
  space : Option String
  method : Value
  endpoint : Value
  interval : Value
  status : Option ScopeStatus
  statusKeys : List String
  deriving DecidableEq, Repr, Inhabited

namespace Scope

def pollMethod : String := "poll-status"
def pollEndpoint : String := ".status"

/-- The one way of probing that is known. -/
def isSupported (s : Scope) : Bool := s.method == .text pollMethod && s.endpoint == .text pollEndpoint

def record (k : String) (fs : Fields) : Except Fault Fields :=
  match Fields.get? k fs with
  | some (.record gs) => .ok gs
  | some _ => .error .notRecord
  | none => .error (.missing k)

def text (k : String) (fs : Fields) : Except Fault String :=
  match Fields.get? k fs with
  | some (.text s) => .ok s
  | some _ => .error .notText
  | none => .error (.missing k)

def text? (k : String) (fs : Fields) : Except Fault (Option String) :=
  match Fields.get? k fs with
  | none | some .null => .ok none
  | some (.text s) => .ok (some s)
  | some _ => .error .notText

def keysOf : Option Value → List String
  | some (.record fs) => Fields.keys fs
  | _ => []

def ofFields (fs : Fields) : Except Fault Scope := do
  let metadata ← record "metadata" fs
  let spec ← record "spec" fs
  let name ← text "name" metadata
  let space ← text? "namespace" metadata
  let method ← Fields.required "probeMethod" spec
  let endpoint ← Fields.required "probeEndpoint" spec
  let status ← ScopeStatus.ofValue? (Fields.get? "status" fs)
  return ⟨name,space,method,endpoint,Fields.value "probeInterval" spec,status,
    keysOf (Fields.get? "status" fs)⟩

def nameShown (raw : Value) : Option Value := (raw.field? "metadata").bind (Value.field? "name")

/-- A scope is read only from a value of the documented shape. -/
def ofValue (raw : Value) : Except Fault Scope :=
  match Violation.foremost? (Shape.scope raw) with
  | some v => .error (.shape (nameShown raw) v)
  | none =>
    match raw with
    | .record fs => ofFields fs
    | _ => .error .notRecord

end Scope
end HealthRollup
