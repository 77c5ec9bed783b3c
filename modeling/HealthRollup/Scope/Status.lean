import HealthRollup.Fault

/-! The status block of a scope: the components it refers to with their last observed states, and the
time of the last aggregation. The block may hold values of any kind; only a components entry that is no
collection of records with both names is refused. Folding a block gives the verdict on its scope. -/
namespace HealthRollup

/-- A component whose state is `null` has not been observed yet. -/
structure ComponentRef where
  name : Value
  instanceName : Value
  state : Value
  deriving DecidableEq, Repr, Inhabited

def healthy : String := "healthy"
def unhealthy : String := "unhealthy"

def combineName (name instanceName : String) : String := name ++ "-" ++ instanceName

namespace ComponentRef

/-- The name of the component's own object on the platform. -/
def key (r : ComponentRef) : String := combineName r.name.plain r.instanceName.plain

def toFields (r : ComponentRef) : Fields :=
  ("instanceName",r.instanceName)::("name",r.name)::Fields.unlessNull "status" r.state

def toValue (r : ComponentRef) : Value := .record r.toFields

def ofValue : Value → Except Fault ComponentRef
  | .record fs => do
    let name ← Fields.required "name" fs
    let instanceName ← Fields.required "instanceName" fs
    return ⟨name,instanceName,Fields.value "status" fs⟩
  | _ => .error .mistyped

theorem ofValue_toValue (r : ComponentRef) : ofValue r.toValue = .ok r := by
  obtain ⟨n,i,s⟩ := r
  cases s <;> rfl

def isHealthy (r : ComponentRef) : Bool := r.state == .null || r.state == .text healthy

end ComponentRef

/-- Without components there is no list of them, which is not an empty list. A time that is `null` is
unset. -/
structure ScopeStatus where
  components : Option (List ComponentRef)
  aggregatedAt : Value
  deriving DecidableEq, Repr, Inhabited

namespace ScopeStatus

/-- Unset parts have no field. -/
def toFields (s : ScopeStatus) : Fields :=
  (s.components.map fun cs => ("components",Value.list (cs.map ComponentRef.toValue))).toList++
    Fields.unlessNull "lastAggregateTimestamp" s.aggregatedAt

def toValue (s : ScopeStatus) : Value := .record s.toFields

def componentsOf (fs : Fields) : Except Fault (Option (List ComponentRef)) :=
  match Fields.value "components" fs with
  | .null => .ok none
  | v =>
    match v.elements? with
    | some xs => (xs.mapM ComponentRef.ofValue).map some
    | none => .error .notCollection

def ofFields (fs : Fields) : Except Fault ScopeStatus := do
  let components ← componentsOf fs
  return ⟨components,Fields.value "lastAggregateTimestamp" fs⟩

/-- An absent block and `null` are no status. -/
def ofValue? : Option Value → Except Fault (Option ScopeStatus)
  | none | some .null => .ok none
  | some (.record fs) => (ofFields fs).map some
  | some _ => .error .notRecord

/-- A component that has not been observed does not count against the scope. -/
def verdict (s : Option ScopeStatus) : String :=
  match s.bind ScopeStatus.components with
  | some cs => if cs.all ComponentRef.isHealthy then healthy else unhealthy
  | none => healthy

@[simp] theorem verdict_none : verdict none = healthy := rfl

end ScopeStatus
end HealthRollup
