import HealthRollup.Config.Address

/-! Settings of the controller. They come from the environment, where an empty variable counts as unset;
single fields may then be replaced by values of any kind, which nothing checks. -/
namespace HealthRollup

abbrev Environment := List (String × String)

namespace Environment

/-- A variable that is set and not empty. -/
def given? (env : Environment) (name : String) : Option String :=
  (env.lookup name).bind fun s => if s.isEmpty then none else some s

end Environment

/-- Where a server is to listen, by values of any kind that are handed on as they are. -/
structure Binding where
  host : Value
  port : Value
  deriving DecidableEq, Repr, Inhabited

namespace Binding

def ofAddress (a : Address) : Binding := ⟨.text a.host,.int a.port⟩

end Binding

structure Settings where
  space : String
  endpoint : Address
  liveness : Address
  period : Number
  interval : Number
  kubeconfig : Option String
  deriving DecidableEq, Repr

namespace Settings

/-- Passes are five seconds apart, and a scope that sets no interval is due every thirty seconds. -/
def standard : Settings where
  space := "default"
  endpoint := ⟨Address.anyHost,80⟩
  liveness := ⟨Address.anyHost,8080⟩
  period := .real (Binary64.ofRatio false 5 1)
  interval := .int 30
  kubeconfig := none

def ofEnvironment (env : Environment) : Except AddressFault Settings := do
  let endpoint ← Address.read ((env.given? "HEALTHSCOPE_ENDPOINT_ADDR").getD ":80")
  let liveness ← Address.read ((env.given? "HEALTHSCOPE_METRICS_ADDR").getD ":8080")
  return { standard with
    space := (env.given? "KUBERNETES_NAMESPACE").getD standard.space
    endpoint := endpoint
    liveness := liveness
    kubeconfig := env.given? "KUBECONFIG" }

def textOrNull : Option String → Value
  | some s => .text s
  | none => .null

/-- The settings as a record, field by field in ascending order. -/
def toFields (s : Settings) : Fields :=
  [("aggregation_period",.num s.period),("default_probe_interval",.num s.interval),
    ("endpoint_host",.text s.endpoint.host),("endpoint_port",.int s.endpoint.port),
    ("kubeconfig",textOrNull s.kubeconfig),("liveness_host",.text s.liveness.host),
    ("liveness_port",.int s.liveness.port),("namespace",.text s.space)]

/-- Puts values of any kind, `null` too, in the place of known fields. -/
def replace (fs : Fields) : Fields → Except Fault Fields
  | [] => .ok fs
  | (k,v)::cs =>
    if (Fields.get? k fs).isSome then replace (Fields.put k v fs) cs else .error (.unknownField k)

/-- Here `null` leaves a field as it is, even one that is not known. -/
def amend (fs changes : Fields) : Except Fault Fields :=
  replace fs (changes.filter fun c => c.2 != .null)

@[simp] theorem replace_nil (fs : Fields) : replace fs [] = .ok fs := rfl
@[simp] theorem amend_nil (fs : Fields) : amend fs [] = .ok fs := rfl

def endpointIn (fs : Fields) : Binding :=
  ⟨Fields.value "endpoint_host" fs,Fields.value "endpoint_port" fs⟩

def livenessIn (fs : Fields) : Binding :=
  ⟨Fields.value "liveness_host" fs,Fields.value "liveness_port" fs⟩

@[simp] theorem endpointIn_toFields (s : Settings) : endpointIn s.toFields = Binding.ofAddress s.endpoint :=
  rfl
@[simp] theorem livenessIn_toFields (s : Settings) : livenessIn s.toFields = Binding.ofAddress s.liveness :=
  rfl

def intervalIn (fs : Fields) : Value := Fields.value "default_probe_interval" fs

@[simp] theorem intervalIn_toFields (s : Settings) : intervalIn s.toFields = .num s.interval := rfl

theorem toFields_ordered (s : Settings) : Fields.Ordered s.toFields := by
  have h : Fields.keys s.toFields = Fields.keys standard.toFields := rfl
  unfold Fields.Ordered
  rw [h]
  decide +kernel

end Settings
end HealthRollup
