import HealthRollup.Scope.Shape
import HealthRollup.Time.Timestamp
import HealthRollup.Value.Equality

/-! What can go wrong, as causes, and the wording of each. -/
namespace HealthRollup

/-- The two kinds of objects that the controller works with. -/
inductive Kind
  | scopes | components
  deriving DecidableEq, Repr, Inhabited

namespace Kind

def group : String := "core.oam.dev"
def version : String := "v1alpha1"

def plural : Kind → String
  | .scopes => "healthscopes"
  | .components => "componentinstances"

def label (k : Kind) : String := k.plural ++ "." ++ group ++ "/" ++ version

end Kind

/-- One request to the platform. -/
inductive Call
  | list (kind : Kind) | get (kind : Kind) (name : String)
  | patch (kind : Kind) (name : String) (body : Value)
  deriving Repr, Inhabited

namespace Call

def kind : Call → Kind
  | .list k | .get k _ | .patch k _ _ => k

def name : Call → String
  | .list _ => ""
  | .get _ n | .patch _ n _ => n

def describe (space : String) : Call → String
  | .list k => "list " ++ k.label ++ " in " ++ space
  | .get k n => "get " ++ k.label ++ " " ++ space ++ "/" ++ n
  | .patch k n _ => "patch " ++ k.label ++ " " ++ space ++ "/" ++ n

end Call

/-- A failure below the controller: an answer with an error status, or a fault of the library or system
that carries the request. -/
inductive Failure
  | response (status : Option Int) (reason : Option String)
  | runtime (text : String) | value (text : String) | system (text : String)
  | lookup (key : Option String) | configuration (text : String)
  deriving DecidableEq, Repr, Inhabited

namespace Failure

/-- The word that stands for a failure without a text. -/
def label : Failure → String
  | .response _ _ => "ApiException"
  | .runtime _ => "RuntimeError"
  | .value _ => "ValueError"
  | .system _ => "OSError"
  | .lookup _ => "KeyError"
  | .configuration _ => "ConfigException"

def text : Failure → String
  | .response status reason =>
    "(" ++ (status.map toString).getD "None" ++ ")\nReason: " ++ reason.getD "None" ++ "\n"
  | .runtime s | .value s | .system s | .configuration s => s
  | .lookup key => (key.map Quoted.encode).getD ""

end Failure

/-- Why an address was refused. -/
inductive AddressFault
  | format (address : String) | port (address : String) | range (address : String)
  deriving DecidableEq, Repr

namespace AddressFault

def message : AddressFault → String
  | .format a => "Invalid address format: " ++ a
  | .port a => "Invalid port in address: " ++ a
  | .range a => "Port out of range in address: " ++ a

end AddressFault

inductive Fault
  | failure (cause : Failure)
  | request (call : Call) (space : String) (cause : Failure)
  | credentials (cause : Failure)
  | shape (name : Option Value) (violation : Violation)
  | timestamp (cause : TimestampFault)
  | unsupportedProbe (method endpoint : Value)
  | writeBack (name : String) (cause : Fault)
  | address (cause : AddressFault)
  | missing (key : String) | notRecord | notCollection | notText | mistyped
  | unknownField (key : String) | unknownLevel (name : String) | blankLevel | overflow
  | target (text : String)
  deriving Repr, Inhabited

namespace Fault

/-- A request that failed at the platform, as the client reports it. -/
def isRequest : Fault → Bool
  | .request _ _ _ | .credentials _ => true
  | _ => false

/-- Foreseen by the controller; all else is reported as unexpected. -/
def isForeseen : Fault → Bool
  | .request _ _ _ | .credentials _ | .shape _ _ | .timestamp _ | .unsupportedProbe _ _
  | .writeBack _ _ | .address _ => true
  | .failure _ | .missing _ | .notRecord | .notCollection | .notText | .mistyped
  | .unknownField _ | .unknownLevel _ | .blankLevel | .overflow | .target _ => false

/-- The name a scope goes by in a message about its shape. -/
def shownName (name : Option Value) : String :=
  match name with
  | some v => if v.isGiven then v.plain else "<unnamed>"
  | none => "<unnamed>"

def message : Fault → String
  | .failure c => c.text
  | .request call space c => call.describe space ++ " failed: " ++ c.text
  | .credentials c => "Unable to load kubernetes configuration: " ++ c.text
  | .shape name v =>
    "Scope " ++ shownName name ++ " failed schema validation at " ++ v.location ++ ": " ++
      v.breach.message
  | .timestamp c => c.message
  | .unsupportedProbe m e =>
    "unknown probe-method " ++ m.plain ++ " and probe-endpoint " ++ e.plain
  | .writeBack n c => "write back status of " ++ n ++ " failed: " ++ c.message
  | .address c => c.message
  | .missing k => Quoted.encode k
  | .notRecord => "not a record"
  | .notCollection => "not made of parts"
  | .notText => "not a text"
  | .mistyped => "not of the kind needed here"
  | .unknownField k => "unknown field " ++ Quoted.encode k
  | .unknownLevel n => "unknown level " ++ Quoted.encode n
  | .blankLevel => "no level given"
  | .overflow => "date value out of range"
  | .target s => "no request target " ++ Quoted.encode s

/-- What is shown of a fault: its message, or the label of a failure that has no text. -/
def shown : Fault → String
  | .failure c => if c.text.isEmpty then c.label else c.text
  | f => f.message

end Fault

/-- The value of a field that must not be absent. -/
def Fields.required (k : String) (fs : Fields) : Except Fault Value :=
  match get? k fs with
  | some v => .ok v
  | none => .error (.missing k)

end HealthRollup
