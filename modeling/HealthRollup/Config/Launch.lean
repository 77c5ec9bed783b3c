import HealthRollup.Config.Flags
import HealthRollup.Config.Settings
import HealthRollup.Notice

/-! From a command line and an environment to settings. Flags take precedence over the environment, but
both addresses of the environment must be readable even where a flag replaces them. -/
namespace HealthRollup

/-- An early end of the program, with what it prints. -/
structure Exit where
  code : Nat
  output : String
  errors : String
  deriving DecidableEq, Repr

structure Launch where
  config : Fields
  level : Nat

inductive LaunchResult
  | exit (e : Exit) | failed (f : Fault) | ready (l : Launch)

namespace Launch

def levels : List (String × Nat) :=
  [("CRITICAL",50),("FATAL",50),("ERROR",40),("WARN",30),("WARNING",30),("INFO",20),("DEBUG",10),
    ("NOTSET",0)]

/-- Upper case as far as the level names need it: ASCII letters, and the two other letters whose upper
case is an ASCII letter. -/
def upperChar (c : Char) : Char :=
  if c = 'ı' then 'I' else if c = 'ſ' then 'S' else c.toUpper

def level? (name : String) : Option Nat :=
  levels.lookup (String.ofList (name.toList.map upperChar))

def levelOf (fs : Flags) (env : Environment) : Except Fault Nat :=
  match fs.level with
  | some .blank => .error .blankLevel
  | some (.text s) => named s
  | none => named ((env.lookup "LOG_LEVEL").getD "INFO")
where
  named (s : String) : Except Fault Nat :=
    match level? s with
    | some n => .ok n
    | none => .error (.unknownLevel s)

def addressFields (host port : String) (a : Option Argument) : Except Fault Fields :=
  match Argument.given? a with
  | none => .ok []
  | some s =>
    match Address.read s with
    | .ok a => .ok [(host,.text a.host),(port,.int a.port)]
    | .error e => .error (.address e)

/-- A blank value is an empty list. -/
def argumentValue : Option Argument → Value
  | none => .null
  | some (.text s) => .text s
  | some .blank => .list []

def configOf (fs : Flags) (env : Environment) : Except Fault Fields := do
  let settings ← (Settings.ofEnvironment env).mapError Fault.address
  let endpoint ← addressFields "endpoint_host" "endpoint_port" fs.endpoint
  let liveness ← addressFields "liveness_host" "liveness_port" fs.metrics
  Settings.amend settings.toFields
    ([("namespace",argumentValue fs.space),("kubeconfig",argumentValue fs.kubeconfig)]++
      endpoint++liveness)

/-- An unknown level is found before the settings are read. -/
def ofFlags (fs : Flags) (env : Environment) : Except Fault Launch := do
  let level ← levelOf fs env
  let config ← configOf fs env
  return ⟨config,level⟩

def run (arguments : List String) (env : Environment) : LaunchResult :=
  match CommandLine.read arguments with
  | .help => .exit ⟨0,CommandLine.helpText,""⟩
  | .version => .exit ⟨0,CommandLine.versionText,""⟩
  | .refused reason => .exit ⟨2,"",CommandLine.refusalText reason⟩
  | .flags fs =>
    match ofFlags fs env with
    | .ok l => .ready l
    | .error f => .failed f

/-- An interrupt ends the program quietly. -/
def farewell (interrupted : Bool) : List Notice := if interrupted then [.interrupted] else []

end Launch
end HealthRollup
