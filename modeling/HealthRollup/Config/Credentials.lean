import HealthRollup.Config.Settings
import HealthRollup.Notice

/-! Credentials for the platform: where they are loaded from, and what a failure to load them means. -/
namespace HealthRollup

inductive Loader
  | file (path : String) | cluster | standard
  deriving DecidableEq, Repr

namespace Credentials

/-- A given file comes first; a process inside the cluster uses the cluster's own credentials. -/
def loader (env : Environment) (kubeconfig : Option String) : Loader :=
  match kubeconfig.bind fun s => if s.isEmpty then none else some s with
  | some path => .file path
  | none => if (env.given? "KUBERNETES_PORT").isSome then .cluster else .standard

/-- Configuration and system failures while loading are the client's; others pass unchanged. -/
def loadFault : Failure → Fault
  | .configuration s => .credentials (.configuration s)
  | .system s => .credentials (.system s)
  | f => .failure f

def connect (space : String) (failure : Option Failure) : Except Fault Unit × List Notice :=
  match failure with
  | some f => (.error (loadFault f),[])
  | none => (.ok (),[.clientReady space])

end Credentials
end HealthRollup
