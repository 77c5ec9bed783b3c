import HealthRollup.Fault

/-! What the controller reports while it works. Each notice has a level, the part that speaks, and a
wording. -/
namespace HealthRollup

inductive Level
  | debug | info | warning | error
  deriving DecidableEq, Repr

namespace Level

def name : Level → String
  | .debug => "DEBUG"
  | .info => "INFO"
  | .warning => "WARNING"
  | .error => "ERROR"

end Level

inductive Source
  | gate | aggregator | loop | query | server | client | liveness | main
  deriving DecidableEq, Repr

namespace Source

def name : Source → String
  | .gate => "healthscope.gate"
  | .aggregator => "healthscope.aggregator"
  | .loop => "healthscope.loop"
  | .query => "healthscope.query"
  | .server => "healthscope.server"
  | .client => "healthscope.client"
  | .liveness => "healthscope.health_server"
  | .main => "healthscope.main"

end Source

inductive Notice
  | badTimestamp (cause : TimestampFault)
  | probing (scope : String) | componentUnread (cause : Fault)
  | listFailed (cause : Fault) | scopeFailed (cause : Fault) | scopeBroke (cause : Fault)
  | passBroke (cause : Fault) | loopStarted (space : String) | loopStopped | heartbeat
  | queryFailed (name reason : String) | queryBroke (name : String) (cause : Fault)
  | requested (name : String)
  | clientReady (space : String) | interrupted
  | livenessChecked | livenessAnswered (line : String) (status : Nat)
  | livenessRefused (status : Nat) (reason : String)
  deriving Repr

namespace Notice

def level : Notice → Level
  | .badTimestamp _ | .componentUnread _ | .listFailed _ | .scopeFailed _ | .scopeBroke _
  | .passBroke _ | .queryFailed _ _ | .queryBroke _ _ => .error
  | .probing _ | .loopStarted _ | .loopStopped | .requested _ | .interrupted => .info
  | .heartbeat | .clientReady _ | .livenessChecked | .livenessAnswered _ _
  | .livenessRefused _ _ => .debug

def source : Notice → Source
  | .badTimestamp _ => .gate
  | .probing _ | .componentUnread _ => .aggregator
  | .listFailed _ | .scopeFailed _ | .scopeBroke _ | .passBroke _ | .loopStarted _ | .loopStopped
  | .heartbeat => .loop
  | .queryFailed _ _ | .queryBroke _ _ => .query
  | .requested _ => .server
  | .clientReady _ => .client
  | .interrupted => .main
  | .livenessChecked | .livenessAnswered _ _ | .livenessRefused _ _ => .liveness

/-- An unexpected fault is reported without its own text. -/
def message : Notice → String
  | .badTimestamp c => "parse last aggregate time failed: " ++ c.message
  | .probing s => "start to probe instance: " ++ s
  | .componentUnread c => "get component instance failed: " ++ c.message
  | .listFailed c => "get health scope list err: " ++ c.message
  | .scopeFailed c => "Error processing health scope: " ++ c.message
  | .scopeBroke _ => "Unexpected error processing health scope"
  | .passBroke _ => "health scope aggregate iteration failed"
  | .loopStarted space => "health scope aggregate loop started for namespace " ++ space
  | .loopStopped => "health scope aggregate loop stopped"
  | .heartbeat => "health scope aggregate loop running..."
  | .queryFailed n r => "health query for " ++ n ++ " failed: " ++ r
  | .queryBroke n _ => "health query for " ++ n ++ " failed unexpectedly"
  | .requested n => n ++ " health scope requested"
  | .clientReady space => "Kubernetes client initialized for namespace " ++ space
  | .interrupted => "interrupted, shutting down"
  | .livenessChecked => "health check"
  | .livenessAnswered line status => "127.0.0.1 - \"" ++ line ++ "\" " ++ toString status ++ " -"
  | .livenessRefused status reason =>
    "127.0.0.1 - code " ++ toString status ++ ", message " ++ reason

end Notice
end HealthRollup
