import HealthRollup.Config.Settings
import HealthRollup.Loop
import HealthRollup.Loop.Workers

/-! The controller as a whole: a liveness server, the aggregation loop and a query server, started in
this order and stopped from the query server on. A start that fails leaves what it has started for the
next stop. -/
namespace HealthRollup

/-- The servers it holds, numbered by the start that made them, and the workers of its loop. -/
structure Controller where
  starts : Nat
  liveness : Option Nat
  loop : Workers
  runner : Option Nat
  deriving DecidableEq, Repr, Inhabited

namespace Controller

inductive Event
  | livenessOpened (n : Nat) (b : Binding) | livenessStarted (n : Nat) | loopStarted
  | served (n : Nat) (b : Binding)
  | cleanedUp (n : Nat) | loopStopped | livenessStopped (n : Nat)
  deriving DecidableEq, Repr

namespace Event

/-- Events of the two servers, as against those of the loop. -/
def ofServers : Event → Bool
  | .loopStarted | .loopStopped => false
  | _ => true

end Event

/-- Where a start may fail. -/
inductive Obstacle
  | opening | serving
  deriving DecidableEq, Repr

/-- The steps of the workers that fall into a stop belong to it. -/
inductive Move
  | start (obstacle : Option Obstacle) | stop (meanwhile : List Nat) | work (worker : Nat)
  deriving DecidableEq, Repr

def fresh : Controller := ⟨0,none,Workers.idle,none⟩

/-- Whether a move went through, the controller after it, and what happened. -/
structure Transition where
  succeeded : Bool
  after : Controller
  events : List Event
  deriving DecidableEq, Repr

/-- The settings are given as a record. -/
def start (settings : Fields) (obstacle : Option Obstacle) (c : Controller) : Transition :=
  let n := c.starts
  let up : List Event := [.livenessOpened n (Settings.livenessIn settings),.livenessStarted n,.loopStarted]
  match obstacle with
  | some .opening => ⟨false,{ c with starts := n+1 },[]⟩
  | some .serving => ⟨false,{ c with starts := n+1, liveness := some n, loop := c.loop.start },up⟩
  | none =>
    ⟨true,⟨n+1,some n,c.loop.start,some n⟩,up++[.served n (Settings.endpointIn settings)]⟩

/-- The servers are stopped as far as there are any, the loop in any case, and its worker is waited for to the
end. -/
def stop? (meanwhile : List Nat) (c : Controller) : Option Transition :=
  (c.loop.moves? (Workers.wholeStop meanwhile)).map fun loop =>
    ⟨true,{ c with liveness := none, loop := loop, runner := none },
      c.runner.toList.map .cleanedUp++[.loopStopped]++c.liveness.toList.map .livenessStopped⟩

def move? (settings : Fields) (c : Controller) : Move → Option Transition
  | .start obstacle => some (c.start settings obstacle)
  | .stop meanwhile => c.stop? meanwhile
  | .work i => (c.loop.move? (.work i)).map fun loop => ⟨true,{ c with loop := loop },[]⟩

/-- One line of a controller's log. -/
structure Entry where
  move : Move
  transition : Transition
  deriving DecidableEq, Repr

def moves? (settings : Fields) : Controller → List Move → Option (Controller × List Entry)
  | c, [] => some (c,[])
  | c, m::ms =>
    (c.move? settings m).bind fun t => (moves? settings t.after ms).map fun r => (r.1,⟨m,t⟩::r.2)

def events (log : List Entry) : List Event := log.flatMap fun e => e.transition.events

/-- From its start, if it is started, to a number of stops. The first stop comes into a pass. -/
def schedule (started : Bool) (stops : Nat) : List Move :=
  match started, stops with
  | false, n => List.replicate n (.stop [])
  | true, 0 => [.start none,.work 0]
  | true, n+1 => [.start none,.work 0,.stop [0,0,0]]++List.replicate n (.stop [])

/-- What a controller does in its life. -/
def life (settings : Fields) (started : Bool) (stops : Nat) : List Event :=
  match fresh.moves? settings (schedule started stops) with
  | some (_,log) => events log
  | none => []

example (settings : Fields) : life settings true 1 =
    [.livenessOpened 0 (Settings.livenessIn settings),.livenessStarted 0,.loopStarted,
      .served 0 (Settings.endpointIn settings),.cleanedUp 0,.loopStopped,.livenessStopped 0] := rfl

end Controller
end HealthRollup
