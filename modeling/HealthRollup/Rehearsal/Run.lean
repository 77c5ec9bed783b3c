import HealthRollup.Controller
import HealthRollup.Rehearsal.Script

/-! A controller's whole life in a world in memory: its events, the pass it makes between start and stop,
and the answers to queries afterwards. -/
namespace HealthRollup
namespace Rehearsal

structure Result where
  events : List Controller.Event
  answers : List String
  world : World

def ask : List String → Program (List String)
  | [] => pure []
  | n::ns => do
    let a ← Query.evaluate n
    let rest ← ask ns
    return a::rest

/-- The period is long enough for one pass only. -/
def run (space : String) (settings : Fields) (w : World) (started : Bool) (stops : Nat)
    (queries : List String) : Result :=
  let p := World.platform space
  let w := if started then ((Loop.turn (Settings.intervalIn settings) 0).run p w).state else w
  let o := (ask queries).run p w
  ⟨(Controller.life settings started stops).filter Controller.Event.ofServers,
    match o.result with
    | .ok answers => answers
    | .error _ => [],
    o.state⟩

end Rehearsal
end HealthRollup
