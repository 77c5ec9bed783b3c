import HealthRollup.Loop
import HealthRollup.Rehearsal.World
import HealthRollup.Server.Endpoint

/-! Scripts that play the controller in a world in memory. Besides the world, a script keeps scopes it
has loaded, each under its name, and one aggregation loop with its count of passes. -/
namespace HealthRollup

structure Stage where
  space : String
  interval : Value

structure Bench where
  world : World
  kept : List (String × Scope)
  passes : Nat

namespace Bench

def hold (name : String) (s : Scope) (b : Bench) : Bench :=
  { b with kept := (name,s)::b.kept.filter fun e => e.1 != name }

def drop (name : String) (b : Bench) : Bench :=
  { b with kept := b.kept.filter fun e => e.1 != name }

def held (name : String) (b : Bench) : Except Fault Scope :=
  match b.kept.lookup name with
  | some s => .ok s
  | none => .error (.missing name)

end Bench

/-- Changes to a kept scope; what is absent stays as it is. The known keys of its status block stay too. -/
structure Edit where
  status : Option Value
  interval : Option Value
  probe : Option (Value × Value)

namespace Edit

def statusOf (e : Edit) (s : Scope) : Except Fault (Option ScopeStatus) :=
  match e.status with
  | some v => ScopeStatus.ofValue? (some v)
  | none => .ok s.status

def apply (e : Edit) (s : Scope) : Except Fault Scope :=
  (e.statusOf s).map fun status =>
    { s with
      status := status
      interval := e.interval.getD s.interval
      method := (e.probe.map Prod.fst).getD s.method
      endpoint := (e.probe.map Prod.snd).getD s.endpoint }

end Edit

inductive Step
  | put (kind : Kind) (name : Option String) (object : Value)
  | delete (kind : Kind) (name : String)
  | fail (m : Mishap) | heal | listing (v : Option Value) | setClock (now : Moment) (tick : Int)
  | dump | list (kind : Kind) | get (kind : Kind) (name : String)
  | patch (kind : Kind) (name : String) (body : Value)
  | load (name : String) | kept (name : String) | edit (name : String) (e : Edit)
  | aggregate (name : String) | health (r : ComponentRef)
  | pass | loop (passes : Nat) | stoppedLoop
  | query (name : String) | http (method target : String)

inductive Answer
  | nothing | truth (b : Bool) | value (v : Value) | scope (s : Scope) | report (r : Report)
  | text (s : String) | reply (r : Reply) | store (s : Store)

/-- A step's result, the requests it made, what was reported, and the bench after it. -/
structure Played where
  result : Except Fault Answer
  requests : List Call
  notices : List Notice
  bench : Bench

namespace Stage

def platform (g : Stage) : Platform World := World.platform g.space

def quiet (b : Bench) (r : Except Fault Answer) : Played := ⟨r,[],[],b⟩

/-- Plays a program in the bench's world. -/
def play {α : Type} (g : Stage) (b : Bench) (x : Program α)
    (answer : Except Fault α → Except Fault Answer) (after : Except Fault α → Bench → Bench) : Played :=
  let o := x.run g.platform { b.world with requests := [] }
  ⟨answer o.result,o.state.requests,o.notices,after o.result { b with world := o.state }⟩

def plainly {α : Type} (g : Stage) (b : Bench) (x : Program α) (answer : α → Answer) : Played :=
  play g b x (Except.map answer) fun _ b => b

def runLoop (g : Stage) (b : Bench) (countdown : Nat) : Played :=
  let b := { b with world := { b.world with countdown := some countdown } }
  play g b (Loop.forever g.space g.interval (countdown+1) b.passes)
    (Except.map fun _ => .nothing) fun r b =>
      { b with
        passes := match r with
          | .ok (some n) => n
          | _ => b.passes
        world := { b.world with countdown := none } }

def aggregateKept (g : Stage) (b : Bench) (name : String) : Played :=
  match b.held name with
  | .error f => quiet b (.error f)
  | .ok s =>
    play g b (Aggregation.ofScope g.interval s)
      (Except.map fun a => .truth a.isWritten) fun r b => b.hold name (Aggregation.kept s r)

def editKept (b : Bench) (name : String) (e : Edit) : Played :=
  match (b.held name).bind e.apply with
  | .error f => quiet b (.error f)
  | .ok s => quiet (b.hold name s) (.ok (.scope s))

/-- Puts an object under the name given or, without one, under its own. -/
def putObject (b : Bench) (k : Kind) (name : Option String) (v : Value) : Played :=
  match name.elim (World.nameOf v) Except.ok with
  | .ok n => quiet { b with world := { b.world with store := b.world.store.put k n v } } (.ok .nothing)
  | .error f => quiet b (.error f)

def world (b : Bench) (w : World) (a : Answer) : Played := quiet { b with world := w } (.ok a)

def step (g : Stage) (b : Bench) : Step → Played
  | .put k n v => putObject b k n v
  | .delete k n =>
    world b { b.world with store := b.world.store.delete k n }
      (.truth (b.world.store.find? k n).isSome)
  | .fail m => world b { b.world with mishaps := b.world.mishaps++[m] } .nothing
  | .heal => world b { b.world with mishaps := [] } .nothing
  | .listing v => world b { b.world with listing := v } .nothing
  | .setClock now tick => world b { b.world with clock := now, tick := tick } .nothing
  | .dump => quiet b (.ok (.store b.world.store))
  | .list k => plainly g b (Program.list k) fun xs => .value (.list xs)
  | .get k n => plainly g b (Program.get k n) .value
  | .patch k n body => plainly g b (Program.patch k n body) .value
  | .load n =>
    play g b (Scope.load n) (Except.map .scope) fun r b =>
      match r with
      | .ok s => b.hold n s
      | .error _ => b.drop n
  | .kept n => quiet b ((b.held n).map .scope)
  | .edit n e => editKept b n e
  | .aggregate n => aggregateKept g b n
  | .health r => plainly g b (Aggregation.componentState r) .text
  | .pass => plainly g b (Pass.once g.interval) .report
  | .loop n => runLoop g b n
  | .stoppedLoop => runLoop g b 0
  | .query n => plainly g b (Query.evaluate n) .text
  | .http m t => plainly g b (Endpoint.respond m t) .reply

def script (g : Stage) : Bench → List Step → List Played
  | _, [] => []
  | b, s::ss =>
    let p := step g b s
    p::script g p.bench ss

end Stage
end HealthRollup
