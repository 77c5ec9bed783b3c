import HealthRollup.Platform
import HealthRollup.Rehearsal.Store

/-! A world in memory: a store of objects behind a service, a clock that moves on with every reading, and
mishaps that make requests fail. The service keeps a record of the requests that reach it. -/
namespace HealthRollup

inductive Verb
  | list | get | patch
  deriving DecidableEq, Repr

/-- Requests of one verb and kind, to one name or to any, fail a number of times or for good. A bare
mishap strikes before the request leaves the client and is not wrapped. -/
structure Mishap where
  verb : Verb
  kind : Kind
  name : Option String
  failure : Failure
  bare : Bool
  left : Option Nat
  deriving Repr

namespace Mishap

def hits (verb : Verb) (kind : Kind) (name : Option String) (bare : Bool) (m : Mishap) : Bool :=
  m.verb == verb && m.kind == kind && m.bare == bare && m.left != some 0 &&
    (m.name.isNone || m.name == name)

def spend (m : Mishap) : Mishap := { m with left := m.left.map (·-1) }

/-- The oldest mishap that hits, and the mishaps after it has struck. -/
def strike (verb : Verb) (kind : Kind) (name : Option String) (bare : Bool) :
    List Mishap → Option Failure × List Mishap
  | [] => (none,[])
  | m::ms =>
    if hits verb kind name bare m then (some m.failure,m.spend::ms)
    else
      let r := strike verb kind name bare ms
      (r.1,m::r.2)

end Mishap

/-- `listing` stands in for every listing when it is set; `countdown` is the number of listings until
the stop signal. -/
structure World where
  store : Store
  mishaps : List Mishap
  listing : Option Value
  clock : Moment
  tick : Int
  countdown : Option Nat
  requests : List Call
  deriving Repr

namespace World

def meets (verb : Verb) (kind : Kind) (name : Option String) (bare : Bool) (w : World) :
    Option Failure × World :=
  let r := Mishap.strike verb kind name bare w.mishaps
  (r.1,{ w with mishaps := r.2 })

def absent : Failure := .response (some 404) (some "Not Found")

def verbOf : Call → Verb
  | .list _ => .list
  | .get _ _ => .get
  | .patch _ _ _ => .patch

def nameIn : Call → Option String
  | .list _ => none
  | .get _ n | .patch _ n _ => some n

/-- What the store answers when no mishap strikes. -/
def fulfil (c : Call) (w : World) : Except Failure Value × World :=
  match c with
  | .list k => (.ok (w.listing.getD (w.store.listing k)),w)
  | .get k n =>
    match w.store.find? k n with
    | some v => (.ok v,w)
    | none => (.error absent,w)
  | .patch k n body =>
    match w.store.find? k n with
    | some v =>
      let merged := Value.merge v body
      (.ok merged,{ w with store := w.store.put k n merged })
    | none => (.error absent,w)

/-- Every request is recorded, and a listing brings the stop signal nearer. -/
def record (c : Call) (w : World) : World :=
  { w with
    requests := w.requests++[c]
    countdown := if verbOf c = .list then w.countdown.map (·-1) else w.countdown }

/-- A request that reaches the service is recorded first, then a mishap may strike. -/
def service : Service World := fun c w =>
  let r := meets (verbOf c) c.kind (nameIn c) false (record c w)
  match r.1 with
  | some f => (.error f,r.2)
  | none => fulfil c r.2

/-- The reading is the time before the clock moves on. -/
def clockReading (w : World) : Except Fault Moment × World :=
  match w.clock.advance? w.tick with
  | some m => (.ok w.clock,{ w with clock := m })
  | none => (.error .overflow,w)

/-- A bare mishap comes before anything else. -/
def answer (space : String) (c : Call) (w : World) : Except Fault c.Answer × World :=
  let r := meets (verbOf c) c.kind (nameIn c) true w
  match r.1 with
  | some f => (.error (.failure f),r.2)
  | none => service.answer space c r.2

def platform (space : String) : Platform World where
  answer := answer space
  clock := clockReading
  isStopping w := w.countdown == some 0

/-- The name that an object gives itself. -/
def nameOf (v : Value) : Except Fault String :=
  match v with
  | .record fs =>
    (Fields.required "metadata" fs).bind fun
      | .record ms => (Fields.required "name" ms).map Value.plain
      | _ => .error .mistyped
  | _ => .error .mistyped

/-- Puts objects under their own names; one without a name is left out. -/
def stock (kind : Kind) (s : Store) (objects : List Value) : Store :=
  objects.foldl (fun s v =>
    match nameOf v with
    | .ok name => s.put kind name v
    | .error _ => s) s

def start (scopes components : List Value) (clock : Moment) (tick : Int) : World where
  store := stock .components (stock .scopes [] scopes) components
  mishaps := []
  listing := none
  clock := clock
  tick := tick
  countdown := none
  requests := []

end World
end HealthRollup
