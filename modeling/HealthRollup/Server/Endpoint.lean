import HealthRollup.Query
import HealthRollup.Server.Target

/-! The query endpoint. `GET /name` answers with the health of the scope of that name; every other
request that reaches the handler is answered with 404 and nothing else. -/
namespace HealthRollup

structure Reply where
  status : Nat
  contentType : Option String
  body : String
  deriving DecidableEq, Repr, Inhabited

namespace Reply

def empty (status : Nat) : Reply := ⟨status,none,""⟩
def plain (status : Nat) (body : String) : Reply := ⟨status,some "text/plain",body⟩

/-- The length of the body, in bytes. -/
def contentLength (r : Reply) : String := toString r.body.utf8ByteSize

end Reply

namespace Endpoint

/-- What follows the leading slash of a path. The route takes no path with a line break in it. -/
def tail? : List Char → Option String
  | '/' :: name => if name.contains '\n' then none else some (String.ofList name)
  | _ => none

def isQuery (method name : String) : Bool :=
  method == "GET" && !name.isEmpty && !name.toList.contains '/'

def handle (method name : String) : Program Reply :=
  if isQuery method name then do
    Program.note (.requested name)
    let body ← Query.evaluate name
    return .plain 200 body
  else pure (.empty 404)

/-- A path without route is answered by the router itself. -/
def answer (method : String) (path : List Char) : Program Reply :=
  match tail? path with
  | some name => handle method name
  | none => pure (.plain 404 "404: Not Found")

def respond (method target : String) : Program Reply :=
  match Target.path? target with
  | some path => answer method path
  | none => .fail (.target target)

end Endpoint
end HealthRollup
