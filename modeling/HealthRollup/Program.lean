import HealthRollup.Notice
import HealthRollup.Time.Moment

/-! Programs: what a part of the controller does, as the tree of its exchanges with the world. It asks
the platform, reads the clock, looks for the stop signal and reports; every answer, a failure too, leads
on to a program of its own. -/
namespace HealthRollup

/-- What a request is answered with when it succeeds. -/
abbrev Call.Answer : Call → Type
  | .list _ => List Value
  | .get _ _ | .patch _ _ _ => Value

inductive Program (α : Type) : Type
  | done (a : α) | fail (f : Fault)
  | say (n : Notice) (next : Program α)
  | clock (next : Except Fault Moment → Program α)
  | poll (next : Bool → Program α)
  | ask (c : Call) (next : Except Fault c.Answer → Program α)

namespace Program
variable {α β : Type}

def andThen (f : α → Program β) : Program α → Program β
  | .done a => f a
  | .fail e => .fail e
  | .say n x => .say n (andThen f x)
  | .clock k => .clock fun t => andThen f (k t)
  | .poll k => .poll fun b => andThen f (k b)
  | .ask c k => .ask c fun r => andThen f (k r)

/-- Failure becomes a value, and the program goes on. -/
def attempt : Program α → Program (Except Fault α)
  | .done a => .done (.ok a)
  | .fail e => .done (.error e)
  | .say n x => .say n (attempt x)
  | .clock k => .clock fun t => attempt (k t)
  | .poll k => .poll fun b => attempt (k b)
  | .ask c k => .ask c fun r => attempt (k r)

def ofExcept : Except Fault α → Program α
  | .ok a => .done a
  | .error e => .fail e

instance : Monad Program where
  pure := .done
  bind x f := andThen f x

def note (n : Notice) : Program Unit := .say n (.done ())

def report : List Notice → Program Unit
  | [] => .done ()
  | n::ns => .say n (report ns)

def now : Program Moment := .clock ofExcept
def isStopping : Program Bool := .poll .done
def list (k : Kind) : Program (List Value) := .ask (.list k) ofExcept
def get (k : Kind) (name : String) : Program Value := .ask (.get k name) ofExcept
def patch (k : Kind) (name : String) (body : Value) : Program Value :=
  .ask (.patch k name body) ofExcept

theorem pure_eq (a : α) : (pure a : Program α) = .done a := rfl
theorem bind_eq (x : Program α) (f : α → Program β) : x >>= f = andThen f x := rfl

@[simp] theorem andThen_done (f : α → Program β) (a : α) : andThen f (.done a) = f a := rfl
@[simp] theorem andThen_fail (f : α → Program β) (e : Fault) : andThen f (.fail e) = .fail e := rfl
@[simp] theorem ofExcept_ok (a : α) : ofExcept (.ok a) = .done a := rfl
@[simp] theorem ofExcept_error (e : Fault) : (ofExcept (.error e) : Program α) = .fail e := rfl

end Program
end HealthRollup
