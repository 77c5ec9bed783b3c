import HealthRollup.Platform
import HealthRollup.Query

/-! Queries in flight. Every query has a worker and a future of its own. The worker evaluates the query
exchange by exchange and posts what comes out; whoever awaits the queries delivers the posts in their
order. Between any two moves other queries and other writers may have theirs, and a query may be
cancelled at any time. -/
namespace HealthRollup

inductive Future
  | waiting | answered (text : String) | cancelled
  deriving DecidableEq, Repr

namespace Future

/-- Only a future that waits takes an answer. -/
def answer (text : String) : Future → Future
  | .waiting => .answered text
  | f => f

def cancel : Future → Future
  | .waiting => .cancelled
  | f => f

@[simp] theorem answer_waiting (t : String) : answer t .waiting = .answered t := rfl
@[simp] theorem answer_answered (t u : String) : answer t (.answered u) = .answered u := rfl
@[simp] theorem answer_cancelled (t : String) : answer t .cancelled = .cancelled := rfl

end Future

/-- `worker` is what is left of the evaluation, and nothing once the answer is posted. -/
structure Flight where
  name : String
  worker : Option (Program String)
  future : Future

/-- Flights are numbered in the order of their start; a post is a flight's number and its answer. -/
structure InFlight (σ : Type) where
  state : σ
  flights : List Flight
  posts : List (Nat × String)

namespace InFlight
variable {σ : Type}

inductive Move (σ : Type)
  | start (name : String) | work (flight : Nat) | deliver | cancel (flight : Nat) | write (state : σ)

def empty (s : σ) : InFlight σ := ⟨s,[],[]⟩

def start (name : String) (d : InFlight σ) : InFlight σ :=
  { d with flights := d.flights++[⟨name,some (Query.evaluate name),.waiting⟩] }

/-- The next exchange of a flight's worker, or the post of its answer. -/
def work (p : Platform σ) (i : Nat) (d : InFlight σ) : InFlight σ :=
  match d.flights[i]? with
  | some ⟨_,some (.done text),_⟩ =>
    { d with
      flights := d.flights.modify i fun f => { f with worker := none }
      posts := d.posts++[(i,text)] }
  | some ⟨_,some x,_⟩ =>
    { d with
      state := (Program.advance p x d.state).2
      flights := d.flights.modify i fun f => { f with worker := some (Program.advance p x d.state).1 } }
  | _ => d

/-- A post reaches the future of its own flight and no other. -/
def deliver (d : InFlight σ) : InFlight σ :=
  match d.posts with
  | [] => d
  | (i,text)::rest =>
    { d with
      flights := d.flights.modify i fun f => { f with future := f.future.answer text }
      posts := rest }

def cancel (i : Nat) (d : InFlight σ) : InFlight σ :=
  { d with flights := d.flights.modify i fun f => { f with future := f.future.cancel } }

def move (p : Platform σ) (d : InFlight σ) : Move σ → InFlight σ
  | .start name => d.start name
  | .work i => d.work p i
  | .deliver => d.deliver
  | .cancel i => d.cancel i
  | .write s => { d with state := s }

def moves (p : Platform σ) : InFlight σ → List (Move σ) → InFlight σ
  | d, [] => d
  | d, m::ms => moves p (move p d m) ms

@[simp] theorem moves_nil (p : Platform σ) (d : InFlight σ) : moves p d [] = d := rfl
@[simp] theorem moves_cons (p : Platform σ) (d : InFlight σ) (m : Move σ) (ms : List (Move σ)) :
    moves p d (m::ms) = moves p (move p d m) ms := rfl

theorem moves_append (p : Platform σ) (d : InFlight σ) (ms ns : List (Move σ)) :
    moves p d (ms++ns) = moves p (moves p d ms) ns := by
  induction ms generalizing d with
  | nil => rfl
  | cons m ms ih => exact ih (move p d m)

end InFlight
end HealthRollup
