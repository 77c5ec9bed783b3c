/-! Starting and stopping the aggregation loop. A start puts a new worker on its way, a stop raises the
stop signal and waits for the worker it holds, but perhaps not until its end. All workers look at one
signal, and only one of them at a time is held. -/
namespace HealthRollup

/-- Between two passes a worker waits, then looks at the signal; a worker that finds it raised has
ended. -/
inductive Phase
  | looking | passing | waiting | ended
  deriving DecidableEq, Repr

namespace Phase

/-- A worker's own step under the signal. -/
def next (signal : Bool) : Phase → Phase
  | .looking => if signal then .ended else .passing
  | .passing => .waiting
  | .waiting => .looking
  | .ended => .ended

@[simp] theorem next_ended (signal : Bool) : next signal .ended = .ended := rfl
@[simp] theorem next_looking_true : next true .looking = .ended := rfl
@[simp] theorem next_looking_false : next false .looking = .passing := rfl

end Phase

/-- Workers are numbered in the order of their start; `held` is the one a stop will wait for, and
`stopping` tells that a stop is on its way. -/
structure Workers where
  signal : Bool
  held : Option Nat
  stopping : Bool
  phases : List Phase
  deriving DecidableEq, Repr, Inhabited

namespace Workers

inductive Move
  | start | stop | release (early : Bool) | work (worker : Nat)
  deriving DecidableEq, Repr

def idle : Workers := ⟨false,none,false,[]⟩

def hasEnded (w : Workers) (i : Nat) : Bool := w.phases[i]? == some .ended

/-- A start while the held worker is still on its way changes nothing. -/
def start (w : Workers) : Workers :=
  if w.held.any fun i => !w.hasEnded i then w
  else { w with signal := false, held := some w.phases.length, phases := w.phases++[.looking] }

@[simp] theorem start_stopping (w : Workers) : w.start.stopping = w.stopping := by
  unfold start
  split <;> rfl

/-- What can happen next. A stop has two moves, the signal and the release of the held worker, which
comes early only when the time to wait is over; one hand makes all starts and stops, one by one. -/
def move? (w : Workers) : Move → Option Workers
  | .start => if w.stopping then none else some w.start
  | .stop => if w.stopping then none else some { w with signal := true, stopping := true }
  | .release early =>
    if w.stopping && (early || w.held.all w.hasEnded) then
      some { w with held := none, stopping := false }
    else none
  | .work i =>
    if i < w.phases.length then some { w with phases := w.phases.modify i (Phase.next w.signal) }
    else none

def moves? : Workers → List Move → Option Workers
  | w, [] => some w
  | w, m::ms => (w.move? m).bind fun w => moves? w ms

@[simp] theorem moves?_nil (w : Workers) : moves? w [] = some w := rfl
@[simp] theorem moves?_cons (w : Workers) (m : Move) (ms : List Move) :
    moves? w (m::ms) = (w.move? m).bind fun w => moves? w ms := rfl

/-- A stop that waits to the end, with the steps that the workers make meanwhile. -/
def wholeStop (meanwhile : List Nat) : List Move := .stop::(meanwhile.map .work++[.release false])

/-- Whether a worker may begin a further pass with no start in between. -/
def mayPass (w : Workers) (i : Nat) : Bool :=
  match w.phases[i]? with
  | none | some .ended => false
  | some _ => !w.signal

end Workers
end HealthRollup
