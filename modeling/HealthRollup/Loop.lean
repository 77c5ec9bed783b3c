import HealthRollup.Pass

/-! The aggregation loop: pass after pass until it is told to stop. It counts its passes up to ten, over
its whole life, and reports that it is alive when the count begins anew. -/
namespace HealthRollup
namespace Loop

def heartbeatEvery : Nat := 10

/-- One pass, whatever becomes of it, and the count after it. -/
def turn (standard : Value) (passes : Nat) : Program Nat := do
  match ← Program.attempt (Pass.once standard) with
  | .ok _ => pure ()
  | .error f => Program.note (.passBroke f)
  let passes := (passes+1)%heartbeatEvery
  if passes = 0 then Program.note .heartbeat
  return passes

/-- Turns until the stop signal is found set; `none` when `limit` turns did not bring it. -/
def turns (standard : Value) : Nat → Nat → Program (Option Nat)
  | 0, passes => do
    let stop ← Program.isStopping
    return if stop then some passes else none
  | limit+1, passes => do
    if ← Program.isStopping then return some passes
    else
      let passes ← turn standard passes
      turns standard limit passes

/-- The loop of a namespace; the count goes in and comes out. -/
def forever (space : String) (standard : Value) (limit passes : Nat) : Program (Option Nat) := do
  Program.note (.loopStarted space)
  let r ← turns standard limit passes
  if r.isSome then Program.note .loopStopped
  return r

end Loop
end HealthRollup
