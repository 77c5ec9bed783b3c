import HealthRollup.Aggregation

/-! One pass over all scopes of the namespace. A scope that fails is counted and reported and never keeps
the others from their turn. -/
namespace HealthRollup

structure Report where
  scopes : Nat
  aggregated : Nat
  skipped : Nat
  failed : Nat
  listFailed : Bool
  deriving DecidableEq, Repr, Inhabited

namespace Report

def empty : Report := ⟨0,0,0,0,false⟩

def count (r : Report) : Except Fault Aggregation → Report
  | .ok (.written _) => { r with scopes := r.scopes+1, aggregated := r.aggregated+1 }
  | .ok .notDue => { r with scopes := r.scopes+1, skipped := r.skipped+1 }
  | .error _ => { r with scopes := r.scopes+1, failed := r.failed+1 }

end Report

namespace Pass

def complaint : Except Fault Aggregation → List Notice
  | .ok _ => []
  | .error f => if f.isForeseen then [.scopeFailed f] else [.scopeBroke f]

def item (standard : Value) (raw : Value) : Program Aggregation := do
  let scope ← Program.ofExcept (Scope.ofValue raw)
  Aggregation.ofScope standard scope

def items (standard : Value) : Report → List Value → Program Report
  | r, [] => pure r
  | r, raw::rest => do
    let outcome ← Program.attempt (item standard raw)
    Program.report (complaint outcome)
    items standard (r.count outcome) rest

/-- Only a listing that fails in an unforeseen way ends the pass itself. -/
def once (standard : Value) : Program Report := do
  match ← Program.attempt (Program.list .scopes) with
  | .ok raws => items standard .empty raws
  | .error f =>
    if f.isRequest then
      Program.note (.listFailed f)
      return { Report.empty with listFailed := true }
    else .fail f

end Pass
end HealthRollup
