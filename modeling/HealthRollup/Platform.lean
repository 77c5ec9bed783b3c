import HealthRollup.Program

/-! Running programs. A platform answers requests, has a clock and carries the stop signal, all over a
state `σ`; a run yields the result, the state after it, and what was asked and reported on the way, also
when the program fails. A platform may be built on a plain service, whose failures are then reported with
the request that met them. -/
namespace HealthRollup

structure Platform (σ : Type) where
  answer : (c : Call) → σ → Except Fault c.Answer × σ
  clock : σ → Except Fault Moment × σ
  isStopping : σ → Bool

structure Outcome (σ α : Type) where
  result : Except Fault α
  state : σ
  calls : List Call
  notices : List Notice

namespace Outcome
variable {σ α : Type}

/-- The outcome of a run that asked and reported something before. -/
def after (calls : List Call) (notices : List Notice) (o : Outcome σ α) : Outcome σ α :=
  ⟨o.result,o.state,calls++o.calls,notices++o.notices⟩

@[simp] theorem after_result (cs : List Call) (ns : List Notice) (o : Outcome σ α) :
    (after cs ns o).result = o.result := rfl
@[simp] theorem after_state (cs : List Call) (ns : List Notice) (o : Outcome σ α) :
    (after cs ns o).state = o.state := rfl
@[simp] theorem after_calls (cs : List Call) (ns : List Notice) (o : Outcome σ α) :
    (after cs ns o).calls = cs++o.calls := rfl
@[simp] theorem after_notices (cs : List Call) (ns : List Notice) (o : Outcome σ α) :
    (after cs ns o).notices = ns++o.notices := rfl
@[simp] theorem after_nil (o : Outcome σ α) : after [] [] o = o := rfl
@[simp] theorem after_after (as bs : List Call) (ms ns : List Notice) (o : Outcome σ α) :
    after as ms (after bs ns o) = after (as++bs) (ms++ns) o := by
  simp [after]

end Outcome

namespace Program
variable {σ α β : Type}

/-- A request counts as made whether it succeeds or not. -/
def run (p : Platform σ) : Program α → σ → Outcome σ α
  | .done a, s => ⟨.ok a,s,[],[]⟩
  | .fail e, s => ⟨.error e,s,[],[]⟩
  | .say n x, s => (run p x s).after [] [n]
  | .clock k, s => run p (k (p.clock s).1) (p.clock s).2
  | .poll k, s => run p (k (p.isStopping s)) s
  | .ask c k, s => (run p (k (p.answer c s).1) (p.answer c s).2).after [c] []

@[simp] theorem run_done (p : Platform σ) (a : α) (s : σ) : run p (.done a) s = ⟨.ok a,s,[],[]⟩ := rfl
@[simp] theorem run_fail (p : Platform σ) (e : Fault) (s : σ) :
    run p (.fail e : Program α) s = ⟨.error e,s,[],[]⟩ := rfl

theorem run_andThen (p : Platform σ) (x : Program α) (f : α → Program β) (s : σ) :
    run p (andThen f x) s =
      match (run p x s).result with
      | .ok a => (run p (f a) (run p x s).state).after (run p x s).calls (run p x s).notices
      | .error e => ⟨.error e,(run p x s).state,(run p x s).calls,(run p x s).notices⟩ := by
  induction x generalizing s with
  | done a => simp [run]
  | fail e => rfl
  | say n x ih =>
    simp only [andThen,run,ih,Outcome.after_result,Outcome.after_state,Outcome.after_calls,
      Outcome.after_notices]
    cases (run p x s).result <;> simp [Outcome.after]
  | clock k ih => simp only [andThen,run,ih]
  | poll k ih => simp only [andThen,run,ih]
  | ask c k ih =>
    simp only [andThen,run,ih,Outcome.after_result,Outcome.after_state,Outcome.after_calls,
      Outcome.after_notices]
    cases (run p (k (p.answer c s).1) (p.answer c s).2).result <;> simp [Outcome.after]

theorem run_attempt (p : Platform σ) (x : Program α) (s : σ) :
    run p (attempt x) s =
      ⟨.ok (run p x s).result,(run p x s).state,(run p x s).calls,(run p x s).notices⟩ := by
  induction x generalizing s with
  | done a => rfl
  | fail e => rfl
  | say n x ih => simp [attempt,run,ih,Outcome.after]
  | clock k ih => simp [attempt,run,ih]
  | poll k ih => simp [attempt,run,ih]
  | ask c k ih => simp [attempt,run,ih,Outcome.after]

theorem run_ofExcept (p : Platform σ) (r : Except Fault α) (s : σ) :
    run p (ofExcept r) s = ⟨r,s,[],[]⟩ := by
  cases r <;> rfl

theorem run_report (p : Platform σ) (ns : List Notice) (s : σ) :
    run p (report ns) s = ⟨.ok (),s,[],ns⟩ := by
  induction ns with
  | nil => rfl
  | cons n ns ih => simp [report,run,ih,Outcome.after]

@[simp] theorem run_note (p : Platform σ) (n : Notice) (s : σ) :
    run p (note n) s = ⟨.ok (),s,[],[n]⟩ := rfl
@[simp] theorem run_now (p : Platform σ) (s : σ) :
    run p now s = ⟨(p.clock s).1,(p.clock s).2,[],[]⟩ := run_ofExcept p (p.clock s).1 (p.clock s).2
@[simp] theorem run_isStopping (p : Platform σ) (s : σ) :
    run p isStopping s = ⟨.ok (p.isStopping s),s,[],[]⟩ := rfl
@[simp] theorem run_list (p : Platform σ) (k : Kind) (s : σ) :
    run p (list k) s = ⟨(p.answer (.list k) s).1,(p.answer (.list k) s).2,[.list k],[]⟩ := by
  simp [list,run,run_ofExcept,Outcome.after]
@[simp] theorem run_get (p : Platform σ) (k : Kind) (name : String) (s : σ) :
    run p (get k name) s = ⟨(p.answer (.get k name) s).1,(p.answer (.get k name) s).2,[.get k name],[]⟩ := by
  simp [get,run,run_ofExcept,Outcome.after]
@[simp] theorem run_patch (p : Platform σ) (k : Kind) (name : String) (body : Value) (s : σ) :
    run p (patch k name body) s =
      ⟨(p.answer (.patch k name body) s).1,(p.answer (.patch k name body) s).2,[.patch k name body],[]⟩ := by
  simp [patch,run,run_ofExcept,Outcome.after]

/-- One exchange with the platform; a finished program stays as it is. -/
def advance (p : Platform σ) : Program α → σ → Program α × σ
  | .done a, s => (.done a,s)
  | .fail e, s => (.fail e,s)
  | .say _ x, s => (x,s)
  | .clock k, s => (k (p.clock s).1,(p.clock s).2)
  | .poll k, s => (k (p.isStopping s),s)
  | .ask c k, s => (k (p.answer c s).1,(p.answer c s).2)

end Program

/-- A service answers a request with a value or fails; it knows nothing of the controller. -/
abbrev Service (σ : Type) := Call → σ → Except Failure Value × σ

namespace Service
variable {σ : Type}

/-- The items of a listing; none where they are empty or absent. -/
def items : Value → Except Fault (List Value)
  | .record fs =>
    match Fields.get? "items" fs with
    | none => .ok []
    | some v =>
      if v.isGiven then
        match v.elements? with
        | some xs => .ok xs
        | none => .error .notCollection
      else .ok []
  | _ => .error .notRecord

/-- What the controller's client makes of a service's answer. -/
def accept (space : String) : (c : Call) → Except Failure Value → Except Fault c.Answer
  | .list k, r => (r.mapError (Fault.request (.list k) space)).bind items
  | .get k n, r => r.mapError (Fault.request (.get k n) space)
  | .patch k n b, r => r.mapError (Fault.request (.patch k n b) space)

def answer (a : Service σ) (space : String) (c : Call) (s : σ) : Except Fault c.Answer × σ :=
  (accept space c (a c s).1,(a c s).2)

end Service
end HealthRollup
