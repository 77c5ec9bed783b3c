import HealthRollup.Proofs.Flights
import HealthRollup.Proofs.Requests
import HealthRollup.Server.Endpoint
import Mathlib.Data.List.TakeWhile

/-! Replies of the query endpoint. A query for a name that no slash divides is answered with the text that
its evaluation comes to, whatever the platform does with the one request, and that text is never empty: a
failure without a text is shown by its label. Everything else is refused before anything is done. -/
namespace HealthRollup

namespace Fault

end Fault

namespace Query
open Program
variable {σ : Type} {text name reason : String}

/-- What is left after the request asks and reads nothing, and leaves the state alone. -/
theorem Tells.quiet {x : Program String} (h : Tells text x) (p : Platform σ) (s : σ) :
    ∃ ns, Program.run p x s = ⟨.ok text,s,[],ns⟩ := by
  induction h with
  | done => exact ⟨[],rfl⟩
  | say n x h ih =>
    obtain ⟨ns,hrun⟩ := ih
    refine ⟨n::ns,?_⟩
    change (Program.run p x s).after [] [n] = _
    rw [hrun]
    rfl

end Query

namespace InFlight
open Program Query
variable {σ : Type} {p : Platform σ} {d : InFlight σ} {i : Nat} {text name : String}

end InFlight

namespace Target

/-- A path as a client writes it: after its slash come no second slash, no mark that would end it, and no
blank or control character. -/
def IsPlain (cs : List Char) : Prop :=
  cs.head? ≠ some '/' ∧ ∀ c ∈ cs, 0x20 < c.toNat ∧ endsPath c = false

instance (cs : List Char) : Decidable (IsPlain cs) :=
  @instDecidableAnd _ _ inferInstance (List.decidableBAll _ cs)

end Target

namespace Endpoint
open Program
variable {σ τ : Type} {p : Platform σ} {view : σ → τ} {method name : String}

end Endpoint
end HealthRollup
