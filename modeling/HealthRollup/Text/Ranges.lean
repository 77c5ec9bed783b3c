/-! Sets of code points written as runs, each by its first and last member. -/
namespace HealthRollup
namespace Ranges

def covers (runs : List (Nat × Nat)) (n : Nat) : Bool := runs.any fun r => r.1 ≤ n && n ≤ r.2

@[simp] theorem covers_nil (n : Nat) : covers [] n = false := rfl
theorem covers_iff (runs : List (Nat × Nat)) (n : Nat) :
    covers runs n = true ↔ ∃ r ∈ runs, r.1 ≤ n ∧ n ≤ r.2 := by
  simp [covers]

end Ranges
end HealthRollup
