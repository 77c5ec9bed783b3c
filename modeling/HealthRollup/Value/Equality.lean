import HealthRollup.Value.Basic

/-! Equality of values can be decided: values of two kinds differ, lists and records are compared part by
part. -/
namespace HealthRollup
namespace Value

mutual

def same : Value → Value → Bool
  | .null, .null => true
  | .bool a, .bool b => a == b
  | .num m, .num n => m == n
  | .text s, .text t => s == t
  | .list xs, .list ys => sameItems xs ys
  | .record fs, .record gs => sameFields fs gs
  | _, _ => false
termination_by structural v => v

def sameItems : List Value → List Value → Bool
  | [], [] => true
  | x::xs, y::ys => same x y && sameItems xs ys
  | _, _ => false
termination_by structural xs => xs

def sameFields : List (String × Value) → List (String × Value) → Bool
  | [], [] => true
  | (j,v)::fs, (k,w)::gs => j == k && (same v w && sameFields fs gs)
  | _, _ => false
termination_by structural fs => fs

end

mutual

theorem same_eq_true_iff (v w : Value) : same v w = true ↔ v = w := by
  cases v with
  | null => cases w <;> simp [same]
  | bool a => cases w <;> simp [same]
  | num m => cases w <;> simp [same]
  | text s => cases w <;> simp [same]
  | list xs =>
    cases w with
    | list ys => simpa [same] using sameItems_eq_true_iff xs ys
    | null | bool | num | text | record => simp [same]
  | record fs =>
    cases w with
    | record gs => simpa [same] using sameFields_eq_true_iff fs gs
    | null | bool | num | text | list => simp [same]

theorem sameItems_eq_true_iff (xs ys : List Value) : sameItems xs ys = true ↔ xs = ys := by
  match xs, ys with
  | [], [] => simp [sameItems]
  | [], _::_ => simp [sameItems]
  | _::_, [] => simp [sameItems]
  | x::xs, y::ys => simp [sameItems,same_eq_true_iff x y,sameItems_eq_true_iff xs ys]

theorem sameFields_eq_true_iff (fs gs : List (String × Value)) :
    sameFields fs gs = true ↔ fs = gs := by
  match fs, gs with
  | [], [] => simp [sameFields]
  | [], _::_ => simp [sameFields]
  | _::_, [] => simp [sameFields]
  | (j,v)::fs, (k,w)::gs =>
    simp [sameFields,same_eq_true_iff v w,sameFields_eq_true_iff fs gs,and_assoc]

end

instance : DecidableEq Value := fun v w => decidable_of_iff _ (same_eq_true_iff v w)

end Value
end HealthRollup
