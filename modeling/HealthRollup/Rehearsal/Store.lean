import HealthRollup.Fault
import HealthRollup.Value.Merge

/-! Objects in memory, in the order in which their names were first taken. Putting an object under a
taken name keeps its place; a removed name that is taken again comes last. -/
namespace HealthRollup

structure Stored where
  kind : Kind
  name : String
  object : Value
  deriving Repr, Inhabited

abbrev Store := List Stored

namespace Store

def isAt (k : Kind) (name : String) (e : Stored) : Bool := e.kind == k && e.name == name

def find? (k : Kind) (name : String) (s : Store) : Option Value :=
  (List.find? (isAt k name) s).map Stored.object

def put (k : Kind) (name : String) (v : Value) : Store → Store
  | [] => [⟨k,name,v⟩]
  | e::es => if isAt k name e then ⟨k,name,v⟩::es else e::put k name v es

def delete (k : Kind) (name : String) (s : Store) : Store := s.filter fun e => !isAt k name e

/-- All objects of a kind, as a listing. -/
def listing (k : Kind) (s : Store) : Value :=
  .record [("items",.list ((s.filter fun e => e.kind == k).map Stored.object))]

@[simp] theorem isAt_self (k : Kind) (name : String) (v : Value) : isAt k name ⟨k,name,v⟩ = true := by
  simp [isAt]

theorem isAt_eq_true_iff (k : Kind) (name : String) (e : Stored) :
    isAt k name e = true ↔ e.kind = k ∧ e.name = name := by
  simp [isAt]

@[simp] theorem find?_nil (k : Kind) (name : String) : find? k name [] = none := rfl

theorem find?_cons (k : Kind) (name : String) (e : Stored) (s : Store) :
    find? k name (e::s) = if isAt k name e then some e.object else find? k name s := by
  by_cases h : isAt k name e <;> simp [find?,h]

@[simp] theorem find?_put_self (k : Kind) (name : String) (v : Value) (s : Store) :
    find? k name (put k name v s) = some v := by
  induction s with
  | nil => simp [put,find?_cons]
  | cons e es ih =>
    by_cases h : isAt k name e
    · simp [put,h,find?_cons]
    · simp [put,h,find?_cons,ih]

theorem find?_put_of_ne (j k : Kind) (m n : String) (v : Value) (s : Store) (h : ¬ (j = k ∧ m = n)) :
    find? j m (put k n v s) = find? j m s := by
  have hn (w : Value) : isAt j m ⟨k,n,w⟩ = false := by
    have := isAt_eq_true_iff j m ⟨k,n,w⟩
    cases he : isAt j m ⟨k,n,w⟩ with
    | false => rfl
    | true => exact absurd (this.1 he) fun e => h ⟨e.1.symm,e.2.symm⟩
  induction s with
  | nil => simp [put,find?_cons,hn]
  | cons e es ih =>
    by_cases he : isAt k n e
    · have hk := (isAt_eq_true_iff k n e).1 he
      have hj : isAt j m e = false := by
        obtain ⟨a,b,w⟩ := e
        obtain ⟨rfl,rfl⟩ := hk
        exact hn w
      simp [put,he,find?_cons,hn,hj]
    · simp [put,he,find?_cons,ih]

@[simp] theorem find?_delete_self (k : Kind) (name : String) (s : Store) :
    find? k name (delete k name s) = none := by
  simp [find?,delete]

end Store
end HealthRollup
