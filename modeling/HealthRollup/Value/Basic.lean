import HealthRollup.Number.Numeral

/-! Values of the platform's objects. A record lists its fields in ascending order of their keys, so two
records with the same fields are equal; putting and removing a field keeps that order. -/
namespace HealthRollup

inductive Value
  | null | bool (b : Bool) | num (n : Number) | text (s : String)
  | list (items : List Value) | record (fields : List (String × Value))
  deriving Repr, Inhabited

abbrev Fields := List (String × Value)

namespace Fields

def get? (k : String) : Fields → Option Value
  | [] => none
  | (a,v)::fs => if a = k then some v else get? k fs

/-- Replaces the field or inserts it before the first greater key. -/
def put (k : String) (v : Value) : Fields → Fields
  | [] => [(k,v)]
  | (a,w)::fs =>
    if a = k then (k,v)::fs else if k < a then (k,v)::(a,w)::fs else (a,w)::put k v fs

def remove (k : String) (fs : Fields) : Fields := fs.filter fun f => f.1 ≠ k

def keys (fs : Fields) : List String := fs.map Prod.fst

/-- Ascending keys, hence no key twice. -/
def Ordered (fs : Fields) : Prop := (keys fs).Pairwise (· < ·)

instance (fs : Fields) : Decidable (Ordered fs) :=
  inferInstanceAs (Decidable ((keys fs).Pairwise (· < ·)))

def ofList (fs : Fields) : Fields := fs.foldl (fun r f => put f.1 f.2 r) []

/-- The value of a field; an absent field counts as `null`. -/
def value (k : String) (fs : Fields) : Value := (get? k fs).getD .null

/-- One field, which is left out where its value is `null`. -/
def unlessNull (k : String) : Value → Fields
  | .null => []
  | v => [(k,v)]

@[simp] theorem unlessNull_null (k : String) : unlessNull k .null = [] := rfl
theorem unlessNull_of_ne (k : String) (v : Value) (h : v ≠ .null) : unlessNull k v = [(k,v)] := by
  cases v with
  | null => exact absurd rfl h
  | bool | num | text | list | record => rfl

@[simp] theorem value_unlessNull (k : String) (v : Value) : value k (unlessNull k v) = v := by
  cases v <;> simp [unlessNull,value,get?]

@[simp] theorem get?_nil (k : String) : get? k [] = none := rfl
@[simp] theorem get?_cons (k a : String) (v : Value) (fs : Fields) :
    get? k ((a,v)::fs) = if a = k then some v else get? k fs := rfl

theorem get?_put (j k : String) (v : Value) (fs : Fields) :
    get? j (put k v fs) = if k = j then some v else get? j fs := by
  induction fs with
  | nil => rfl
  | cons f fs ih =>
    obtain ⟨a,w⟩ := f
    simp only [put]
    split
    · rename_i h
      subst h
      by_cases hj : a = j <;> simp [hj]
    · split
      · rfl
      · by_cases hj : a = j
        · subst hj
          have hk : ¬ k = a := fun h => by simp_all
          simp [hk]
        · simp [hj,ih]

theorem get?_remove (j k : String) (fs : Fields) :
    get? j (remove k fs) = if k = j then none else get? j fs := by
  induction fs with
  | nil => simp [remove]
  | cons f fs ih =>
    obtain ⟨a,w⟩ := f
    by_cases ha : a = k
    · subst ha
      by_cases hj : a = j
      · simpa [remove,hj] using ih
      · simpa [remove,hj] using ih
    · have hr : remove k ((a,w)::fs) = (a,w)::remove k fs := by simp [remove,ha]
      rw [hr,get?_cons,get?_cons,ih]
      by_cases hj : a = j
      · subst hj
        have hk : ¬ k = a := fun h => ha h.symm
        simp [hk]
      · simp [hj]

theorem mem_keys_iff (k : String) (fs : Fields) : k ∈ keys fs ↔ (get? k fs).isSome := by
  induction fs with
  | nil => simp [keys]
  | cons f fs ih =>
    obtain ⟨a,v⟩ := f
    by_cases ha : a = k
    · simp [keys,ha]
    · have hk : ¬ k = a := fun h => ha h.symm
      simpa [keys,ha,hk] using ih

end Fields

namespace Value

def int (n : Int) : Value := .num (.int n)

/-- A field of a record; nothing else has fields. -/
def field? (k : String) : Value → Option Value
  | .record fs => Fields.get? k fs
  | _ => none

@[simp] theorem field?_record (k : String) (fs : Fields) :
    field? k (.record fs) = Fields.get? k fs := rfl

/-- Empty values, zeros, `false` and `null` do not count as given. -/
def isGiven : Value → Bool
  | .null => false
  | .bool b => b
  | .num n => !n.isZero
  | .text s => !s.isEmpty
  | .list xs => !xs.isEmpty
  | .record fs => !fs.isEmpty

/-- What a value is made of when it is gone through one by one: the items of a list, the characters of
a text, the keys of a record. -/
def elements? : Value → Option (List Value)
  | .list xs => some xs
  | .text s => some (s.toList.map fun c => .text (String.ofList [c]))
  | .record fs => some (fs.map fun f => .text f.1)
  | _ => none

def text? : Value → Option String
  | .text s => some s
  | _ => none

/-- What a value counts for where numbers are compared: `true` is one and `false` zero. -/
def quantity? : Value → Option Number
  | .num n => some n
  | .bool b => some (.int (if b then 1 else 0))
  | _ => none

@[simp] theorem text?_text (s : String) : text? (.text s) = some s := rfl
@[simp] theorem quantity?_num (n : Number) : quantity? (.num n) = some n := rfl

/-- `null` gives way to another value. -/
def orElse (v standard : Value) : Value :=
  match v with
  | .null => standard
  | v => v

@[simp] theorem orElse_null (standard : Value) : orElse .null standard = standard := rfl
@[simp] theorem orElse_num (n : Number) (standard : Value) : orElse (.num n) standard = .num n := rfl

end Value
end HealthRollup
