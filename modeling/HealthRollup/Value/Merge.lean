import HealthRollup.Value.Basic

/-! Merge patches. A record patch goes field by field: `null` removes a field, any other value is merged
into what the field holds. A patch that is not a record replaces its target whole. -/
namespace HealthRollup
namespace Value

/-- The fields a record patch starts from. -/
def base : Value → Fields
  | .record fs => fs
  | _ => []

@[simp] theorem base_record (fs : Fields) : base (.record fs) = fs := rfl

mutual

def merge (target : Value) : Value → Value
  | .record ps => .record (mergeFields (base target) ps)
  | .null => .null
  | .bool b => .bool b
  | .num n => .num n
  | .text s => .text s
  | .list xs => .list xs
termination_by structural patch => patch

def mergeFields (fs : List (String × Value)) : List (String × Value) → List (String × Value)
  | [] => fs
  | (k,.null)::ps => mergeFields (Fields.remove k fs) ps
  | (k,p)::ps => mergeFields (Fields.put k (merge ((Fields.get? k fs).getD .null) p) fs) ps
termination_by structural patch => patch

end

@[simp] theorem merge_record (target : Value) (ps : Fields) :
    merge target (.record ps) = .record (mergeFields (base target) ps) := rfl
@[simp] theorem merge_null (target : Value) : merge target .null = .null := rfl
@[simp] theorem merge_bool (target : Value) (b : Bool) : merge target (.bool b) = .bool b := rfl
@[simp] theorem merge_num (target : Value) (n : Number) : merge target (.num n) = .num n := rfl
@[simp] theorem merge_text (target : Value) (s : String) : merge target (.text s) = .text s := rfl
@[simp] theorem merge_list (target : Value) (xs : List Value) : merge target (.list xs) = .list xs := rfl
@[simp] theorem mergeFields_nil (fs : Fields) : mergeFields fs [] = fs := rfl
@[simp] theorem mergeFields_null (fs : Fields) (k : String) (ps : Fields) :
    mergeFields fs ((k,.null)::ps) = mergeFields (Fields.remove k fs) ps := rfl

theorem mergeFields_cons (fs : Fields) (k : String) (p : Value) (ps : Fields) (h : p ≠ .null) :
    mergeFields fs ((k,p)::ps) =
      mergeFields (Fields.put k (merge ((Fields.get? k fs).getD .null) p) fs) ps := by
  cases p with
  | null => exact absurd rfl h
  | bool | num | text | list | record => rfl

end Value
end HealthRollup
