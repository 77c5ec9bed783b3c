import HealthRollup.Proofs.Elapsed

/-! The places of a scope object. The documented shape knows a place for every value that the controller
reads: the kinds that a value may have there, the fields that a record must have, and the places below it.
The check of the shape lists every path at which a rule is broken, with the rule, and nothing else; the
violation that is reported is one that no other is above. -/
namespace HealthRollup

namespace Number

theorem isWhole_iff (n : Number) : n.isWhole = true ↔ ∃ i, n.IsInteger i := by
  match n with
  | .int n => exact ⟨fun _ => ⟨n,rfl⟩,fun _ => rfl⟩
  | .real .nan => simp [isWhole,Binary64.isWhole,IsInteger]
  | .real (.infinite s) => simp [isWhole,Binary64.isWhole,IsInteger]
  | .real (.finite s m e) =>
    simp only [isWhole,Binary64.isWhole,IsInteger,Nat.pow_eq,Bool.or_eq_true,decide_eq_true_eq,
      beq_iff_eq]
    by_cases he : 0 ≤ e
    · simp [he]
    · simp only [he,false_or,if_false]
      constructor
      · intro hm
        obtain ⟨q,rfl⟩ := Nat.dvd_of_mod_eq_zero hm
        refine ⟨Binary64.signed s q,?_⟩
        cases s <;> simp [Int.mul_comm]
      · rintro ⟨i,hi⟩
        have habs : m = i.natAbs*2^(-e).toNat := by
          have hnat := congrArg Int.natAbs hi
          cases s <;> simpa [Int.natAbs_mul] using hnat
        rw [habs]
        exact Nat.mul_mod_left _ _

end Number

namespace Value

/-- What it takes to be of a kind. -/
def IsOf (v : Value) : String → Prop
  | "object" => ∃ fs, v = .record fs
  | "array" => ∃ xs, v = .list xs
  | "string" => ∃ s, v = .text s
  | "integer" => ∃ n i, v = .num n ∧ n.IsInteger i
  | "null" => v = .null
  | _ => False

theorem isOf_object_iff (v : Value) : v.IsOf "object" ↔ v.isRecord = true := by
  cases v <;> simp [IsOf,isRecord]
theorem isOf_array_iff (v : Value) : v.IsOf "array" ↔ v.isList = true := by
  cases v <;> simp [IsOf,isList]
theorem isOf_string_iff (v : Value) : v.IsOf "string" ↔ v.isText = true := by
  cases v <;> simp [IsOf,isText]
theorem isOf_integer_iff (v : Value) : v.IsOf "integer" ↔ v.isWhole = true := by
  cases v <;> simp [IsOf,isWhole,Number.isWhole_iff]
theorem isOf_null_iff (v : Value) : v.IsOf "null" ↔ v.isNull = true := by
  cases v <;> simp [IsOf,isNull]

end Value

/-- A name may not be empty, a note may be `null`. -/
inductive Place
  | scope | metadata | name | text | spec | interval | status | components | component | note

namespace Place

def kinds : Place → List String
  | .scope | .metadata | .spec | .component => ["object"]
  | .name | .text => ["string"]
  | .interval => ["integer","null"]
  | .status => ["object","null"]
  | .components => ["array","null"]
  | .note => ["string","null"]

def required : Place → List String
  | .scope => ["metadata","spec"]
  | .metadata => ["name"]
  | .spec => ["probeMethod","probeEndpoint"]
  | .component => ["name","instanceName"]
  | .name | .text | .interval | .status | .components | .note => []

def fields : Place → List (String × Place)
  | .scope => [("metadata",.metadata),("spec",.spec),("status",.status)]
  | .metadata => [("name",.name),("namespace",.text)]
  | .spec => [("probeInterval",.interval),("probeMethod",.text),("probeEndpoint",.text)]
  | .status => [("components",.components),("lastAggregateTimestamp",.note)]
  | .component => [("name",.text),("instanceName",.text),("status",.note)]
  | .name | .text | .interval | .components | .note => []

def item? : Place → Option Place
  | .components => some .component
  | _ => none

/-- A rule that a value breaks by itself. -/
inductive Broken : Place → Value → Breach → Prop
  | mistyped (p : Place) (v : Value) (h : ∀ k ∈ p.kinds, ¬ v.IsOf k) :
      Broken p v (.mistyped v p.kinds)
  | missing (p : Place) (fs : Fields) (k : String) (hk : k ∈ p.required)
      (h : Fields.get? k fs = none) : Broken p (.record fs) (.missing k)
  | empty : Broken .name (.text "") .empty

/-- A rule that is broken by the value at a path. -/
def Violated : Place → Value → List Segment → Breach → Prop
  | p, v, [], b => Broken p v b
  | p, v, .key k::path, b =>
    ∃ q w, (k,q) ∈ p.fields ∧ v.field? k = some w ∧ Violated q w path b
  | p, v, .index i::path, b =>
    ∃ q xs w, p.item? = some q ∧ v = .list xs ∧ xs[i]? = some w ∧ Violated q w path b

theorem broken_iff (p : Place) (v : Value) (b : Breach) : Broken p v b ↔
    ((∀ k ∈ p.kinds, ¬ v.IsOf k) ∧ b = .mistyped v p.kinds) ∨
    (∃ fs, v = .record fs ∧ ∃ k ∈ p.required, Fields.get? k fs = none ∧ b = .missing k) ∨
    (p = .name ∧ v = .text "" ∧ b = .empty) := by
  constructor
  · intro h
    cases h with
    | mistyped _ _ h => exact .inl ⟨h,rfl⟩
    | missing _ fs k hk h => exact .inr (.inl ⟨fs,rfl,k,hk,h,rfl⟩)
    | empty => exact .inr (.inr ⟨rfl,rfl,rfl⟩)
  · rintro (⟨h,rfl⟩ | ⟨fs,rfl,k,hk,h,rfl⟩ | ⟨rfl,rfl,rfl⟩)
    · exact .mistyped p v h
    · exact .missing p fs k hk h
    · exact .empty

/-- The check of the values at a place. -/
def check : Place → Check
  | .scope => Shape.scope
  | .metadata => Shape.metadata
  | .name => Check.all [Shape.text,Check.nonEmpty]
  | .text => Shape.text
  | .spec => Shape.spec
  | .interval => Check.kind ["integer","null"] fun v => v.isWhole || v.isNull
  | .status => Shape.status
  | .components =>
    Check.all [Check.kind ["array","null"] fun v => v.isList || v.isNull,Check.items Shape.component]
  | .component => Shape.component
  | .note => Shape.optionalText

end Place

namespace Check
variable (v : Value) (path : List Segment) (b : Breach)

theorem mem_kind_iff (names : List String) (ok : Value → Bool) : ⟨path,b⟩ ∈ kind names ok v ↔
    path = [] ∧ ok v = false ∧ b = .mistyped v names := by
  cases h : ok v <;> simp [kind,h]

theorem mem_required_iff (k : String) : ⟨path,b⟩ ∈ required k v ↔
    path = [] ∧ ∃ fs, v = .record fs ∧ Fields.get? k fs = none ∧ b = .missing k := by
  cases v with
  | record fs => cases h : Fields.get? k fs <;> simp [required,h]
  | null | bool | num | text | list => simp [required]

theorem mem_nonEmpty_iff : ⟨path,b⟩ ∈ nonEmpty v ↔ path = [] ∧ v = .text "" ∧ b = .empty := by
  cases v with
  | text s => by_cases h : s = "" <;> simp [nonEmpty,h]
  | null | bool | num | list | record => simp [nonEmpty]

theorem mem_under_iff (s : Segment) (xs : List Violation) :
    ⟨path,b⟩ ∈ xs.map (Violation.under s) ↔ ∃ rest, path = s::rest ∧ ⟨rest,b⟩ ∈ xs := by
  simp only [List.mem_map,Violation.under,Violation.mk.injEq]
  constructor
  · rintro ⟨x,hx,rfl,rfl⟩
    exact ⟨x.path,rfl,hx⟩
  · rintro ⟨rest,rfl,hx⟩
    exact ⟨⟨rest,b⟩,hx,rfl,rfl⟩

theorem mem_field_iff (k : String) (c : Check) : ⟨path,b⟩ ∈ field k c v ↔
    ∃ rest w, path = .key k::rest ∧ v.field? k = some w ∧ ⟨rest,b⟩ ∈ c w := by
  simp only [field]
  cases h : v.field? k with
  | none => simp
  | some w => simp [mem_under_iff]

theorem mem_items_iff (c : Check) : ⟨path,b⟩ ∈ items c v ↔
    ∃ i rest xs w, path = .index i::rest ∧ v = .list xs ∧ xs[i]? = some w ∧ ⟨rest,b⟩ ∈ c w := by
  cases v with
  | list xs =>
    simp only [items,List.mem_flatMap,mem_under_iff,Prod.exists,List.mem_zipIdx_iff_getElem?]
    constructor
    · rintro ⟨w,i,hw,rest,rfl,hb⟩
      exact ⟨i,rest,xs,w,rfl,rfl,hw,hb⟩
    · rintro ⟨i,rest,_,w,rfl,hxs,hw,hb⟩
      exact ⟨w,i,Value.list.inj hxs ▸ hw,rest,rfl,hb⟩
  | null | bool | num | text | record => simp [items]

end Check

namespace Place
variable (p : Place) (v : Value) (path : List Segment) (b : Breach)

/-- A check says what is broken by the value itself, then what the checks of the places below say. -/
theorem mem_check_split : ⟨path,b⟩ ∈ p.check v ↔
    (path = [] ∧ Broken p v b) ∨ (∃ f ∈ p.fields, ⟨path,b⟩ ∈ Check.field f.1 f.2.check v) ∨
      ∃ q ∈ p.item?, ⟨path,b⟩ ∈ Check.items q.check v := by
  rw [broken_iff]
  cases p <;> simp [fields,item?,kinds,required,Value.isOf_object_iff,
      Value.isOf_array_iff,Value.isOf_string_iff,Value.isOf_integer_iff,Value.isOf_null_iff] <;>
    simp [check,Shape.scope,Shape.metadata,Shape.text,Shape.spec,Shape.status,Shape.component,
      Shape.optionalText,Check.mem_kind_iff,Check.mem_required_iff,Check.mem_nonEmpty_iff,
      and_or_left,exists_or,or_assoc]

/-- The check of a place lists what breaks the shape there or below, and it leaves out nothing. -/
theorem mem_check_iff : ⟨path,b⟩ ∈ p.check v ↔ Violated p v path b := by
  induction path generalizing p v with
  | nil =>
    rw [mem_check_split]
    simp [Check.mem_field_iff,Check.mem_items_iff,Violated]
  | cons s path ih =>
    rw [mem_check_split]
    simp only [Check.mem_field_iff,Check.mem_items_iff]
    cases s with
    | key k =>
      constructor
      · rintro (⟨hnil,-⟩ | ⟨⟨_,q⟩,hf,_,w,hs,hw,hb⟩ | ⟨q,-,i,_,xs,w,hs,-⟩)
        · cases hnil
        · cases hs
          exact ⟨q,w,hf,hw,(ih q w).mp hb⟩
        · cases hs
      · rintro ⟨q,w,hf,hw,hb⟩
        exact .inr (.inl ⟨(k,q),hf,path,w,rfl,hw,(ih q w).mpr hb⟩)
    | index i =>
      constructor
      · rintro (⟨hnil,-⟩ | ⟨f,-,_,w,hs,-⟩ | ⟨q,hq,_,_,xs,w,hs,hv,hw,hb⟩)
        · cases hnil
        · cases hs
        · cases hs
          exact ⟨q,xs,w,hq,hv,hw,(ih q w).mp hb⟩
      · rintro ⟨q,xs,w,hq,hv,hw,hb⟩
        exact .inr (.inr ⟨q,hq,i,path,xs,w,rfl,hv,hw,(ih q w).mpr hb⟩)

end Place

namespace Violation

theorem length_le_of_outranks {v w : Violation} (h : v.outranks w = true) :
    v.path.length ≤ w.path.length := by
  simp only [outranks,Bool.or_eq_true,Bool.and_eq_true,decide_eq_true_eq,beq_iff_eq] at h
  omega

theorem length_le_of_not_outranks {v w : Violation} (h : ¬ v.outranks w = true) :
    w.path.length ≤ v.path.length := by
  simp only [outranks,Bool.or_eq_true,decide_eq_true_eq,not_or] at h
  omega

/-- The violation that is reported is one of those found, and none is nearer to the root. -/
theorem foremost?_eq_some {vs : List Violation} {v : Violation} (h : foremost? vs = some v) :
    v ∈ vs ∧ ∀ w ∈ vs, v.path.length ≤ w.path.length := by
  cases vs with
  | nil => simp at h
  | cons x vs =>
    rw [foremost?,Option.some.injEq] at h
    induction vs generalizing x with
    | nil => simp [← h]
    | cons w vs ih =>
      rw [List.foldl_cons] at h
      obtain ⟨hmem,hle⟩ := ih _ h
      have hbest := hle _ (List.mem_cons_self ..)
      simp only [List.mem_cons] at hmem hle ⊢
      split at hmem
      · rename_i hw
        have hx := length_le_of_outranks hw
        rw [if_pos hw] at hbest
        grind
      · rename_i hw
        have hx := length_le_of_not_outranks hw
        rw [if_neg hw] at hbest
        grind

end Violation
end HealthRollup
