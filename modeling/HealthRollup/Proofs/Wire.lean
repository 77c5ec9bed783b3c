import HealthRollup.Proofs.Records
import HealthRollup.Scope.Basic
import Mathlib.Data.List.Forall2

/-! The written form of a status block and of the scope that carries it. A block of plain texts passes
the documented shape and reads back as it was, and a scope whose block is replaced by such a block reads
back as the same scope with that block. -/
namespace HealthRollup

theorem bind_eq_ok_iff {ε α β : Type} (x : Except ε α) (f : α → Except ε β) (b : β) :
    x >>= f = .ok b ↔ ∃ a, x = .ok a ∧ f a = .ok b := by
  cases x with
  | error e => simp [bind,Except.bind]
  | ok a => simp [bind,Except.bind]

theorem mapM_eq_ok_iff {ε α β : Type} (f : α → Except ε β) (xs : List α) (ys : List β) :
    xs.mapM f = .ok ys ↔ List.Forall₂ (fun x y => f x = .ok y) xs ys := by
  induction xs generalizing ys with
  | nil =>
    cases ys with
    | nil => simp [pure,Except.pure]
    | cons y ys => simp [pure,Except.pure,List.forall₂_nil_left_iff]
  | cons x xs ih =>
    rw [List.mapM_cons,bind_eq_ok_iff]
    cases ys with
    | nil => simp [bind_eq_ok_iff,pure,Except.pure,List.forall₂_nil_right_iff]
    | cons y ys =>
      simp only [bind_eq_ok_iff,pure,Except.pure,ih,Except.ok.injEq,List.forall₂_cons,
        List.cons.injEq]
      constructor
      · rintro ⟨_,hx,_,hxs,rfl,rfl⟩
        exact ⟨hx,hxs⟩
      · rintro ⟨hx,hxs⟩
        exact ⟨y,hx,ys,hxs,rfl,rfl⟩

theorem exists_of_mem_mapM {ε α β : Type} {f : α → Except ε β} {xs : List α} {ys : List β} {y : β}
    (h : xs.mapM f = .ok ys) (hy : y ∈ ys) : ∃ x ∈ xs, f x = .ok y := by
  rw [mapM_eq_ok_iff] at h
  induction h with
  | nil => simp at hy
  | cons hx _ ih =>
    rcases List.mem_cons.mp hy with rfl | hy
    · exact ⟨_,List.mem_cons_self,hx⟩
    · obtain ⟨x,hm,hf⟩ := ih hy
      exact ⟨x,List.mem_cons_of_mem _ hm,hf⟩

namespace Check

@[simp] theorem kind_eq_nil_iff (names : List String) (ok : Value → Bool) (v : Value) :
    kind names ok v = [] ↔ ok v = true := by
  simp [kind]

@[simp] theorem required_record_eq_nil_iff (k : String) (fs : Fields) :
    required k (.record fs) = [] ↔ (Fields.get? k fs).isSome := by
  simp only [required]
  cases Fields.get? k fs <;> simp

@[simp] theorem field_eq_nil_iff (k : String) (c : Check) (v : Value) :
    field k c v = [] ↔ ∀ w, v.field? k = some w → c w = [] := by
  simp only [field]
  cases v.field? k <;> simp

@[simp] theorem items_list_eq_nil_iff (c : Check) (xs : List Value) :
    items c (.list xs) = [] ↔ ∀ x ∈ xs, c x = [] := by
  simp only [items,List.flatMap_eq_nil_iff,List.map_eq_nil_iff]
  constructor
  · intro h x hx
    obtain ⟨i,hi⟩ := List.getElem?_of_mem hx
    exact h (x,i) (List.mem_zipIdx_iff_getElem?.mpr hi)
  · intro h x hx
    exact h x.1 (List.fst_mem_of_mem_zipIdx hx)

end Check

namespace Value

/-- A text, or `null` where nothing is recorded. -/
def IsNote (v : Value) : Prop := (v.isText || v.isNull) = true

@[simp] theorem isNote_null : IsNote .null := rfl

end Value

theorem Value.isNote_value {k : String} {fs : Fields}
    (h : ∀ w, Fields.get? k fs = some w → w.IsNote) : (Fields.value k fs).IsNote := by
  cases hg : Fields.get? k fs with
  | none => simp [Fields.value,hg]
  | some w => simpa [Fields.value,hg] using h w hg

theorem Fields.required_eq_ok_iff (k : String) (fs : Fields) (v : Value) :
    Fields.required k fs = .ok v ↔ Fields.get? k fs = some v := by
  cases hg : Fields.get? k fs <;> simp [Fields.required,hg]

@[simp] theorem Fields.get?_unlessNull (j k : String) (v : Value) :
    Fields.get? j (Fields.unlessNull k v) = if k = j ∧ v ≠ .null then some v else none := by
  by_cases hv : v = .null
  · simp [hv]
  · rw [Fields.unlessNull_of_ne k v hv]
    simp [hv]

namespace ComponentRef

/-- Both names are texts, and the state is one or unset. -/
def IsPlain (r : ComponentRef) : Prop :=
  r.name.isText = true ∧ r.instanceName.isText = true ∧ r.state.IsNote

theorem shape_toValue_iff (r : ComponentRef) : Shape.component r.toValue = [] ↔ r.IsPlain := by
  have hn : Fields.get? "name" r.toFields = some r.name := by simp [toFields]
  have hi : Fields.get? "instanceName" r.toFields = some r.instanceName := by simp [toFields]
  have hs : Fields.get? "status" r.toFields = if r.state ≠ .null then some r.state else none := by
    simp [toFields]
  simp only [Shape.component,Check.all_cons,Check.all_nil,List.append_eq_nil_iff,toValue,
    Check.kind_eq_nil_iff,Check.required_record_eq_nil_iff,Check.field_eq_nil_iff,Value.field?_record,
    hn,hi,hs,Shape.text,Shape.optionalText,IsPlain,Value.IsNote]
  by_cases hnull : r.state = .null
  · simp [hnull,Value.isRecord,Value.isNull]
  · simp [hnull,Value.isRecord]

theorem ofValue_eq_ok_iff (v : Value) (r : ComponentRef) : ofValue v = .ok r ↔ ∃ fs, v = .record fs ∧
    Fields.get? "name" fs = some r.name ∧ Fields.get? "instanceName" fs = some r.instanceName ∧
    Fields.value "status" fs = r.state := by
  cases v with
  | record fs =>
    simp only [ofValue,bind_eq_ok_iff,Fields.required_eq_ok_iff,pure,Except.pure,Except.ok.injEq,
      Value.record.injEq,exists_eq_left']
    constructor
    · rintro ⟨name,hn,inst,hi,rfl⟩
      exact ⟨hn,hi,rfl⟩
    · rintro ⟨hn,hi,hs⟩
      exact ⟨r.name,hn,r.instanceName,hi,by rw [hs]⟩
  | null | bool | num | text | list => simp [ofValue]

theorem isPlain_of_shape {v : Value} {r : ComponentRef} (hv : Shape.component v = [])
    (hr : ofValue v = .ok r) : r.IsPlain := by
  obtain ⟨fs,rfl,hn,hi,hs⟩ := (ofValue_eq_ok_iff v r).mp hr
  simp only [Shape.component,Check.all_cons,Check.all_nil,List.append_eq_nil_iff,
    Check.kind_eq_nil_iff,Check.field_eq_nil_iff,Value.field?_record,Shape.text,Shape.optionalText] at hv
  obtain ⟨-,-,-,hname,hinst,hstate,-⟩ := hv
  refine ⟨hname r.name hn,hinst r.instanceName hi,?_⟩
  rw [← hs]
  exact Value.isNote_value hstate

end ComponentRef

namespace ScopeStatus

/-- Everything recorded is a text or unset. -/
def IsPlain (s : ScopeStatus) : Prop :=
  (∀ cs, s.components = some cs → ∀ r ∈ cs, r.IsPlain) ∧ s.aggregatedAt.IsNote

theorem get?_components_toFields (s : ScopeStatus) :
    Fields.get? "components" s.toFields =
      s.components.map fun cs => Value.list (cs.map ComponentRef.toValue) := by
  obtain ⟨cs,t⟩ := s
  cases cs with
  | none => simp [toFields]
  | some cs => simp [toFields]

theorem get?_stamp_toFields (s : ScopeStatus) :
    Fields.get? "lastAggregateTimestamp" s.toFields =
      if s.aggregatedAt ≠ .null then some s.aggregatedAt else none := by
  obtain ⟨cs,t⟩ := s
  cases cs with
  | none => simp [toFields]
  | some cs => simp [toFields]

theorem ordered_toFields (s : ScopeStatus) : Fields.Ordered s.toFields := by
  obtain ⟨cs,t⟩ := s
  have hstamp : Fields.Ordered (Fields.unlessNull "lastAggregateTimestamp" t) := by
    cases t with
    | null => exact List.Pairwise.nil
    | bool | num | text | list | record => exact List.pairwise_singleton _ _
  cases cs with
  | none => exact hstamp
  | some cs =>
    refine (Fields.ordered_cons_iff _ _).mpr ⟨?_,hstamp⟩
    intro k hk
    have he : k = "lastAggregateTimestamp" := by
      cases t with
      | null => simp at hk
      | bool | num | text | list | record => simpa [Fields.unlessNull] using hk
    subst he
    exact (by decide : "components" < "lastAggregateTimestamp")

theorem mem_keys_toFields_iff (k : String) (s : ScopeStatus) :
    k ∈ Fields.keys s.toFields ↔
      (k = "components" ∧ s.components.isSome) ∨
        (k = "lastAggregateTimestamp" ∧ s.aggregatedAt ≠ .null) := by
  obtain ⟨cs,t⟩ := s
  cases cs with
  | none => cases t <;> simp [toFields,Fields.unlessNull,Fields.keys]
  | some cs => cases t <;> simp [toFields,Fields.unlessNull,Fields.keys]

/-- A block from which the status is read; what else is in it nobody looks at. -/
structure Shows (s : ScopeStatus) (bs : Fields) : Prop where
  components : Fields.get? "components" bs =
    s.components.map fun cs => Value.list (cs.map ComponentRef.toValue)
  stamp : Fields.get? "lastAggregateTimestamp" bs =
    if s.aggregatedAt ≠ .null then some s.aggregatedAt else none

theorem shows_toFields (s : ScopeStatus) : s.Shows s.toFields :=
  ⟨get?_components_toFields s,get?_stamp_toFields s⟩

theorem ofFields_eq_ok_iff (bs : Fields) (s : ScopeStatus) : ofFields bs = .ok s ↔
    componentsOf bs = .ok s.components ∧ Fields.value "lastAggregateTimestamp" bs = s.aggregatedAt := by
  simp only [ofFields,bind_eq_ok_iff,pure,Except.pure,Except.ok.injEq]
  constructor
  · rintro ⟨cs,hc,rfl⟩
    exact ⟨hc,rfl⟩
  · rintro ⟨hc,ht⟩
    exact ⟨s.components,hc,by rw [ht]⟩

theorem ofValue?_record_eq_ok_iff (bs : Fields) (s : ScopeStatus) :
    ofValue? (some (.record bs)) = .ok (some s) ↔ ofFields bs = .ok s := by
  cases h : ofFields bs <;> simp [ofValue?,h,Except.map]

/-- What is written reads back as it was, whatever the block holds. -/
theorem Shows.ofFields {s : ScopeStatus} {bs : Fields} (h : s.Shows bs) :
    ScopeStatus.ofFields bs = .ok s := by
  have hc : componentsOf bs = .ok s.components := by
    have hg := h.components
    cases hcs : s.components with
    | none => simp [componentsOf,Fields.value,hg,hcs]
    | some cs =>
      have hm : (cs.map ComponentRef.toValue).mapM ComponentRef.ofValue = .ok cs := by
        rw [mapM_eq_ok_iff,List.forall₂_map_left_iff,List.forall₂_same]
        intro r _
        exact ComponentRef.ofValue_toValue r
      simp only [componentsOf,Fields.value,hg,hcs,Option.map_some,Option.getD_some,Value.elements?,
        hm,Except.map]
  have ht : Fields.value "lastAggregateTimestamp" bs = s.aggregatedAt := by
    by_cases hnull : s.aggregatedAt = .null <;> simp [Fields.value,h.stamp,hnull]
  exact (ofFields_eq_ok_iff bs s).mpr ⟨hc,ht⟩

theorem Shows.shape {s : ScopeStatus} {bs : Fields} (h : s.Shows bs) (hp : s.IsPlain) :
    Shape.status (.record bs) = [] := by
  obtain ⟨hcs,ht⟩ := hp
  simp only [Shape.status,Check.all_cons,Check.all_nil,List.append_eq_nil_iff,
    Check.kind_eq_nil_iff,Check.field_eq_nil_iff,Value.field?_record,h.components,h.stamp,
    Shape.optionalText]
  refine ⟨by simp [Value.isRecord],?_,?_,trivial⟩
  · intro w hw
    obtain ⟨cs,hsome,rfl⟩ := Option.map_eq_some_iff.mp hw
    refine ⟨by simp [Value.isList],?_,trivial⟩
    rw [Check.items_list_eq_nil_iff]
    intro x hx
    obtain ⟨r,hr,rfl⟩ := List.mem_map.mp hx
    exact (ComponentRef.shape_toValue_iff r).mpr (hcs cs hsome r hr)
  · intro w hw
    split at hw
    · rw [← Option.some.inj hw]
      exact ht
    · simp at hw

/-- The list of components comes from a list in the block, item by item. -/
theorem mapM_of_componentsOf {bs : Fields} {rs : List ComponentRef} (hc : componentsOf bs = .ok (some rs))
    (hk : ∀ w, Fields.get? "components" bs = some w → w.isList || w.isNull) :
    ∃ xs, Fields.get? "components" bs = some (.list xs) ∧ xs.mapM ComponentRef.ofValue = .ok rs := by
  cases hg : Fields.get? "components" bs with
  | none => simp [componentsOf,Fields.value,hg] at hc
  | some w =>
    cases w with
    | list xs =>
      refine ⟨xs,rfl,?_⟩
      simp only [componentsOf,Fields.value,hg,Option.getD_some,Value.elements?] at hc
      cases hm : xs.mapM ComponentRef.ofValue with
      | error f => simp [hm,Except.map] at hc
      | ok ys =>
        simp only [hm,Except.map,Except.ok.injEq,Option.some.injEq] at hc
        rw [hc]
    | null => simp [componentsOf,Fields.value,hg] at hc
    | bool | num | text | record =>
      have hw := hk _ hg
      simp [Value.isList,Value.isNull] at hw

theorem isPlain_of_shape {bs : Fields} {s : ScopeStatus} (hv : Shape.status (.record bs) = [])
    (hs : ofFields bs = .ok s) : s.IsPlain := by
  obtain ⟨hc,ht⟩ := (ofFields_eq_ok_iff bs s).mp hs
  simp only [Shape.status,Check.all_cons,Check.all_nil,List.append_eq_nil_iff,
    Check.kind_eq_nil_iff,Check.field_eq_nil_iff,Value.field?_record,Shape.optionalText] at hv
  obtain ⟨-,hvc,hvt,-⟩ := hv
  constructor
  · intro rs hrs r hr
    rw [hrs] at hc
    obtain ⟨xs,hg,hm⟩ := mapM_of_componentsOf hc fun w hw => (hvc w hw).1
    have hi := (hvc _ hg).2.1
    rw [Check.items_list_eq_nil_iff] at hi
    obtain ⟨x,hx,hxr⟩ := exists_of_mem_mapM hm hr
    exact ComponentRef.isPlain_of_shape (hi x hx) hxr
  · rw [← ht]
    exact Value.isNote_value hvt

theorem exists_of_ofValue? {v : Option Value} {s : ScopeStatus} (h : ofValue? v = .ok (some s)) :
    ∃ bs, v = some (.record bs) ∧ ofFields bs = .ok s := by
  match v with
  | some (.record bs) => exact ⟨bs,rfl,(ofValue?_record_eq_ok_iff bs s).mp h⟩
  | none | some .null => simp [ofValue?] at h
  | some (.bool _) | some (.num _) | some (.text _) | some (.list _) => simp [ofValue?] at h

end ScopeStatus

namespace Scope

theorem ofValue_eq_ok_iff (v : Value) (s : Scope) :
    ofValue v = .ok s ↔ Shape.scope v = [] ∧ ∃ fs, v = .record fs ∧ ofFields fs = .ok s := by
  simp only [ofValue]
  cases hv : Violation.foremost? (Shape.scope v) with
  | some w =>
    have hne : Shape.scope v ≠ [] := by
      intro h
      rw [h] at hv
      simp at hv
    simp [hne]
  | none =>
    rw [Violation.foremost?_eq_none_iff] at hv
    cases v <;> simp [hv]

theorem ofFields_eq_ok_iff (fs : Fields) (s : Scope) :
    ofFields fs = .ok s ↔ ∃ metadata spec,
      record "metadata" fs = .ok metadata ∧ record "spec" fs = .ok spec ∧
      text "name" metadata = .ok s.name ∧ text? "namespace" metadata = .ok s.space ∧
      Fields.required "probeMethod" spec = .ok s.method ∧
      Fields.required "probeEndpoint" spec = .ok s.endpoint ∧
      ScopeStatus.ofValue? (Fields.get? "status" fs) = .ok s.status ∧
      Fields.value "probeInterval" spec = s.interval ∧
      keysOf (Fields.get? "status" fs) = s.statusKeys := by
  simp only [ofFields,bind_eq_ok_iff,pure,Except.pure,Except.ok.injEq]
  constructor
  · rintro ⟨metadata,hm,spec,hs,name,hn,space,hsp,method,hme,endpoint,he,status,hst,rfl⟩
    exact ⟨metadata,spec,hm,hs,hn,hsp,hme,he,hst,rfl,rfl⟩
  · rintro ⟨metadata,spec,hm,hs,hn,hsp,hme,he,hst,hi,hk⟩
    refine ⟨metadata,hm,spec,hs,_,hn,_,hsp,_,hme,_,he,_,hst,?_⟩
    rw [hi,hk]

theorem record_put_status (k : String) (w : Value) (fs : Fields) (h : k ≠ "status") :
    record k (Fields.put "status" w fs) = record k fs := by
  simp only [record,Fields.get?_put,if_neg h.symm]

theorem nameShown_of_ofValue {v : Value} {s : Scope} (h : ofValue v = .ok s) :
    nameShown v = some (.text s.name) := by
  obtain ⟨-,fs,rfl,hf⟩ := (ofValue_eq_ok_iff v s).mp h
  obtain ⟨metadata,spec,hm,-,hn,-⟩ := (ofFields_eq_ok_iff fs s).mp hf
  have hmeta : Fields.get? "metadata" fs = some (.record metadata) := by
    simp only [record] at hm
    split at hm
    · rw [← Except.ok.inj hm]
      assumption
    · simp at hm
    · simp at hm
  have hname : Fields.get? "name" metadata = some (.text s.name) := by
    simp only [text] at hn
    split at hn
    · rw [← Except.ok.inj hn]
      assumption
    · simp at hn
    · simp at hn
  simp [nameShown,hmeta,hname]

theorem shape_put_status (fs : Fields) (w : Value) (h : Shape.scope (.record fs) = [])
    (hw : Shape.status w = []) : Shape.scope (.record (Fields.put "status" w fs)) = [] := by
  simp only [Shape.scope,Check.all_cons,Check.all_nil,List.append_eq_nil_iff,Check.kind_eq_nil_iff,
    Check.required_record_eq_nil_iff,Check.field_eq_nil_iff,Value.field?_record,
    Fields.get?_put] at h ⊢
  obtain ⟨hk,hm,hs,hmeta,hspec,-,-⟩ := h
  refine ⟨hk,by simpa using hm,by simpa using hs,by simpa using hmeta,by simpa using hspec,?_,trivial⟩
  intro v hv
  have he : w = v := by simpa using hv
  rw [← he]
  exact hw

/-- A scope whose status block is replaced by a plain one reads back as itself with that block. -/
theorem ofValue_put_status {fs bs : Fields} {s : Scope} (h : ofValue (.record fs) = .ok s)
    {status : ScopeStatus} (hb : status.Shows bs) (hp : status.IsPlain) :
    ofValue (.record (Fields.put "status" (.record bs) fs)) =
      .ok { s with status := some status, statusKeys := Fields.keys bs } := by
  obtain ⟨hshape,gs,hgs,hf⟩ := (ofValue_eq_ok_iff _ s).mp h
  obtain rfl := Value.record.inj hgs
  obtain ⟨metadata,spec,hm,hs,hn,hsp,hme,he,-,hi,-⟩ := (ofFields_eq_ok_iff _ s).mp hf
  refine (ofValue_eq_ok_iff _ _).mpr ⟨shape_put_status _ _ hshape (hb.shape hp),_,rfl,?_⟩
  refine (ofFields_eq_ok_iff _ _).mpr ⟨metadata,spec,?_,?_,hn,hsp,hme,he,?_,hi,?_⟩
  · rw [record_put_status _ _ _ (by decide)]
    exact hm
  · rw [record_put_status _ _ _ (by decide)]
    exact hs
  · rw [Fields.get?_put,if_pos rfl]
    exact (ScopeStatus.ofValue?_record_eq_ok_iff bs status).mpr hb.ofFields
  · rw [Fields.get?_put,if_pos rfl]
    rfl

theorem status_isPlain {v : Value} {s : Scope} {status : ScopeStatus} (h : ofValue v = .ok s)
    (hs : s.status = some status) : status.IsPlain := by
  obtain ⟨hshape,fs,rfl,hf⟩ := (ofValue_eq_ok_iff v s).mp h
  obtain ⟨metadata,spec,-,-,-,-,-,-,hst,-⟩ := (ofFields_eq_ok_iff fs s).mp hf
  simp only [Shape.scope,Check.all_cons,Check.all_nil,List.append_eq_nil_iff,
    Check.field_eq_nil_iff,Value.field?_record] at hshape
  obtain ⟨-,-,-,-,-,hstatus,-⟩ := hshape
  rw [hs] at hst
  obtain ⟨bs,hg,hbs⟩ := ScopeStatus.exists_of_ofValue? hst
  exact ScopeStatus.isPlain_of_shape (hstatus _ hg) hbs

end Scope
end HealthRollup
