import HealthRollup.Proofs.Places
import HealthRollup.Proofs.Shelf
import HealthRollup.Proofs.Wire

/-! What an object of the documented shape says. The rules below give the scope that is recorded in an
object, part by part, and do not speak of checks or errors. A scope is read from an object exactly when it
is recorded there, and an object in which none is recorded is refused with a violation that is there and
that no other is above. -/
namespace HealthRollup

/-- A field that is a text or `null`, or is left out. -/
inductive Noted : Option Value → Value → Prop
  | absent : Noted none .null
  | null : Noted (some .null) .null
  | text (s : String) : Noted (some (.text s)) (.text s)

theorem noted_iff (o : Option Value) (v : Value) :
    Noted o v ↔ (∀ w, o = some w → Shape.optionalText w = []) ∧ o.getD .null = v := by
  constructor
  · intro h
    cases h <;> simp [Shape.optionalText,Value.isNull,Value.isText]
  · rintro ⟨hshape,rfl⟩
    cases o with
    | none => exact .absent
    | some w =>
      have hw := hshape w rfl
      rw [Shape.optionalText,Check.kind_eq_nil_iff] at hw
      cases w with
      | null => exact .null
      | text s => exact .text s
      | bool | num | list | record => cases hw

/-- A field that is a number without fraction or `null`, or is left out. -/
inductive Measured : Option Value → Value → Prop
  | absent : Measured none .null
  | null : Measured (some .null) .null
  | whole (n : Number) (i : Int) (h : n.IsInteger i) : Measured (some (.num n)) (.num n)

theorem measured_iff (o : Option Value) (v : Value) : Measured o v ↔
    (∀ w, o = some w → (w.isWhole || w.isNull) = true) ∧ o.getD .null = v := by
  constructor
  · intro h
    cases h with
    | absent | null => simp [Value.isNull]
    | whole n i h => simp [Value.isWhole,(Number.isWhole_iff n).mpr ⟨i,h⟩]
  · rintro ⟨hshape,rfl⟩
    cases o with
    | none => exact .absent
    | some w =>
      have hw := hshape w rfl
      cases w with
      | null => exact .null
      | num n =>
        have hn : n.isWhole = true := by simpa [Value.isWhole,Value.isNull] using hw
        obtain ⟨i,hi⟩ := (Number.isWhole_iff n).mp hn
        exact .whole n i hi
      | bool | text | list | record => cases hw

theorem Shape.text_eq_nil_iff (v : Value) : Shape.text v = [] ↔ ∃ s, v = .text s := by
  rw [Shape.text,Check.kind_eq_nil_iff]
  cases v <;> simp [Value.isText]

/-- A text that may be left out, but not be `null`. -/
inductive Named : Option Value → Option String → Prop
  | absent : Named none none
  | text (s : String) : Named (some (.text s)) (some s)

theorem Named.shape {o : Option Value} {s : Option String} (h : Named o s) :
    ∀ w, o = some w → Shape.text w = [] := by
  cases h <;> simp [Shape.text_eq_nil_iff]

theorem Named.read {k : String} {fs : Fields} {s : Option String} (h : Named (Fields.get? k fs) s) :
    Scope.text? k fs = .ok s := by
  generalize hg : Fields.get? k fs = o at h
  cases h <;> simp [Scope.text?,hg]

theorem exists_named {o : Option Value} (h : ∀ w, o = some w → Shape.text w = []) :
    ∃ s, Named o s := by
  cases o with
  | none => exact ⟨none,.absent⟩
  | some w =>
    obtain ⟨s,rfl⟩ := (Shape.text_eq_nil_iff w).mp (h w rfl)
    exact ⟨some s,.text s⟩

theorem required_iff {o : Option Value} {P : Value → Prop} :
    o.isSome ∧ (∀ w, o = some w → P w) ↔ ∃ w, o = some w ∧ P w := by
  cases o <;> simp

theorem required_text_iff (o : Option Value) :
    o.isSome ∧ (∀ w, o = some w → Shape.text w = []) ↔ ∃ s, o = some (.text s) := by
  rw [required_iff]
  constructor
  · rintro ⟨w,hw,ht⟩
    obtain ⟨s,rfl⟩ := (Shape.text_eq_nil_iff w).mp ht
    exact ⟨s,hw⟩
  · rintro ⟨s,hs⟩
    exact ⟨.text s,hs,rfl⟩

namespace ComponentRef

inductive Recorded : Value → ComponentRef → Prop
  | record (fs : Fields) (name instanceName : String) (state : Value)
      (hn : Fields.get? "name" fs = some (.text name))
      (hi : Fields.get? "instanceName" fs = some (.text instanceName))
      (hs : Noted (Fields.get? "status" fs) state) :
      Recorded (.record fs) ⟨.text name,.text instanceName,state⟩

theorem shape_iff (v : Value) : Shape.component v = [] ↔ ∃ fs, v = .record fs ∧
    (∃ s, Fields.get? "name" fs = some (.text s)) ∧
    (∃ s, Fields.get? "instanceName" fs = some (.text s)) ∧
    ∀ w, Fields.get? "status" fs = some w → Shape.optionalText w = [] := by
  cases v with
  | record fs =>
    simp only [← required_text_iff,Shape.component,Check.all_cons,Check.all_nil,
      List.append_eq_nil_iff,Check.kind_eq_nil_iff,Check.required_record_eq_nil_iff,
      Check.field_eq_nil_iff,Value.field?_record,Value.isRecord,Value.record.injEq,exists_eq_left']
    tauto
  | null | bool | num | text | list => simp [Shape.component,Value.isRecord]

theorem Recorded.shape {v : Value} {r : ComponentRef} (h : Recorded v r) : Shape.component v = [] := by
  cases h with
  | record fs name instanceName state hn hi hs =>
    exact (shape_iff _).mpr ⟨fs,rfl,⟨name,hn⟩,⟨instanceName,hi⟩,((noted_iff _ _).mp hs).1⟩

theorem Recorded.read {v : Value} {r : ComponentRef} (h : Recorded v r) : ofValue v = .ok r := by
  cases h with
  | record fs name instanceName state hn hi hs =>
    exact (ofValue_eq_ok_iff _ _).mpr ⟨fs,rfl,hn,hi,((noted_iff _ _).mp hs).2⟩

theorem exists_recorded {v : Value} (h : Shape.component v = []) : ∃ r, Recorded v r := by
  obtain ⟨fs,rfl,⟨name,hn⟩,⟨instanceName,hi⟩,hs⟩ := (shape_iff v).mp h
  exact ⟨_,.record fs name instanceName _ hn hi ((noted_iff _ _).mpr ⟨hs,rfl⟩)⟩

theorem shape_of_forall₂ {xs : List Value} {rs : List ComponentRef}
    (h : List.Forall₂ Recorded xs rs) : ∀ x ∈ xs, Shape.component x = [] := by
  induction h with
  | nil => simp
  | cons hx _ ih => simpa using ⟨hx.shape,ih⟩

theorem exists_forall₂ {xs : List Value} (h : ∀ x ∈ xs, Shape.component x = []) :
    ∃ rs, List.Forall₂ Recorded xs rs := by
  induction xs with
  | nil => exact ⟨[],.nil⟩
  | cons x xs ih =>
    obtain ⟨r,hr⟩ := exists_recorded (h x List.mem_cons_self)
    obtain ⟨rs,hrs⟩ := ih fun y hy => h y (List.mem_cons_of_mem _ hy)
    exact ⟨r::rs,.cons hr hrs⟩

end ComponentRef

namespace ScopeStatus

/-- The components in their order; where the list is left out or `null`, there is none. -/
inductive Listed : Option Value → Option (List ComponentRef) → Prop
  | absent : Listed none none
  | null : Listed (some .null) none
  | list (xs : List Value) (rs : List ComponentRef) (h : List.Forall₂ ComponentRef.Recorded xs rs) :
      Listed (some (.list xs)) (some rs)

theorem Listed.shape {o : Option Value} {rs : Option (List ComponentRef)} (h : Listed o rs) :
    ∀ w, o = some w → Place.components.check w = [] := by
  cases h with
  | absent | null => simp [Place.check,Value.isNull,Check.items]
  | list xs rs h =>
    rintro w ⟨⟩
    have hitems : Check.items Shape.component (.list xs) = [] :=
      (Check.items_list_eq_nil_iff _ _).mpr (ComponentRef.shape_of_forall₂ h)
    simp [Place.check,Value.isList,hitems]

theorem Listed.read {bs : Fields} {rs : Option (List ComponentRef)}
    (h : Listed (Fields.get? "components" bs) rs) : componentsOf bs = .ok rs := by
  generalize hg : Fields.get? "components" bs = o at h
  cases h with
  | absent | null => simp [componentsOf,Fields.value,hg]
  | list xs rs h =>
    have hread : xs.mapM ComponentRef.ofValue = .ok rs :=
      (mapM_eq_ok_iff _ _ _).mpr (h.imp fun _ _ hx => hx.read)
    simp [componentsOf,Fields.value,hg,Value.elements?,hread,Except.map]

theorem exists_listed {o : Option Value} (h : ∀ w, o = some w → Place.components.check w = []) :
    ∃ rs, Listed o rs := by
  cases o with
  | none => exact ⟨none,.absent⟩
  | some w =>
    have hw := h w rfl
    simp only [Place.check,Check.all_cons,Check.all_nil,List.append_nil,List.append_eq_nil_iff,
      Check.kind_eq_nil_iff] at hw
    obtain ⟨hkind,hitems⟩ := hw
    cases w with
    | null => exact ⟨none,.null⟩
    | list xs =>
      rw [Check.items_list_eq_nil_iff] at hitems
      obtain ⟨rs,hrs⟩ := ComponentRef.exists_forall₂ hitems
      exact ⟨some rs,.list xs rs hrs⟩
    | bool | num | text | record => cases hkind

/-- The status in a block, with the keys of the block. -/
inductive Recorded : Option Value → Option ScopeStatus → List String → Prop
  | absent : Recorded none none []
  | null : Recorded (some .null) none []
  | record (bs : Fields) (rs : Option (List ComponentRef)) (t : Value)
      (hc : Listed (Fields.get? "components" bs) rs)
      (ht : Noted (Fields.get? "lastAggregateTimestamp" bs) t) :
      Recorded (some (.record bs)) (some ⟨rs,t⟩) (Fields.keys bs)

theorem shape_record_iff (bs : Fields) : Shape.status (.record bs) = [] ↔
    (∀ w, Fields.get? "components" bs = some w → Place.components.check w = []) ∧
    ∀ w, Fields.get? "lastAggregateTimestamp" bs = some w → Shape.optionalText w = [] := by
  simp [Place.check,Shape.status,Value.isRecord]

variable {o : Option Value} {s : Option ScopeStatus} {ks : List String}

theorem Recorded.shape (h : Recorded o s ks) : ∀ w, o = some w → Shape.status w = [] := by
  cases h with
  | absent => simp
  | null => simp [Shape.status,Value.isNull,Value.field?]
  | record bs rs t hc ht =>
    rintro w ⟨⟩
    exact (shape_record_iff bs).mpr ⟨hc.shape,((noted_iff _ _).mp ht).1⟩

theorem Recorded.read (h : Recorded o s ks) : ofValue? o = .ok s := by
  cases h with
  | absent | null => rfl
  | record bs rs t hc ht =>
    have hstamp := ((noted_iff _ _).mp ht).2
    exact (ofValue?_record_eq_ok_iff bs _).mpr ((ofFields_eq_ok_iff bs _).mpr ⟨hc.read,hstamp⟩)

theorem Recorded.keys (h : Recorded o s ks) : Scope.keysOf o = ks := by
  cases h <;> rfl

theorem exists_recorded (h : ∀ w, o = some w → Shape.status w = []) : ∃ s ks, Recorded o s ks := by
  cases o with
  | none => exact ⟨none,[],.absent⟩
  | some w =>
    have hw := h w rfl
    cases w with
    | null => exact ⟨none,[],.null⟩
    | record bs =>
      obtain ⟨hc,ht⟩ := (shape_record_iff bs).mp hw
      obtain ⟨rs,hrs⟩ := exists_listed hc
      exact ⟨_,_,.record bs rs _ hrs ((noted_iff _ _).mpr ⟨ht,rfl⟩)⟩
    | bool | num | text | list => simp [Shape.status,Value.isRecord,Value.isNull] at hw

end ScopeStatus

namespace Scope

inductive Recorded : Value → Scope → Prop
  | record (fs ms ss : Fields) (name : String) (space : Option String) (method endpoint : String)
      (interval : Value) (status : Option ScopeStatus) (ks : List String)
      (hm : Fields.get? "metadata" fs = some (.record ms))
      (hn : Fields.get? "name" ms = some (.text name)) (hne : name ≠ "")
      (hsp : Named (Fields.get? "namespace" ms) space)
      (hs : Fields.get? "spec" fs = some (.record ss))
      (hme : Fields.get? "probeMethod" ss = some (.text method))
      (he : Fields.get? "probeEndpoint" ss = some (.text endpoint))
      (hi : Measured (Fields.get? "probeInterval" ss) interval)
      (hst : ScopeStatus.Recorded (Fields.get? "status" fs) status ks) :
      Recorded (.record fs) ⟨name,space,.text method,.text endpoint,interval,status,ks⟩

theorem shape_metadata_iff (v : Value) : Shape.metadata v = [] ↔ ∃ ms, v = .record ms ∧
    (∃ name, Fields.get? "name" ms = some (.text name) ∧ name ≠ "") ∧
    ∀ w, Fields.get? "namespace" ms = some w → Shape.text w = [] := by
  cases v with
  | record ms =>
    have hname : (∃ name, Fields.get? "name" ms = some (.text name) ∧ name ≠ "") ↔
        (Fields.get? "name" ms).isSome ∧ ∀ w, Fields.get? "name" ms = some w →
          Shape.text w = [] ∧ Check.nonEmpty w = [] := by
      rw [required_iff]
      constructor
      · rintro ⟨s,hs,hne⟩
        exact ⟨.text s,hs,rfl,by simp [Check.nonEmpty,hne]⟩
      · rintro ⟨w,hw,ht,hne⟩
        obtain ⟨s,rfl⟩ := (Shape.text_eq_nil_iff w).mp ht
        exact ⟨s,hw,by simpa [Check.nonEmpty] using hne⟩
    simp only [hname,Shape.metadata,Check.all_cons,Check.all_nil,List.append_eq_nil_iff,
      Check.kind_eq_nil_iff,Check.required_record_eq_nil_iff,Check.field_eq_nil_iff,
      Value.field?_record,Value.isRecord,Value.record.injEq,exists_eq_left',and_true,true_and,and_assoc]
  | null | bool | num | text | list => simp [Shape.metadata,Value.isRecord]

theorem shape_spec_iff (v : Value) : Shape.spec v = [] ↔ ∃ ss, v = .record ss ∧
    (∃ m, Fields.get? "probeMethod" ss = some (.text m)) ∧
    (∃ e, Fields.get? "probeEndpoint" ss = some (.text e)) ∧
    ∀ w, Fields.get? "probeInterval" ss = some w → (w.isWhole || w.isNull) = true := by
  cases v with
  | record ss =>
    simp only [← required_text_iff,Shape.spec,Check.all_cons,Check.all_nil,
      List.append_eq_nil_iff,Check.kind_eq_nil_iff,Check.required_record_eq_nil_iff,
      Check.field_eq_nil_iff,Value.field?_record,Value.isRecord,Value.record.injEq,exists_eq_left']
    tauto
  | null | bool | num | text | list => simp [Shape.spec,Value.isRecord]

theorem shape_iff (v : Value) : Shape.scope v = [] ↔ ∃ fs, v = .record fs ∧
    (∃ w, Fields.get? "metadata" fs = some w ∧ Shape.metadata w = []) ∧
    (∃ w, Fields.get? "spec" fs = some w ∧ Shape.spec w = []) ∧
    ∀ w, Fields.get? "status" fs = some w → Shape.status w = [] := by
  cases v with
  | record fs =>
    simp only [← required_iff,Shape.scope,Check.all_cons,Check.all_nil,
      List.append_eq_nil_iff,Check.kind_eq_nil_iff,Check.required_record_eq_nil_iff,
      Check.field_eq_nil_iff,Value.field?_record,Value.isRecord,Value.record.injEq,exists_eq_left']
    tauto
  | null | bool | num | text | list => simp [Shape.scope,Value.isRecord]

theorem Recorded.shape {raw : Value} {scope : Scope} (h : Recorded raw scope) :
    Shape.scope raw = [] := by
  cases h with
  | record fs ms ss name space method endpoint interval status ks hm hn hne hsp hs hme he hi hst =>
    have hinterval := ((measured_iff _ _).mp hi).1
    refine (shape_iff _).mpr ⟨fs,rfl,⟨.record ms,hm,?_⟩,⟨.record ss,hs,?_⟩,hst.shape⟩
    · exact (shape_metadata_iff _).mpr ⟨ms,rfl,⟨name,hn,hne⟩,hsp.shape⟩
    · exact (shape_spec_iff _).mpr ⟨ss,rfl,⟨method,hme⟩,⟨endpoint,he⟩,hinterval⟩

theorem Recorded.read {raw : Value} {scope : Scope} (h : Recorded raw scope) :
    ofValue raw = .ok scope := by
  have hshape := h.shape
  cases h with
  | record fs ms ss name space method endpoint interval status ks hm hn hne hsp hs hme he hi hst =>
    have hinterval := ((measured_iff _ _).mp hi).2
    refine (ofValue_eq_ok_iff _ _).mpr ⟨hshape,fs,rfl,(ofFields_eq_ok_iff _ _).mpr ⟨ms,ss,?_⟩⟩
    refine ⟨by simp [Scope.record,hm],by simp [Scope.record,hs],by simp [Scope.text,hn],hsp.read,?_,?_,hst.read,
      hinterval,hst.keys⟩
    · exact (Fields.required_eq_ok_iff _ _ _).mpr hme
    · exact (Fields.required_eq_ok_iff _ _ _).mpr he

theorem exists_recorded {raw : Value} (h : Shape.scope raw = []) : ∃ scope, Recorded raw scope := by
  obtain ⟨fs,rfl,⟨_,hm,hmeta⟩,⟨_,hs,hspec⟩,hstatus⟩ := (shape_iff raw).mp h
  obtain ⟨ms,rfl,⟨name,hn,hne⟩,hspace⟩ := (shape_metadata_iff _).mp hmeta
  obtain ⟨ss,rfl,⟨method,hme⟩,⟨endpoint,he⟩,hinterval⟩ := (shape_spec_iff _).mp hspec
  obtain ⟨space,hsp⟩ := exists_named hspace
  obtain ⟨status,ks,hst⟩ := ScopeStatus.exists_recorded hstatus
  have hi := (measured_iff _ _).mpr ⟨hinterval,rfl⟩
  exact ⟨_,.record fs ms ss name space method endpoint _ status ks hm hn hne hsp hs hme he hi hst⟩

theorem recorded_of_ofValue {raw : Value} {scope : Scope} (h : ofValue raw = .ok scope) :
    Recorded raw scope := by
  obtain ⟨hshape,-⟩ := (ofValue_eq_ok_iff _ _).mp h
  obtain ⟨scope',hrec⟩ := exists_recorded hshape
  have heq : scope = scope' := Except.ok.inj (h.symm.trans hrec.read)
  exact heq ▸ hrec

/-- An object is refused with a violation that is there and that no other is above. -/
theorem refused {raw : Value} (h : Shape.scope raw ≠ []) : ∃ v,
    ofValue raw = .error (.shape (nameShown raw) v) ∧ Place.Violated .scope raw v.path v.breach ∧
      ∀ path b, Place.Violated .scope raw path b → v.path.length ≤ path.length := by
  cases hv : Violation.foremost? (Shape.scope raw) with
  | none => exact absurd ((Violation.foremost?_eq_none_iff _).mp hv) h
  | some v =>
    obtain ⟨hmem,hleast⟩ := Violation.foremost?_eq_some hv
    refine ⟨v,by simp [ofValue,hv],(Place.mem_check_iff .scope raw v.path v.breach).mp hmem,?_⟩
    intro path b hb
    exact hleast ⟨path,b⟩ ((Place.mem_check_iff .scope raw path b).mpr hb)

/-- A scope is read from an object exactly when it is recorded there, and all other objects are refused. -/
theorem reads_what_is_recorded (raw : Value) :
    (∀ scope, ofValue raw = .ok scope ↔ Recorded raw scope) ∧
    ((¬ ∃ scope, Recorded raw scope) → ∃ v, ofValue raw = .error (.shape (nameShown raw) v) ∧
      Place.Violated .scope raw v.path v.breach ∧
      ∀ path b, Place.Violated .scope raw path b → v.path.length ≤ path.length) := by
  constructor
  · exact fun scope => ⟨recorded_of_ofValue,Recorded.read⟩
  · intro hnone
    exact refused fun hshape => hnone (exists_recorded hshape)

/-- Without a name, and with a component that is no record. -/
def nameless : Value :=
  .record [("metadata",.record [("name",.text "")]),("spec",.record Shelf.probeSpec),
    ("status",.record [("components",.list [.null])])]

theorem reads_what_is_recorded_shop :
    Recorded (.record (Shelf.shop Shelf.probeSpec [("components",Shelf.parts .null (.text "healthy")),
        ("phase",.text "old")]))
      ⟨"shop",none,.text "poll-status",.text ".status",.null,
        some ⟨some [Shelf.part "db" .null,Shelf.part "web" (.text "healthy")],.null⟩,
        ["components","phase"]⟩ ∧
    Place.Violated .scope nameless [.key "status",.key "components",.index 0]
      (.mistyped .null ["object"]) ∧
    ∃ v, ofValue nameless = .error (.shape (some (.text "")) v) ∧ v.path.length ≤ 2 := by
  refine ⟨((reads_what_is_recorded _).1 _).mp rfl,?_,?_⟩
  · have hkind : ∀ k ∈ Place.component.kinds, ¬ Value.null.IsOf k := by
      simp [Place.kinds,Value.isOf_object_iff,Value.isRecord]
    exact ⟨.status,_,by simp [Place.fields],rfl,.components,_,by simp [Place.fields],rfl,
      .component,_,_,rfl,rfl,rfl,.mistyped .component .null hkind⟩
  · have hnone : ¬ ∃ scope, Recorded nameless scope := by
      rintro ⟨scope,h⟩
      have hread := ((reads_what_is_recorded nameless).1 scope).mpr h
      cases hread
    obtain ⟨v,hv,-,hleast⟩ := (reads_what_is_recorded nameless).2 hnone
    refine ⟨v,hv,hleast [.key "metadata",.key "name"] .empty ?_⟩
    exact ⟨.metadata,_,by simp [Place.fields],rfl,.name,_,by simp [Place.fields],rfl,.empty⟩

end Scope
end HealthRollup
