import HealthRollup.Proofs.Answers

/-! The normal form of a status block. It has the fields that the controller knows, in the block and in every
entry of the list of components, and of these the ones that are not `null`. Reading a block and writing it
again gives its normal form, and nothing that is recorded in the block is lost on the way. -/
namespace HealthRollup

namespace Fields

theorem get?_filter (p : String × Value → Bool) {fs : Fields} (h : Ordered fs) (k : String) :
    get? k (fs.filter p) = (get? k fs).filter fun v => p (k,v) := by
  induction fs with
  | nil => rfl
  | cons f fs ih =>
    obtain ⟨a,v⟩ := f
    obtain ⟨ha,hfs⟩ := (ordered_cons_iff _ _).mp h
    by_cases hk : a = k
    · subst hk
      have hnone : get? a fs = none := (get?_eq_none_iff a fs).mpr fun hm => lt_irrefl a (ha a hm)
      by_cases hp : p (a,v) <;> simp [hp,ih hfs,hnone,Option.filter_some]
    · by_cases hp : p (a,v) <;> simp [hp,hk,ih hfs]

theorem mem_of_get? {k : String} {v : Value} {fs : Fields} (h : get? k fs = some v) : (k,v) ∈ fs := by
  induction fs with
  | nil => cases h
  | cons f fs ih =>
    rw [get?_cons] at h
    split at h
    · rename_i hk
      rw [← hk,← Option.some.inj h]
      exact List.mem_cons_self
    · exact List.mem_cons_of_mem _ (ih h)

def change (k : String) (g : Value → Value) (fs : Fields) : Fields :=
  fs.map fun f => (f.1,if f.1 = k then g f.2 else f.2)

@[simp] theorem keys_change (k : String) (g : Value → Value) (fs : Fields) :
    keys (change k g fs) = keys fs := by
  simp [keys,change]

theorem get?_change (j k : String) (g : Value → Value) (fs : Fields) :
    get? j (change k g fs) = (get? j fs).map fun v => if j = k then g v else v := by
  induction fs with
  | nil => rfl
  | cons f fs ih =>
    obtain ⟨a,v⟩ := f
    change get? j ((a,if a = k then g v else v)::change k g fs) = _
    rw [get?_cons,get?_cons,ih]
    by_cases hj : a = j
    · subst hj
      simp
    · simp [hj]

def known (ks : List String) (fs : Fields) : Fields := fs.filter fun f => ks.contains f.1 && !f.2.isNull

theorem ordered_known (ks : List String) {fs : Fields} (h : Ordered fs) : Ordered (known ks fs) :=
  List.Pairwise.sublist (List.filter_sublist.map Prod.fst) h

theorem known_known (ks : List String) (fs : Fields) : known ks (known ks fs) = known ks fs := by
  simp [known,List.filter_filter]

theorem get?_known (ks : List String) {fs : Fields} (h : Ordered fs) (k : String) :
    get? k (known ks fs) = if k ∈ ks then (get? k fs).filter fun v => !v.isNull else none := by
  rw [known,get?_filter _ h]
  by_cases hk : k ∈ ks <;> cases get? k fs <;> simp [hk]

end Fields

/-- In every record within the value each key stands once, and the keys ascend. -/
inductive Value.InOrder : Value → Prop
  | null : InOrder .null
  | bool (b : Bool) : InOrder (.bool b)
  | num (n : Number) : InOrder (.num n)
  | text (s : String) : InOrder (.text s)
  | list (xs : List Value) (h : ∀ x ∈ xs, InOrder x) : InOrder (.list xs)
  | record (fs : Fields) (ho : Fields.Ordered fs) (h : ∀ f ∈ fs, InOrder f.2) : InOrder (.record fs)

namespace ComponentRef
open Fields

def knownKeys : List String := ["instanceName","name","status"]

def normal : Value → Value
  | .record fs => .record (known knownKeys fs)
  | v => v

theorem normal_normal (v : Value) : normal (normal v) = normal v := by
  cases v with
  | record fs => exact congrArg Value.record (known_known knownKeys fs)
  | null | bool | num | text | list => rfl

theorem ordered_toFields (r : ComponentRef) : Ordered r.toFields := by
  obtain ⟨n,i,s⟩ := r
  have hstate : ∀ k ∈ keys (unlessNull "status" s), k = "status" := by
    cases s <;> simp [unlessNull]
  have hname : "name" < "status" := by decide
  have hinstance : "instanceName" < "name" := by decide
  refine (ordered_cons_iff _ _).mpr ⟨fun k hk => ?_,(ordered_cons_iff _ _).mpr ⟨fun k hk => ?_,?_⟩⟩
  · rcases List.mem_cons.mp hk with rfl | hk
    · exact hinstance
    · exact hstate k hk ▸ hinstance.trans hname
  · exact hstate k hk ▸ hname
  · cases s <;> simp [unlessNull,Ordered]

theorem get?_toFields (k : String) (r : ComponentRef) : get? k r.toFields =
    if k = "instanceName" then some r.instanceName else if k = "name" then some r.name
    else if k = "status" ∧ r.state ≠ .null then some r.state else none := by
  simp only [toFields,get?_cons,get?_unlessNull,eq_comm]

theorem Recorded.toValue {v : Value} {r : ComponentRef} (h : Recorded v r) (hv : v.InOrder) :
    r.toValue = normal v := by
  cases h with
  | record fs name instanceName state hn hi hs =>
    cases hv with
    | record _ ho _ =>
      refine congrArg Value.record (ordered_ext _ _ (ordered_toFields _) (ordered_known knownKeys ho) fun k => ?_)
      rw [get?_known knownKeys ho,get?_toFields]
      by_cases hk : k ∈ knownKeys
      · rw [if_pos hk]
        simp only [knownKeys,List.mem_cons,List.not_mem_nil,or_false] at hk
        rcases hk with rfl | rfl | rfl
        · simp [hi,Option.filter_some,Value.isNull]
        · simp [hn,Option.filter_some,Value.isNull]
        · generalize get? "status" fs = o at hs
          cases hs <;> simp [Option.filter_some,Value.isNull]
      · rw [if_neg hk]
        simp only [knownKeys,List.mem_cons,List.not_mem_nil,or_false,not_or] at hk
        simp [hk]

theorem inOrder_normal {v : Value} (h : v.InOrder) : (normal v).InOrder := by
  cases h with
  | record fs ho h =>
    exact .record _ (ordered_known knownKeys ho) fun f hf => h f (List.mem_of_mem_filter hf)
  | null => exact .null
  | bool b => exact .bool b
  | num n => exact .num n
  | text s => exact .text s
  | list xs h => exact .list xs h

theorem map_toValue_of_forall₂ {xs : List Value} {rs : List ComponentRef}
    (h : List.Forall₂ Recorded xs rs) (hxs : ∀ x ∈ xs, x.InOrder) :
    rs.map ComponentRef.toValue = xs.map normal := by
  induction h with
  | nil => rfl
  | cons hx _ ih =>
    obtain ⟨hhead,htail⟩ := List.forall_mem_cons.mp hxs
    rw [List.map_cons,List.map_cons,hx.toValue hhead,ih htail]

end ComponentRef

namespace ScopeStatus
open Fields

def knownKeys : List String := ["components","lastAggregateTimestamp"]

def normalEntries : Value → Value
  | .list xs => .list (xs.map ComponentRef.normal)
  | v => v

def normal : Value → Value
  | .record bs => .record (change "components" normalEntries (known knownKeys bs))
  | v => v

theorem normalEntries_normalEntries (v : Value) : normalEntries (normalEntries v) = normalEntries v := by
  cases v with
  | list xs => simp [normalEntries,ComponentRef.normal_normal]
  | null | bool | num | text | record => rfl

@[simp] theorem isNull_normalEntries (v : Value) : (normalEntries v).isNull = v.isNull := by
  cases v <;> rfl

theorem known_change (ks : List String) (fs : Fields) :
    known ks (change "components" normalEntries fs) = change "components" normalEntries (known ks fs) := by
  rw [known,known,change,change,List.filter_map]
  refine congrArg _ (List.filter_congr fun f _ => ?_)
  by_cases hf : f.1 = "components" <;> simp [hf]

theorem normal_normal (v : Value) : normal (normal v) = normal v := by
  cases v with
  | record bs =>
    refine congrArg Value.record ?_
    rw [known_change,known_known]
    simp only [change,List.map_map]
    refine List.map_congr_left fun f _ => ?_
    by_cases hf : f.1 = "components" <;> simp [hf,normalEntries_normalEntries]
  | null | bool | num | text | list => rfl

theorem ordered_normal {bs : Fields} (h : Ordered bs) :
    Ordered (change "components" normalEntries (known knownKeys bs)) := by
  rw [Ordered,keys_change]
  exact ordered_known knownKeys h

theorem inOrder_normalEntries {v : Value} (h : v.InOrder) : (normalEntries v).InOrder := by
  cases h with
  | list xs h =>
    refine .list _ fun y hy => ?_
    obtain ⟨x,hx,rfl⟩ := List.mem_map.mp hy
    exact ComponentRef.inOrder_normal (h x hx)
  | null => exact .null
  | bool b => exact .bool b
  | num n => exact .num n
  | text s => exact .text s
  | record fs ho h => exact .record fs ho h

theorem inOrder_normal {v : Value} (h : v.InOrder) : (normal v).InOrder := by
  cases h with
  | record bs ho hbs =>
    refine .record _ (ordered_normal ho) fun f hf => ?_
    obtain ⟨g,hg,rfl⟩ := List.mem_map.mp hf
    have hvalue : g.2.InOrder := hbs g (List.mem_of_mem_filter hg)
    by_cases hk : g.1 = "components"
    · simpa [hk] using inOrder_normalEntries hvalue
    · simpa [hk] using hvalue
  | null => exact .null
  | bool b => exact .bool b
  | num n => exact .num n
  | text s => exact .text s
  | list xs h => exact .list xs h

theorem Recorded.toValue {v : Value} {s : ScopeStatus} {ks : List String}
    (h : Recorded (some v) (some s) ks) (hv : v.InOrder) : s.toValue = normal v := by
  cases h with
  | record bs rs t hc ht =>
    cases hv with
    | record _ ho hbs =>
      refine congrArg Value.record (ordered_ext _ _ (ordered_toFields _) (ordered_normal ho) fun k => ?_)
      rw [get?_change,get?_known knownKeys ho]
      by_cases hk : k ∈ knownKeys
      · rw [if_pos hk]
        simp only [knownKeys,List.mem_cons,List.not_mem_nil,or_false] at hk
        rcases hk with rfl | rfl
        · rw [get?_components_toFields]
          generalize hg : get? "components" bs = o at hc
          cases hc with
          | absent => rfl
          | null => rfl
          | list xs rs hrs =>
            have hxs : ∀ x ∈ xs, x.InOrder := by
              cases hbs _ (mem_of_get? hg) with
              | list _ h => exact h
            simp [Option.filter_some,Value.isNull,normalEntries,ComponentRef.map_toValue_of_forall₂ hrs hxs]
        · rw [get?_stamp_toFields]
          generalize get? "lastAggregateTimestamp" bs = o at ht
          cases ht <;> simp [Option.filter_some,Value.isNull]
      · rw [if_neg hk,Option.map_none,get?_eq_none_iff,mem_keys_toFields_iff]
        simp only [knownKeys,List.mem_cons,List.not_mem_nil,or_false,not_or] at hk
        simp [hk]

theorem ofValue?_toValue (s : ScopeStatus) : ofValue? (some s.toValue) = .ok (some s) :=
  (ofValue?_record_eq_ok_iff _ s).mpr (shows_toFields s).ofFields

/-- Reading inverts writing, and writing what was read of a block gives the normal form of the block. The
normal form is a block of the documented shape again and its own normal form, and it reads as the block
does, so that the verdict on both is one. -/
theorem writes_the_normal_form :
    (∀ s : ScopeStatus, ofValue? (some s.toValue) = .ok (some s)) ∧
    ∀ bs : Fields, (Value.record bs).InOrder → Shape.status (.record bs) = [] →
      ∃ s, ofValue? (some (.record bs)) = .ok (some s) ∧ s.toValue = normal (.record bs) ∧
        (normal (.record bs)).InOrder ∧ Shape.status (normal (.record bs)) = [] ∧
        normal (normal (.record bs)) = normal (.record bs) ∧
        ofValue? (some (normal (.record bs))) = .ok (some s) ∧
        (ofValue? (some (normal (.record bs)))).map verdict = (ofValue? (some (.record bs))).map verdict := by
  refine ⟨ofValue?_toValue,fun bs hbs hshape => ?_⟩
  obtain ⟨o,ks,hrec⟩ := exists_recorded (o := some (.record bs)) fun w hw => Option.some.inj hw ▸ hshape
  have hread := hrec.read
  cases hrec with
  | record _ rs t hc ht =>
    have hwritten : (⟨rs,t⟩ : ScopeStatus).toValue = normal (.record bs) :=
      (Recorded.record bs rs t hc ht).toValue hbs
    have hplain : (⟨rs,t⟩ : ScopeStatus).IsPlain :=
      isPlain_of_shape hshape ((ofValue?_record_eq_ok_iff bs _).mp hread)
    have hagain : ofValue? (some (normal (.record bs))) = .ok (some ⟨rs,t⟩) := hwritten ▸ ofValue?_toValue _
    have hadmitted : Shape.status (normal (.record bs)) = [] := hwritten ▸ (shows_toFields _).shape hplain
    exact ⟨⟨rs,t⟩,hread,hwritten,inOrder_normal hbs,hadmitted,normal_normal _,hagain,by rw [hagain,hread]⟩

/-- A block with a component listed twice, once with a note of somebody else's and a status that is
`null`, and with a time that is `null`. -/
def annotated : Fields :=
  [("components",.list
      [.record [("instanceName",.text "1"),("name",.text "db"),("note",.text "moved"),("status",.null)],
        .record [("instanceName",.text "1"),("name",.text "db"),("status",.text "down")]]),
    ("lastAggregateTimestamp",.null),("phase",.text "old")]

theorem inOrder_annotated : (Value.record annotated).InOrder := by
  refine .record _ (by decide) ?_
  simp only [annotated,List.forall_mem_cons,List.not_mem_nil,false_implies,implies_true,and_true]
  refine ⟨.list _ ?_,.null,.text _⟩
  simp only [List.forall_mem_cons,List.not_mem_nil,false_implies,implies_true,and_true]
  refine ⟨.record _ (by decide) ?_,.record _ (by decide) ?_⟩
  · simp only [List.forall_mem_cons,List.not_mem_nil,false_implies,implies_true,and_true]
    exact ⟨.text _,.text _,.text _,.null⟩
  · simp only [List.forall_mem_cons,List.not_mem_nil,false_implies,implies_true,and_true]
    exact ⟨.text _,.text _,.text _⟩

theorem writes_the_normal_form_annotated :
    (Value.record annotated).InOrder ∧ Shape.status (.record annotated) = [] ∧
    ∃ s : ScopeStatus, s.toValue = .record [("components",.list
        [.record [("instanceName",.text "1"),("name",.text "db")],
          .record [("instanceName",.text "1"),("name",.text "db"),("status",.text "down")]])] ∧
      ofValue? (some (.record annotated)) = .ok (some s) ∧ verdict (some s) = unhealthy := by
  have hshape : Shape.status (.record annotated) = [] := by rfl
  obtain ⟨s,hread,hwritten,-⟩ := writes_the_normal_form.2 annotated inOrder_annotated hshape
  refine ⟨inOrder_annotated,hshape,s,hwritten,hread,?_⟩
  have hs : s = ⟨some [⟨.text "db",.text "1",.null⟩,⟨.text "db",.text "1",.text "down"⟩],.null⟩ :=
    Option.some.inj (Except.ok.inj (hread.symm.trans rfl))
  rw [hs]
  rfl

end ScopeStatus
end HealthRollup
