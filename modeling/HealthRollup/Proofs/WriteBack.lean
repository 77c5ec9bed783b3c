import HealthRollup.Proofs.Course
import HealthRollup.Proofs.Shelf
import HealthRollup.Proofs.Wire

/-! What a write-back leaves on the platform. The patch names the fields of the new block and, with
`null`, those that the block had when the scope was loaded; whatever was added to the stored block
after that stays, and nothing outside the block is touched. -/
namespace HealthRollup
namespace Aggregation
open Program Fields Value

theorem get?_blockPatch (k : String) (known : List String) (status : ScopeStatus) :
    get? k (blockPatch known status) =
      if k ∈ known ∧ k ∉ keys status.toFields then some .null else get? k status.toFields := by
  rw [blockPatch,get?_foldl_put_null]
  by_cases hk : k ∈ keys status.toFields <;> simp [hk]

theorem ordered_blockPatch (known : List String) (status : ScopeStatus) :
    Ordered (blockPatch known status) :=
  ordered_foldl_put_null _ _ (ScopeStatus.ordered_toFields status)

theorem value_blockPatch (k : String) (known : List String) (status : ScopeStatus) :
    value k (blockPatch known status) = value k status.toFields := by
  rw [value,value,get?_blockPatch]
  by_cases h : k ∈ known ∧ k ∉ keys status.toFields
  · rw [if_pos h,(get?_eq_none_iff _ _).mpr h.2]
    rfl
  · rw [if_neg h]

theorem ofFields_blockPatch (known : List String) (status : ScopeStatus) :
    ScopeStatus.ofFields (blockPatch known status) = .ok status := by
  have hsame : ScopeStatus.ofFields (blockPatch known status) = ScopeStatus.ofFields status.toFields := by
    simp only [ScopeStatus.ofFields,ScopeStatus.componentsOf,value_blockPatch]
  rw [hsame]
  exact (ScopeStatus.shows_toFields status).ofFields

/-- The block of a patch that tells of a status: its fields as they are, `null` for whatever else the block
is known to have, and nothing besides. It reads as the status. -/
structure Conveys (known : List String) (status : ScopeStatus) (block : Fields) : Prop where
  ordered : Ordered block
  fields : ∀ k, get? k block =
    if k ∈ known ∧ k ∉ keys status.toFields then some .null else get? k status.toFields
  read : ScopeStatus.ofFields block = .ok status

theorem conveys_blockPatch (known : List String) (status : ScopeStatus) :
    Conveys known status (blockPatch known status) :=
  ⟨ordered_blockPatch known status,fun k => get?_blockPatch k known status,ofFields_blockPatch known status⟩

theorem Conveys.eq_blockPatch {known : List String} {status : ScopeStatus} {block : Fields}
    (h : Conveys known status block) : block = blockPatch known status :=
  ordered_ext _ _ h.ordered (ordered_blockPatch known status) fun k => by
    rw [h.fields,get?_blockPatch]

theorem merge_of_get?_toFields {k : String} {v : Value} {status : ScopeStatus} {stamp : String}
    (hst : status.aggregatedAt = .text stamp) (hv : get? k status.toFields = some v) :
    v ≠ .null ∧ ∀ old, merge old v = v := by
  have hk : k ∈ keys status.toFields := (mem_keys_iff _ _).mpr (by simp [hv])
  rcases (ScopeStatus.mem_keys_toFields_iff k status).mp hk with ⟨rfl,-⟩ | ⟨rfl,-⟩
  · rw [ScopeStatus.get?_components_toFields] at hv
    obtain ⟨cs,-,rfl⟩ := Option.map_eq_some_iff.mp hv
    exact ⟨by simp,fun _ => rfl⟩
  · rw [ScopeStatus.get?_stamp_toFields,hst] at hv
    have he : Value.text stamp = v := by simpa using hv
    subst he
    exact ⟨by simp,fun _ => rfl⟩

theorem get?_patchedBlock (k : String) (bs : Fields) (known : List String) (status : ScopeStatus)
    (stamp : String) (hst : status.aggregatedAt = .text stamp) :
    get? k (mergeFields bs (blockPatch known status)) =
      if k ∈ keys status.toFields then get? k status.toFields
      else if k ∈ known then none else get? k bs := by
  rw [get?_mergeFields _ _ _ (ordered_blockPatch known status),get?_blockPatch]
  by_cases hk : k ∈ keys status.toFields
  · obtain ⟨v,hv⟩ := Option.isSome_iff_exists.mp ((mem_keys_iff _ _).mp hk)
    obtain ⟨hne,hm⟩ := merge_of_get?_toFields hst hv
    simp [hk,hv,patched_of_ne _ v hne,hm]
  · have hnone : get? k status.toFields = none := (get?_eq_none_iff _ _).mpr hk
    by_cases hn : k ∈ known <;> simp [hk,hn,hnone]

/-- Where every stored field was known or is written anew, the block is the new one. -/
theorem patchedBlock_eq (bs : Fields) (known : List String) (status : ScopeStatus) (stamp : String)
    (hst : status.aggregatedAt = .text stamp) (hb : Ordered bs)
    (hk : ∀ k ∈ keys bs, k ∈ known ∨ k ∈ keys status.toFields) :
    mergeFields bs (blockPatch known status) = status.toFields := by
  refine ordered_ext _ _ (ordered_mergeFields _ _ hb) (ScopeStatus.ordered_toFields status)
    fun k => ?_
  rw [get?_patchedBlock k bs known status stamp hst]
  by_cases hn : k ∈ keys status.toFields
  · rw [if_pos hn]
  · rw [if_neg hn,(get?_eq_none_iff _ _).mpr hn]
    by_cases hknown : k ∈ known
    · rw [if_pos hknown]
    · rw [if_neg hknown]
      refine (get?_eq_none_iff _ _).mpr fun hm => ?_
      rcases hk k hm with h | h
      · exact hknown h
      · exact hn h

/-- The fields of an object's status block; none where it is no record. -/
def blockOf (v : Value) : Fields := base ((v.field? "status").getD .null)

@[simp] theorem blockOf_put_status (fs bs : Fields) :
    blockOf (.record (put "status" (.record bs) fs)) = bs := by
  simp [blockOf,get?_put]

theorem statusKeys_of_ofValue {raw : Value} {scope : Scope} (h : Scope.ofValue raw = .ok scope) :
    scope.statusKeys = keys (blockOf raw) := by
  obtain ⟨-,fs,rfl,hfs⟩ := (Scope.ofValue_eq_ok_iff raw scope).mp h
  obtain ⟨_,_,-,-,-,-,-,-,-,-,hk⟩ := (Scope.ofFields_eq_ok_iff fs scope).mp hfs
  rw [← hk,blockOf,field?_record]
  cases hg : get? "status" fs with
  | none => simp [base,Scope.keysOf]
  | some v => cases v <;> simp [base,Scope.keysOf]

theorem merge_replacement (gs : Fields) (scope : Scope) (status : ScopeStatus) :
    merge (.record gs) (replacement scope status) =
      .record (put "status"
        (.record (mergeFields (blockOf (.record gs)) (blockPatch scope.statusKeys status))) gs) :=
  merge_field (.record gs) "status" (blockPatch scope.statusKeys status)

theorem merge_replacement_of_known (gs : Fields) (scope : Scope) (status : ScopeStatus) (stamp : String)
    (hst : status.aggregatedAt = .text stamp) (hg : Ordered (blockOf (.record gs)))
    (hk : ∀ k ∈ keys (blockOf (.record gs)), k ∈ scope.statusKeys ∨ k ∈ keys status.toFields) :
    merge (.record gs) (replacement scope status) =
      .record (put "status" status.toValue gs) := by
  rw [merge_replacement,patchedBlock_eq _ _ status stamp hst hg hk]
  rfl

theorem nameShown_merge {v : Value} {scope : Scope} {status : ScopeStatus} {x : Value}
    (h : Scope.nameShown (v.merge (replacement scope status)) = some x) :
    Scope.nameShown v = some x := by
  rw [replacement,Value.merge_field] at h
  simp only [Scope.nameShown,Value.field?_record,get?_put] at h
  cases v with
  | record fs => simpa [Scope.nameShown] using h
  | null | bool | num | text | list => simp [Value.base] at h

theorem mem_observed {r : ComponentRef} {rs : List ComponentRef}
    {reads : List (String × Except Fault Value)} (h : r ∈ observed rs reads) :
    ∃ r₀ ∈ rs, ∃ s, r = withState r₀ s := by
  rw [observed,List.mem_iff_getElem] at h
  obtain ⟨i,hi,rfl⟩ := h
  rw [List.length_zipWith] at hi
  rw [List.getElem_zipWith]
  exact ⟨_,List.getElem_mem _,_,rfl⟩

theorem Ready.isPlain {standard : Value} {scope : Scope} {gateAt stampedAt : Moment}
    {reads es : List Event} {status : ScopeStatus}
    (h : Ready standard scope gateAt stampedAt reads es status)
    (hplain : ∀ old, scope.status = some old → old.IsPlain) : status.IsPlain := by
  obtain ⟨stamp,-,hat⟩ := h.stamped
  constructor
  · intro cs hcs r hr
    rw [h.components] at hcs
    obtain ⟨rs,hrs,rfl⟩ := Option.map_eq_some_iff.mp hcs
    obtain ⟨old,hold,hold'⟩ := Option.bind_eq_some_iff.mp hrs
    obtain ⟨r₀,hr₀,s,rfl⟩ := mem_observed hr
    obtain ⟨hn,hi,-⟩ := (hplain old hold).1 rs hold' r₀ hr₀
    exact ⟨hn,hi,rfl⟩
  · rw [hat]
    rfl

theorem timestamp_eq_ok_iff {m : Moment} {stamp : String} :
    timestamp m = .ok stamp ↔ m.timestamp? = some stamp := by
  simp only [timestamp]
  cases m.timestamp? <;> simp

theorem componentReads_patched (es : List Event) (scope : Scope) (status : ScopeStatus)
    (r : Except Fault (patchOf scope status).Answer) :
    (es++[Event.asked (patchOf scope status) r]).filterMap Event.componentRead? =
      es.filterMap Event.componentRead? := by
  rw [List.filterMap_append]
  exact List.append_nil _

end Aggregation

namespace Objects
open Aggregation

/-- Only the object of this name gives itself the name. -/
def Titled (n : String) (o : Objects) : Prop :=
  ∀ m v, o .scopes m = some v → Scope.nameShown v = some (.text n) → m = n

theorem Titled.put {n : String} {o : Objects} (ht : o.Titled n) {scope : Scope}
    {status : ScopeStatus} {v : Value} (hv : o .scopes scope.name = some v) :
    (o.put .scopes scope.name (v.merge (replacement scope status))).Titled n := by
  intro m w hw hn
  by_cases hm : m = scope.name
  · subst hm
    rw [put_self] at hw
    rw [← Option.some.inj hw] at hn
    exact ht _ v hv (nameShown_merge hn)
  · rw [put_of_ne _ _ _ _ _ _ fun h => hm h.2] at hw
    exact ht m w hw hn

theorem Titled.unique {n : String} {o : Objects} (ht : o.Titled n) {vs : List Value}
    (hl : o.Lists .scopes vs) {i j : Nat} {v w : Value} (hi : vs[i]? = some v) (hj : vs[j]? = some w)
    (hv : Scope.nameShown v = some (.text n)) (hw : Scope.nameShown w = some (.text n)) : i = j := by
  obtain ⟨names,hnodup,-,hmap⟩ := hl
  obtain ⟨m,hm,hmv⟩ := Lists.getElem? hmap hi
  obtain ⟨m',hm',hmw⟩ := Lists.getElem? hmap hj
  have hname := ht m v hmv hv
  have hname' := ht m' w hmw hw
  subst hname hname'
  have hlt : i < names.length := (List.getElem?_eq_some_iff.mp hm).1
  exact (List.getElem?_inj hlt hnodup).mp (hm.trans hm'.symm)

end Objects

namespace Aggregation
open Program Fields Value

section Run
variable {σ : Type} {p : Platform σ} {view : σ → Objects} {standard : Value} {scope : Scope} {s : σ}

/-- An aggregation that wrote has patched the object that was there when it began. -/
theorem view_of_written (hp : p.Faithful view Eq) {scope' : Scope}
    (h : (run p (ofScope standard scope) s).result = .ok (.written scope')) :
    ∃ gateAt stampedAt reads before status w v,
      Ready standard scope gateAt stampedAt reads before status ∧
      events p (ofScope standard scope) s = before++[.asked (patchOf scope status) (.ok w)] ∧
      scope' = updated scope status ∧ view s .scopes scope.name = some v ∧
      view (run p (ofScope standard scope) s).state =
        (view s).put .scopes scope.name (merge v (replacement scope status)) := by
  have hc := course_of_run p standard scope s
  rw [h] at hc
  obtain ⟨gateAt,stampedAt,reads,before,status,w,hr,he,hu⟩ := hc.of_written
  have hf := follows_run hp (ofScope standard scope) s
  rw [he,Objects.follows_append_iff] at hf
  obtain ⟨o,hbefore,hpatch⟩ := hf
  have ho : o = view s := hbefore.eq_of_quiet fun e hm => (hr.isPreparing e hm).not_isPatched
  subst ho
  cases hpatch with
  | cons _ o₁ o₂ _ _ _ hm hmeets hrest =>
    subst hm
    cases hrest
    obtain ⟨v,hv,hput⟩ := hmeets
    exact ⟨gateAt,stampedAt,reads,before,status,w,v,hr,he,hu,hv,hput⟩

/-- An aggregation that wrote has asked for each component in its order, and what it read was there. -/
theorem reads_of_written (hp : p.Faithful view Eq) {scope' : Scope}
    (h : (run p (ofScope standard scope) s).result = .ok (.written scope')) :
    ((events p (ofScope standard scope) s).filterMap Event.componentRead?).map Prod.fst =
        scope.refs.map ComponentRef.key ∧
      ∀ n v, (n,.ok v) ∈ (events p (ofScope standard scope) s).filterMap Event.componentRead? →
        view s .components n = some v := by
  obtain ⟨_,_,_,before,status,w,_,hready,he,-⟩ := view_of_written hp h
  have hf := follows_run hp (ofScope standard scope) s
  rw [he,Objects.follows_append_iff] at hf
  obtain ⟨o,hbefore,-⟩ := hf
  rw [he,componentReads_patched]
  refine ⟨hready.asked,fun n v hm => ?_⟩
  exact hbefore.stored_of_read (fun e he => (hready.isPreparing e he).not_isPatched) hm

theorem events_head? (p : Platform σ) (standard : Value) (scope : Scope) (s : σ) :
    (events p (ofScope standard scope) s).head? = some (.read (p.clock s).1) := rfl

end Run

/-- The shop as it was loaded, and as it was when it was written back. -/
def early : Fields :=
  Shelf.shop Shelf.probeSpec [("components",Shelf.parts .null .null),("phase",.text "old")]

def loaded : Scope :=
  ⟨"shop",none,.text "poll-status",.text ".status",.null,
    some ⟨some [Shelf.part "db" .null,Shelf.part "web" .null],.null⟩,["components","phase"]⟩

theorem Shelf.titled_stocked (scope : Fields) (times : List Moment) :
    (Shelf.view ⟨Shelf.stocked scope,times⟩).Titled "shop" := by
  intro m v hv _
  by_contra hne
  have hm : ¬ "shop" = m := fun h => hne h.symm
  simp [Shelf.view,Shelf.stocked,Store.find?_cons,Store.isAt,hm] at hv

end Aggregation
end HealthRollup
