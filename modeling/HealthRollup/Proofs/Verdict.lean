import HealthRollup.Proofs.WriteBack
import HealthRollup.Query

/-! What a query answers after an aggregation. The new block reads back as it was written, and its
verdict is the one that the component reads call for, whatever the old block had recorded. -/
namespace HealthRollup

theorem Platform.Faithful.stored_of_get {σ : Type} {p : Platform σ} {view : σ → Objects}
    (hp : p.Faithful view Eq) {k : Kind} {n : String} {t : σ} {v : Value}
    (h : (p.answer (.get k n) t).1 = .ok v) : view t k n = some v := by
  obtain ⟨o,rfl,hmeets⟩ := hp.answer (.get k n) t
  rw [h] at hmeets
  exact hmeets.2

theorem Query.run_evaluate {σ : Type} (p : Platform σ) (t : σ) (name : String) {raw : Value}
    {scope : Scope} (hget : (p.answer (.get .scopes name) t).1 = .ok raw)
    (hraw : Scope.ofValue raw = .ok scope) :
    (Program.run p (evaluate name) t).result = .ok (ScopeStatus.verdict scope.status) := by
  simp [evaluate,Program.bind_eq,Program.run_andThen,Program.run_attempt,hget,hraw,Program.pure_eq]

namespace Aggregation
open Program Fields Value

/-- The component's object was read, and its state is the healthy one. -/
def isHealthyRead : Except Fault Value → Bool
  | .ok v => v.field? "status" == some (.text healthy)
  | .error _ => false

theorem isHealthy_withState (r : ComponentRef) (a : Except Fault Value) :
    (withState r (counted a)).isHealthy = isHealthyRead a := by
  have hne : unhealthy ≠ healthy := by decide
  rw [Bool.eq_iff_iff]
  cases a with
  | error f => simp [withState,counted,ComponentRef.isHealthy,isHealthyRead,hne]
  | ok v =>
    simp only [withState,counted,ComponentRef.isHealthy,isHealthyRead]
    cases hs : v.field? "status" with
    | none => simp [hne]
    | some w => cases w <;> simp [hne]

theorem all_isHealthy_observed (rs : List ComponentRef) (reads : List (String × Except Fault Value))
    (h : reads.length = rs.length) :
    (observed rs reads).all ComponentRef.isHealthy = reads.all fun r => isHealthyRead r.2 := by
  induction rs generalizing reads with
  | nil =>
    have hnil : reads = [] := List.length_eq_zero_iff.mp h
    subst hnil
    rfl
  | cons r rs ih =>
    cases reads with
    | nil => simp at h
    | cons a reads =>
      have hrest := ih reads (by simpa using h)
      simp only [observed,List.zipWith_cons_cons,List.all_cons] at hrest ⊢
      rw [hrest,isHealthy_withState]

theorem verdict_observed (rs : Option (List ComponentRef)) (t : Value)
    (reads : List (String × Except Fault Value))
    (h : reads.map Prod.fst = (rs.getD []).map ComponentRef.key) :
    ScopeStatus.verdict (some ⟨rs.map fun rs => observed rs reads,t⟩) =
      if reads.all fun r => isHealthyRead r.2 then healthy else unhealthy := by
  have hlength : reads.length = (rs.getD []).length := by simpa using congrArg List.length h
  cases rs with
  | none =>
    have hnil : reads = [] := List.length_eq_zero_iff.mp hlength
    subst hnil
    rfl
  | some rs =>
    have hall := all_isHealthy_observed rs reads hlength
    simp only [ScopeStatus.verdict,Option.map_some,Option.bind_some,hall]

/-- The object as it was loaded, with the patch merged in, reads as the scope with its new status. -/
theorem Ready.ofValue_merge {standard : Value} {scope : Scope} {gateAt stampedAt : Moment}
    {reads es : List Event} {status : ScopeStatus}
    (h : Ready standard scope gateAt stampedAt reads es status) {raw : Value}
    (hload : Scope.ofValue raw = .ok scope) :
    ∃ known, Scope.ofValue (raw.merge (replacement scope status)) =
      .ok { scope with status := some status, statusKeys := known } := by
  obtain ⟨stamp,-,hat⟩ := h.stamped
  obtain ⟨-,fs,rfl,-⟩ := (Scope.ofValue_eq_ok_iff raw scope).mp hload
  have hknown := statusKeys_of_ofValue hload
  have hget (k : String) : get? k (mergeFields (blockOf (.record fs))
      (blockPatch scope.statusKeys status)) = get? k status.toFields := by
    rw [get?_patchedBlock k _ _ status stamp hat,hknown]
    by_cases hk : k ∈ keys status.toFields
    · rw [if_pos hk]
    · rw [if_neg hk,(get?_eq_none_iff _ _).mpr hk]
      by_cases hold : k ∈ keys (blockOf (.record fs))
      · rw [if_pos hold]
      · rw [if_neg hold,(get?_eq_none_iff _ _).mpr hold]
  have hshows : status.Shows (mergeFields (blockOf (.record fs))
      (blockPatch scope.statusKeys status)) := by
    refine ⟨?_,?_⟩
    · rw [hget,ScopeStatus.get?_components_toFields]
    · rw [hget,ScopeStatus.get?_stamp_toFields]
  rw [merge_replacement]
  exact ⟨_,Scope.ofValue_put_status hload hshows (h.isPlain fun old => Scope.status_isPlain hload)⟩

/-- A query after an aggregation tells what its reads found: each component was asked for once and in
order, an answer is the object that was stored, and the scope is healthy exactly when every component was
read and says so. -/
theorem verdict_of_written {σ : Type} (p : Platform σ) (view : σ → Objects)
    (hp : p.Faithful view Eq) (standard raw back : Value) (scope scope' : Scope) (s t : σ)
    (hload : Scope.ofValue raw = .ok scope) (hstored : view s .scopes scope.name = some raw)
    (hwrote : (run p (ofScope standard scope) s).result = .ok (.written scope'))
    (hsame : view t .scopes scope.name =
      view (run p (ofScope standard scope) s).state .scopes scope.name)
    (hback : (p.answer (.get .scopes scope.name) t).1 = .ok back) :
    let reads := (events p (ofScope standard scope) s).filterMap Event.componentRead?
    reads.map Prod.fst = ((scope.status.bind ScopeStatus.components).getD []).map ComponentRef.key ∧
      (∀ n v, (n,.ok v) ∈ reads → view s .components n = some v) ∧
      (run p (Query.evaluate scope.name) t).result =
        .ok (if reads.all fun r => isHealthyRead r.2 then healthy else unhealthy) := by
  obtain ⟨gateAt,stampedAt,_,before,status,w,v,hready,he,-,hv,hview⟩ := view_of_written hp hwrote
  have hvalue : raw = v := Option.some.inj (hstored.symm.trans hv)
  subst hvalue
  obtain ⟨hkeys,hread⟩ := reads_of_written hp hwrote
  intro reads
  refine ⟨hkeys,hread,?_⟩
  have hnow : back = raw.merge (replacement scope status) := by
    have hstored := hp.stored_of_get hback
    rw [hsame,hview,Objects.put_self] at hstored
    exact (Option.some.inj hstored).symm
  have hreads : reads = before.filterMap Event.componentRead? := by
    simp only [reads,he,componentReads_patched]
  obtain ⟨known,hread⟩ := hready.ofValue_merge hload
  rw [← hnow] at hread
  rw [Query.run_evaluate p t scope.name hback hread,hreads]
  have hverdict := verdict_observed _ status.aggregatedAt _ hready.asked
  rw [← hready.components] at hverdict
  exact congrArg Except.ok hverdict

/-- A shop whose web front, recorded as healthy, is no longer there. -/
def recorded : Fields :=
  Shelf.shop Shelf.probeSpec
    [("components",Shelf.parts (.text "degraded") (.text "healthy")),("phase",.text "old")]

def recordedScope : Scope :=
  ⟨"shop",none,.text "poll-status",.text ".status",.null,
    some ⟨some [Shelf.part "db" (.text "degraded"),Shelf.part "web" (.text "healthy")],.null⟩,
    ["components","phase"]⟩

theorem verdict_of_written_shop :
    let s : Shelf := ⟨Shelf.stocked recorded,[Shelf.noon,Shelf.noon]⟩
    let o := run Shelf.platform (ofScope (.int 30) recordedScope) s
    let reads := (events Shelf.platform (ofScope (.int 30) recordedScope) s).filterMap
      Event.componentRead?
    reads.map Prod.fst = ["db-1","web-1"] ∧ (reads.all fun r => isHealthyRead r.2) = false ∧
      (run Shelf.platform (Query.evaluate "shop") o.state).result = .ok unhealthy := by
  obtain ⟨hkeys,-,hverdict⟩ := verdict_of_written Shelf.platform Shelf.view Shelf.platform_faithful
    (.int 30) (.record recorded) _ recordedScope _ ⟨Shelf.stocked recorded,[Shelf.noon,Shelf.noon]⟩ _ rfl
    rfl rfl rfl rfl
  exact ⟨hkeys,by decide +kernel,hverdict⟩

end Aggregation
end HealthRollup
