import HealthRollup.Platform
import HealthRollup.Proofs.Flights
import HealthRollup.Proofs.Reading

/-! The answers of a query over any service. A verdict and the text of an error come out of one channel,
so a verdict has to be told from all else by its text: it is given for an object of the documented shape
alone and says what the components of that object say, and the text of an error begins with what was
tried. -/
namespace HealthRollup

def Documented (raw : Value) : Prop := ∀ path b, ¬ Place.Violated .scope raw path b

theorem documented_iff (raw : Value) : Documented raw ↔ Shape.scope raw = [] := by
  rw [List.eq_nil_iff_forall_not_mem]
  exact ⟨fun h v hv => h v.path v.breach ((Place.mem_check_iff .scope raw _ _).mp hv),
    fun h path b hb => h ⟨path,b⟩ ((Place.mem_check_iff .scope raw _ _).mpr hb)⟩

namespace Value

def components (raw : Value) : List Value :=
  match (raw.field? "status").bind (field? "components") with
  | some (.list xs) => xs
  | _ => []

/-- The status of a component is left out, `null` or the healthy one. -/
def IsWell (c : Value) : Prop := ∀ w, c.field? "status" = some w → w = .null ∨ w = .text healthy

/-- The status of a component is a text, and not the healthy one. -/
def IsIll (c : Value) : Prop := ∃ s, c.field? "status" = some (.text s) ∧ s ≠ healthy

end Value

namespace ComponentRef

theorem Recorded.isHealthy_iff {c : Value} {r : ComponentRef} (h : Recorded c r) :
    r.isHealthy = true ↔ c.IsWell := by
  cases h with
  | record fs name instanceName state hn hi hs =>
    simp only [isHealthy,Value.IsWell,Value.field?_record]
    generalize Fields.get? "status" fs = o at hs
    cases hs <;> simp

theorem Recorded.not_isHealthy_iff {c : Value} {r : ComponentRef} (h : Recorded c r) :
    ¬ r.isHealthy = true ↔ c.IsIll := by
  cases h with
  | record fs name instanceName state hn hi hs =>
    simp only [isHealthy,Value.IsIll,Value.field?_record]
    generalize Fields.get? "status" fs = o at hs
    cases hs <;> simp

end ComponentRef

namespace Scope

/-- The components that a scope has, beside the ones its object lists. -/
theorem Recorded.components {raw : Value} {scope : Scope} (h : Recorded raw scope) :
    ∃ rs, List.Forall₂ ComponentRef.Recorded raw.components rs ∧
      ScopeStatus.verdict scope.status = if rs.all ComponentRef.isHealthy then healthy else unhealthy := by
  cases h with
  | record fs ms ss name space method endpoint interval status ks hm hn hne hsp hs hme he hi hst =>
    simp only [Value.components,Value.field?_record]
    generalize Fields.get? "status" fs = o at hst
    cases hst with
    | absent | null => exact ⟨[],.nil,rfl⟩
    | record bs rs t hc ht =>
      simp only [Option.bind_some,Value.field?_record]
      generalize Fields.get? "components" bs = o at hc
      cases hc with
      | absent | null => exact ⟨[],.nil,rfl⟩
      | list xs rs hrs => exact ⟨rs,hrs,rfl⟩

theorem all_isHealthy_iff {xs : List Value} {rs : List ComponentRef}
    (h : List.Forall₂ ComponentRef.Recorded xs rs) :
    rs.all ComponentRef.isHealthy = true ↔ ∀ c ∈ xs, c.IsWell := by
  induction h with
  | nil => simp
  | cons hx _ ih => simp only [List.all_cons,Bool.and_eq_true,hx.isHealthy_iff,ih,List.forall_mem_cons]

theorem not_all_isHealthy_iff {xs : List Value} {rs : List ComponentRef}
    (h : List.Forall₂ ComponentRef.Recorded xs rs) :
    ¬ rs.all ComponentRef.isHealthy = true ↔ ∃ c ∈ xs, c.IsIll := by
  induction h with
  | nil => simp
  | cons hx _ ih =>
    simp only [List.all_cons,Bool.and_eq_true,not_and_or,hx.not_isHealthy_iff,ih,List.exists_mem_cons_iff]

theorem Recorded.verdict {raw : Value} {scope : Scope} (h : Recorded raw scope) :
    (ScopeStatus.verdict scope.status = healthy ∧ ∀ c ∈ raw.components, c.IsWell) ∨
      (ScopeStatus.verdict scope.status = unhealthy ∧ ∃ c ∈ raw.components, c.IsIll) := by
  obtain ⟨rs,hrs,hverdict⟩ := h.components
  by_cases hall : rs.all ComponentRef.isHealthy = true
  · refine .inl ⟨by rw [hverdict,if_pos hall],?_⟩
    exact (all_isHealthy_iff hrs).mp hall
  · refine .inr ⟨by rw [hverdict,if_neg hall],?_⟩
    exact (not_all_isHealthy_iff hrs).mp hall

end Scope

/-- The platform that the controller sees over a service. -/
def Service.platform {σ : Type} (a : Service σ) (space : String)
    (clock : σ → Except Fault Moment × σ) (isStopping : σ → Bool) : Platform σ :=
  ⟨a.answer space,clock,isStopping⟩

namespace Query
open Program

def fetchFailed (space name : String) : String :=
  "get healthscopes.core.oam.dev/v1alpha1 "++space++"/"++name++" failed: "

def invalid (name : String) : String := "invalid health scope "++name++": "

/-- The text that a query comes to once its request is answered. -/
inductive Answered (space name : String) : Except Failure Value → String → Prop
  | healthy (raw : Value) (hd : Documented raw) (hc : ∀ c ∈ raw.components, c.IsWell) :
      Answered space name (.ok raw) healthy
  | unhealthy (raw : Value) (hd : Documented raw) (hc : ∃ c ∈ raw.components, c.IsIll) :
      Answered space name (.ok raw) unhealthy
  | failed (f : Failure) : Answered space name (.error f) (fetchFailed space name++f.text)
  | invalid (raw : Value) (reason : String) (hd : ¬ Documented raw) :
      Answered space name (.ok raw) (invalid name++reason)

variable {σ : Type} {space name text : String} {r : Except Failure Value}

theorem label_scopes : "get "++Kind.scopes.label++" " = "get healthscopes.core.oam.dev/v1alpha1 " := by
  simp [Kind.label,Kind.plural,Kind.group,Kind.version]

theorem message_request (space name : String) (f : Failure) :
    (Fault.request (.get .scopes name) space f).message = fetchFailed space name++f.text := by
  unfold fetchFailed
  rw [← label_scopes]
  rfl

theorem run_answerFault (p : Platform σ) (name reason : String) (f : Fault) (s : σ) :
    run p (answerFault name true reason f) s = ⟨.ok reason,s,[],[.queryFailed name reason]⟩ := rfl

theorem answered_reply (p : Platform σ) (space name : String) (r : Except Failure Value) (s : σ) :
    ∃ text ns, run p (reply name (Service.accept space (.get .scopes name) r)) s = ⟨.ok text,s,[],ns⟩ ∧
      Answered space name r text ∧ ∀ n f, .queryBroke n f ∉ ns := by
  cases r with
  | error f =>
    have hrun : run p (reply name (Service.accept space (.get .scopes name) (.error f))) s =
        ⟨.ok (fetchFailed space name++f.text),s,[],[.queryFailed name (fetchFailed space name++f.text)]⟩ := by
      rw [← message_request]
      rfl
    exact ⟨_,_,hrun,.failed f,by simp⟩
  | ok raw =>
    by_cases hd : Documented raw
    · obtain ⟨scope,hscope⟩ := Scope.exists_recorded ((documented_iff raw).mp hd)
      have hrun : run p (reply name (.ok raw)) s = ⟨.ok (ScopeStatus.verdict scope.status),s,[],[]⟩ := by
        simp only [reply,hscope.read,run_done]
      rcases hscope.verdict with ⟨hverdict,hc⟩ | ⟨hverdict,hc⟩
      · rw [hverdict] at hrun
        exact ⟨_,_,hrun,.healthy raw hd hc,by simp⟩
      · rw [hverdict] at hrun
        exact ⟨_,_,hrun,.unhealthy raw hd hc,by simp⟩
    · obtain ⟨v,hread,-⟩ := Scope.refused fun h => hd ((documented_iff raw).mpr h)
      have hrun : run p (reply name (.ok raw)) s =
          run p (answerFault name true (invalid name++(Fault.shape (Scope.nameShown raw) v).message)
            (.shape (Scope.nameShown raw) v)) s := by
        have hshape : isShape (.shape (Scope.nameShown raw) v) = true := rfl
        simp only [reply,hread,hshape]
        rfl
      rw [run_answerFault] at hrun
      exact ⟨_,_,hrun,.invalid raw _ hd,by simp⟩

def FoundWell (r : Except Failure Value) : Prop :=
  ∃ raw, r = .ok raw ∧ Documented raw ∧ ∀ c ∈ raw.components, c.IsWell

def FoundIll (r : Except Failure Value) : Prop :=
  ∃ raw, r = .ok raw ∧ Documented raw ∧ ∃ c ∈ raw.components, c.IsIll

theorem not_isIll_of_isWell {c : Value} (h : c.IsWell) : ¬ c.IsIll := by
  rintro ⟨s,hs,hne⟩
  rcases h _ hs with hnull | htext
  · cases hnull
  · exact hne (Value.text.inj htext)

theorem error_ne (space name reason : String) :
    fetchFailed space name++reason ≠ healthy ∧ fetchFailed space name++reason ≠ unhealthy ∧
      invalid name++reason ≠ healthy ∧ invalid name++reason ≠ unhealthy := by
  unfold fetchFailed invalid healthy unhealthy
  simp only [ne_eq,← String.toList_inj,String.toList_append]
  simp

theorem healthy_ne_unhealthy : healthy ≠ unhealthy := by decide

theorem Answered.healthy_iff (h : Answered space name r text) :
    text = HealthRollup.healthy ↔ FoundWell r := by
  cases h with
  | healthy raw hd hc => exact ⟨fun _ => ⟨raw,rfl,hd,hc⟩,fun _ => rfl⟩
  | unhealthy raw hd hc =>
    refine ⟨fun h => absurd h.symm healthy_ne_unhealthy,?_⟩
    rintro ⟨_,⟨⟩,-,hall⟩
    obtain ⟨c,hmem,hill⟩ := hc
    exact absurd hill (not_isIll_of_isWell (hall c hmem))
  | failed f =>
    refine ⟨fun h => absurd h (error_ne space name f.text).1,?_⟩
    rintro ⟨_,⟨⟩,-⟩
  | invalid raw reason hd =>
    refine ⟨fun h => absurd h (error_ne space name reason).2.2.1,?_⟩
    rintro ⟨_,⟨⟩,hdoc,-⟩
    exact absurd hdoc hd

theorem Answered.unhealthy_iff (h : Answered space name r text) :
    text = HealthRollup.unhealthy ↔ FoundIll r := by
  cases h with
  | healthy raw hd hc =>
    refine ⟨fun h => absurd h healthy_ne_unhealthy,?_⟩
    rintro ⟨_,⟨⟩,-,c,hmem,hill⟩
    exact absurd hill (not_isIll_of_isWell (hc c hmem))
  | unhealthy raw hd hc => exact ⟨fun _ => ⟨raw,rfl,hd,hc⟩,fun _ => rfl⟩
  | failed f =>
    refine ⟨fun h => absurd h (error_ne space name f.text).2.1,?_⟩
    rintro ⟨_,⟨⟩,-⟩
  | invalid raw reason hd =>
    refine ⟨fun h => absurd h (error_ne space name reason).2.2.2,?_⟩
    rintro ⟨_,⟨⟩,hdoc,-⟩
    exact absurd hdoc hd

/-- What is neither of the two verdicts says what went wrong. -/
theorem Answered.error (h : Answered space name r text) (hwell : ¬ FoundWell r) (hill : ¬ FoundIll r) :
    (∃ f, r = .error f ∧ text = fetchFailed space name++f.text) ∨
      ∃ raw reason, r = .ok raw ∧ ¬ Documented raw ∧ text = Query.invalid name++reason := by
  cases h with
  | healthy raw hd hc => exact absurd ⟨raw,rfl,hd,hc⟩ hwell
  | unhealthy raw hd hc => exact absurd ⟨raw,rfl,hd,hc⟩ hill
  | failed f => exact .inl ⟨f,rfl,rfl⟩
  | invalid raw reason hd => exact .inr ⟨raw,reason,rfl,hd,rfl⟩

/-- A query makes one request, never meets an error that is not foreseen, and tells a verdict exactly when
the object that it read gives it. -/
theorem evaluate_tells_no_false_verdict {σ : Type} (a : Service σ) (space name : String)
    (clock : σ → Except Fault Moment × σ) (isStopping : σ → Bool) (s : σ) :
    let o := run (a.platform space clock isStopping) (evaluate name) s
    let got := (a (.get .scopes name) s).1
    o.calls = [.get .scopes name] ∧ o.state = (a (.get .scopes name) s).2 ∧
    (∀ n f, .queryBroke n f ∉ o.notices) ∧
    ∃ text, o.result = .ok text ∧ (text = healthy ↔ FoundWell got) ∧ (text = unhealthy ↔ FoundIll got) ∧
      (¬ FoundWell got → ¬ FoundIll got → text ≠ healthy ∧ text ≠ unhealthy ∧
        ((∃ f, got = .error f ∧ text = fetchFailed space name++f.text) ∨
          ∃ raw reason, got = .ok raw ∧ ¬ Documented raw ∧ text = invalid name++reason)) := by
  intro o got
  obtain ⟨text,ns,hrun,hanswered,hcalm⟩ := answered_reply (a.platform space clock isStopping) space name got
    (a (.get .scopes name) s).2
  have ho : o = ⟨.ok text,(a (.get .scopes name) s).2,[.get .scopes name],ns⟩ := by
    have hstep : o = (run (a.platform space clock isStopping)
        (reply name (Service.accept space (.get .scopes name) got)) (a (.get .scopes name) s).2).after
          [.get .scopes name] [] := by
      simp only [o,evaluate_eq]
      rfl
    rw [hstep,hrun]
    rfl
  rw [ho]
  refine ⟨rfl,rfl,hcalm,text,rfl,hanswered.healthy_iff,hanswered.unhealthy_iff,fun hwell hill => ?_⟩
  exact ⟨fun h => hwell (hanswered.healthy_iff.mp h),fun h => hill (hanswered.unhealthy_iff.mp h),
    hanswered.error hwell hill⟩

def holding : Service (Except Failure Value) := fun _ s => (s,s)

def shopQuery (s : Except Failure Value) : Except Fault String :=
  (run (holding.platform "default" (fun s => (.error .overflow,s)) fun _ => false) (evaluate "shop") s).result

def shopOf (db : Value) : Value :=
  .record (Shelf.shop Shelf.probeSpec [("components",Shelf.parts db .null)])

theorem evaluate_tells_no_false_verdict_shop :
    shopQuery (.ok (shopOf .null)) = .ok healthy ∧
    shopQuery (.ok (shopOf (.text "down"))) = .ok unhealthy ∧
    (∃ reason, shopQuery (.ok .null) = .ok (invalid "shop"++reason)) := by
  have h (s : Except Failure Value) := evaluate_tells_no_false_verdict holding "default" "shop"
    (fun s => (.error .overflow,s)) (fun _ => false) s
  have hdoc (db : Value) (hdb : Shape.scope (shopOf db) = []) : Documented (shopOf db) :=
    (documented_iff _).mpr hdb
  have hundocumented : ¬ Documented .null := fun hd => by
    have hshape := (documented_iff _).mp hd
    cases hshape
  refine ⟨?_,?_,?_⟩
  · obtain ⟨-,-,-,text,htext,hwell,-⟩ := h (.ok (shopOf .null))
    refine htext.trans (congrArg Except.ok (hwell.mpr ⟨_,rfl,hdoc _ rfl,?_⟩))
    intro c hc w hw
    have hpart : c = (Shelf.part "db" .null).toValue ∨ c = (Shelf.part "web" .null).toValue := by
      simpa [shopOf,Shelf.shop,Shelf.parts,Value.components] using hc
    rcases hpart with rfl | rfl <;> cases hw
  · obtain ⟨-,-,-,text,htext,-,hill,-⟩ := h (.ok (shopOf (.text "down")))
    refine htext.trans (congrArg Except.ok (hill.mpr ⟨_,rfl,hdoc _ rfl,?_⟩))
    exact ⟨(Shelf.part "db" (.text "down")).toValue,List.mem_cons_self,"down",rfl,by decide⟩
  · obtain ⟨-,-,-,text,htext,-,-,herror⟩ := h (.ok .null)
    have hwell : ¬ FoundWell (.ok .null) := by
      rintro ⟨_,⟨⟩,hd,-⟩
      exact hundocumented hd
    have hill : ¬ FoundIll (.ok .null) := by
      rintro ⟨_,⟨⟩,hd,-⟩
      exact hundocumented hd
    rcases (herror hwell hill).2.2 with ⟨f,hf,-⟩ | ⟨raw,reason,-,-,hreason⟩
    · cases hf
    · exact ⟨reason,htext.trans (congrArg Except.ok hreason)⟩

end Query
end HealthRollup
