import HealthRollup.Proofs.Requests

/-! Separation. A component is judged on the object under its key, and a change of one object shows in the
components with that key alone. A key is both names with a hyphen between them, so two components have one
key where one text is cut into their names at two hyphens of it. -/
namespace HealthRollup

theorem combineName_toList (name instanceName : String) :
    (combineName name instanceName).toList = name.toList++ '-'::instanceName.toList := by
  simp [combineName]

theorem append_cons_eq_append_cons_iff {α : Type} (c : α) (as bs as' bs' : List α) :
    as++c::bs = as'++c::bs' ↔ (as = as' ∧ bs = bs') ∨
      ∃ t, (as' = as++c::t ∧ bs = t++c::bs') ∨ (as = as'++c::t ∧ bs' = t++c::bs) := by
  constructor
  · intro h
    rcases List.append_eq_append_iff.mp h with ⟨u,rfl,hu⟩ | ⟨u,rfl,hu⟩
    · cases u with
      | nil => exact .inl ⟨by simp,(List.cons.inj hu).2⟩
      | cons d t =>
        obtain ⟨rfl,ht⟩ := List.cons.inj hu
        exact .inr ⟨t,.inl ⟨rfl,ht⟩⟩
    · cases u with
      | nil => exact .inl ⟨by simp,(List.cons.inj hu).2.symm⟩
      | cons d t =>
        obtain ⟨rfl,ht⟩ := List.cons.inj hu
        exact .inr ⟨t,.inr ⟨rfl,ht⟩⟩
  · rintro (⟨rfl,rfl⟩ | ⟨t,⟨rfl,rfl⟩ | ⟨rfl,rfl⟩⟩) <;> simp

/-- Two pairs of names have one key where they are the same, and where one text has another hyphen at
which it can be cut. -/
theorem combineName_eq_iff (name instanceName name' instanceName' : String) :
    combineName name instanceName = combineName name' instanceName' ↔
      (name = name' ∧ instanceName = instanceName') ∨
      ∃ t, (name' = combineName name t ∧ instanceName = combineName t instanceName') ∨
        (name = combineName name' t ∧ instanceName' = combineName t instanceName) := by
  simp only [← String.toList_inj,combineName_toList,append_cons_eq_append_cons_iff]
  refine or_congr_right ⟨?_,?_⟩
  · rintro ⟨t,h⟩
    exact ⟨String.ofList t,by simpa using h⟩
  · rintro ⟨t,h⟩
    exact ⟨t.toList,h⟩

/-- The answer to a request for a component's object depends on that object alone. -/
structure Platform.Serves {σ : Type} (p : Platform σ) (view : σ → Objects) : Prop
    extends p.Conserves view where
  component : ∀ n s s', view s .components n = view s' .components n →
    (p.answer (.get .components n) s).1 = (p.answer (.get .components n) s').1

namespace Program
variable {σ α : Type} {p : Platform σ} {view : σ → Objects}

theorem event?_of_events {x : Program α} {s : σ} {e : Event} {es : List Event}
    (h : events p x s = e::es) :
    event? p x s = some e ∧ events p (advance p x s).1 (advance p x s).2 = es := by
  cases x with
  | done a => cases h
  | fail f => cases h
  | say | clock | poll | ask => exact ⟨congrArg some (List.cons.inj h).1,(List.cons.inj h).2⟩

theorem view_advance (hp : p.Conserves view) {x : Program α} {s : σ} {e : Event}
    (h : event? p x s = some e) (hq : ¬ e.IsPatched) : view (advance p x s).2 = view s := by
  cases x with
  | done a => cases h
  | fail f => cases h
  | say n x => rfl
  | clock k => exact hp.clock s
  | poll k => rfl
  | ask c k =>
    obtain rfl := Option.some.inj h
    exact hp.answer c s hq

theorem answer_of_event? {x : Program α} {s : σ} {n : String} {a : Except Fault Value}
    (h : event? p x s = some (.asked (.get .components n) a)) :
    a = (p.answer (.get .components n) s).1 := by
  cases x with
  | done | fail | say | clock | poll => cases h
  | ask c k =>
    obtain ⟨rfl,ha⟩ := Event.asked.inj (Option.some.inj h)
    exact (eq_of_heq ha).symm

theorem answer_of_quiet (hp : p.Serves view) (x : Program α) {s₀ s : σ} (hs : view s = view s₀)
    {before rest : List Event} (he : events p x s = before++rest)
    (hq : ∀ e ∈ before, ¬ e.IsPatched) {n : String} {a : Except Fault Value}
    (hm : .asked (.get .components n) a ∈ before) : a = (p.answer (.get .components n) s₀).1 := by
  induction before generalizing x s with
  | nil => cases hm
  | cons e before ih =>
    obtain ⟨hnow,hlater⟩ := event?_of_events he
    rcases List.mem_cons.mp hm with rfl | hm
    · rw [answer_of_event? hnow]
      exact hp.component n s s₀ (by rw [hs])
    · have hnext := (view_advance hp.toConserves hnow (hq e List.mem_cons_self)).trans hs
      exact ih _ hnext hlater (fun e he => hq e (List.mem_cons_of_mem _ he)) hm

end Program

namespace Aggregation
open Program

theorem observed_of_answers (rs : List ComponentRef) (reads : List (String × Except Fault Value))
    (f : String → Except Fault Value) (hkeys : reads.map Prod.fst = rs.map ComponentRef.key)
    (hf : ∀ n a, (n,a) ∈ reads → a = f n) :
    observed rs reads = rs.map fun r => withState r (counted (f r.key)) := by
  have hreads : reads = rs.map fun r => (r.key,f r.key) := by
    calc reads = reads.map fun x => (x.1,f x.1) :=
          (List.map_id _).symm.trans (List.map_congr_left fun x hx => Prod.ext rfl (hf x.1 x.2 hx))
      _ = (reads.map Prod.fst).map fun n => (n,f n) := by rw [List.map_map]; rfl
      _ = rs.map fun r => (r.key,f r.key) := by rw [hkeys,List.map_map]; rfl
  rw [observed,hreads,List.zipWith_map_right,List.zipWith_self]

section Serves
variable {σ : Type} {p : Platform σ} {view : σ → Objects} {standard : Value} {scope written : Scope} {s : σ}

theorem refs_of_written (hp : p.Serves view)
    (h : (run p (ofScope standard scope) s).result = .ok (.written written)) :
    written.refs =
      scope.refs.map fun r => withState r (counted (p.answer (.get .components r.key) s).1) := by
  have hc := course_of_run p standard scope s
  rw [h] at hc
  obtain ⟨_,_,_,before,status,w,hready,he,rfl⟩ := hc.of_written
  have hanswers (n : String) (a : Except Fault Value)
      (hm : (n,a) ∈ before.filterMap Event.componentRead?) :
      a = (p.answer (.get .components n) s).1 :=
    answer_of_quiet hp _ rfl he (fun e he => (hready.isPreparing e he).not_isPatched)
      (Event.asked_of_componentRead? hm)
  have hrefs : (updated scope status).refs = observed scope.refs (before.filterMap Event.componentRead?) := by
    change status.components.getD [] = _
    rw [hready.components,Scope.refs]
    cases scope.status.bind ScopeStatus.components <;> rfl
  rw [hrefs]
  exact observed_of_answers scope.refs _ _ hready.asked hanswers

theorem exists_written {gateAt : Moment} (hclock : (p.clock s).1 = .ok gateAt)
    (hpass : ∃ g, Passes standard scope gateAt g) (hs : scope.isSupported = true)
    (hr : ∀ e ∈ events p (ofScope standard scope) s, e.IsRegular ∧ ¬ e.IsRefused) :
    ∃ written, (run p (ofScope standard scope) s).result = .ok (.written written) := by
  have hc := course_of_run p standard scope s
  have hhead : (events p (ofScope standard scope) s).head? = some (.read (.ok gateAt)) := by
    rw [events_head?,hclock]
  obtain ⟨status,w,hm⟩ := hc.accepted hhead hpass hs hr
  obtain ⟨status,-,-,hwrote⟩ := hc.patched hm trivial
  exact ⟨_,hwrote⟩

end Serves

/-- A due scope that is probed in the known way is written, each of its components with what the object
under its key counts for. Where one object is changed, made or removed, the components with other keys
are recorded as before. Two different pairs of names have one key exactly where a text is cut into their
names at two of its hyphens. -/
theorem judged_apart {σ : Type} (p : Platform σ) (view : σ → Objects) (hp : p.Serves view)
    (standard : Value) (scope : Scope) (s s' : σ) (k : String)
    (hsame : ∀ n, n ≠ k → view s' .components n = view s .components n) :
    (∀ gateAt, (p.clock s').1 = .ok gateAt → (∃ g, Passes standard scope gateAt g) →
      scope.isSupported = true →
      (∀ e ∈ events p (ofScope standard scope) s', e.IsRegular ∧ ¬ e.IsRefused) →
      ∃ written', (run p (ofScope standard scope) s').result = .ok (.written written')) ∧
    (∀ written', (run p (ofScope standard scope) s').result = .ok (.written written') →
      written'.refs =
        scope.refs.map fun r => withState r (counted (p.answer (.get .components r.key) s').1)) ∧
    (∀ written written', (run p (ofScope standard scope) s).result = .ok (.written written) →
      (run p (ofScope standard scope) s').result = .ok (.written written') →
      List.Forall₂ (fun r r' => r.name = r'.name ∧ r.instanceName = r'.instanceName ∧
        (r.key ≠ k → r = r')) written.refs written'.refs) ∧
    ∀ name instanceName name' instanceName',
      combineName name instanceName = combineName name' instanceName' ↔
        (name = name' ∧ instanceName = instanceName') ∨
        ∃ t, (name' = combineName name t ∧ instanceName = combineName t instanceName') ∨
          (name = combineName name' t ∧ instanceName' = combineName t instanceName) := by
  refine ⟨fun gateAt hclock hpass hs hr => exists_written hclock hpass hs hr,
    fun written' => refs_of_written hp,?_,combineName_eq_iff⟩
  intro written written' h h'
  rw [refs_of_written hp h,refs_of_written hp h',List.forall₂_map_left_iff,List.forall₂_map_right_iff,
    List.forall₂_same]
  intro r _
  refine ⟨rfl,rfl,fun hk => ?_⟩
  have hanswer := hp.component r.key s' s (hsame r.key hk)
  rw [hanswer]

end Aggregation

namespace Store

theorem find?_cons_of_ne {n m : String} (h : n ≠ m) (k : Kind) (v : Value) (s : Store) :
    find? k n (⟨k,m,v⟩::s) = find? k n s := by
  rw [find?_cons,if_neg]
  exact fun hat => h ((isAt_eq_true_iff k n ⟨k,m,v⟩).mp hat).2.symm

end Store

namespace Shelf

theorem platform_serves : platform.Serves view where
  clock s := platform_faithful.conserves.clock s
  answer c s hq := platform_faithful.conserves.answer c s hq
  component n _ _ h := congrArg (found (.get .components n)) h

/-- A scope of these components, not aggregated yet, and the web front. -/
def opened (rs : List ComponentRef) : Store :=
  [⟨.scopes,"shop",.record (shop probeSpec [("components",.list (rs.map ComponentRef.toValue))])⟩,
    ⟨.components,"web-1",.record [("status",.text "degraded")]⟩]

def openedScope (rs : List ComponentRef) : Scope :=
  ⟨"shop",none,.text "poll-status",.text ".status",.null,some ⟨some rs,.null⟩,["components"]⟩

end Shelf

namespace Aggregation
open Program

/-- The database is gone, and the web front is recorded as before. -/
theorem judged_apart_shop :
    let rs := [Shelf.part "db" .null,Shelf.part "web" .null]
    let aggregate (stock : Store) :=
      (run Shelf.platform (ofScope (.int 30) (Shelf.openedScope rs)) ⟨stock,[Shelf.noon,Shelf.noon]⟩).result
    ∃ written written',
      aggregate (⟨.components,"db-1",.record [("status",.text "healthy")]⟩::Shelf.opened rs) =
        .ok (.written written) ∧
      aggregate (Shelf.opened rs) = .ok (.written written') ∧
      written.refs = [Shelf.part "db" (.text "healthy"),Shelf.part "web" (.text "degraded")] ∧
      written'.refs = [Shelf.part "db" (.text "unhealthy"),Shelf.part "web" (.text "degraded")] ∧
      List.Forall₂ (fun r r' => r.name = r'.name ∧ r.instanceName = r'.instanceName ∧
        (r.key ≠ "db-1" → r = r')) written.refs written'.refs := by
  intro rs aggregate
  have hsame (n : String) (hn : n ≠ "db-1") :
      Shelf.view ⟨Shelf.opened rs,[Shelf.noon,Shelf.noon]⟩ .components n =
        Shelf.view ⟨⟨.components,"db-1",.record [("status",.text "healthy")]⟩::Shelf.opened rs,
          [Shelf.noon,Shelf.noon]⟩ .components n := (Store.find?_cons_of_ne hn _ _ _).symm
  obtain ⟨hwrites,hown,hapart,-⟩ := judged_apart Shelf.platform Shelf.view Shelf.platform_serves
    (.int 30) (Shelf.openedScope rs) _ _ "db-1" hsame
  obtain ⟨written',hwritten'⟩ := hwrites Shelf.noon rfl ⟨⟨true,[]⟩,rfl,rfl⟩ rfl (by decide +kernel)
  exact ⟨_,written',rfl,hwritten',rfl,hown written' hwritten',hapart _ written' rfl hwritten'⟩

/-- Two pairs of names with one key: what the object under it says is recorded for both. -/
theorem one_object_for_two :
    let r : ComponentRef := ⟨.text "a-b",.text "c",.null⟩
    let r' : ComponentRef := ⟨.text "a",.text "b-c",.null⟩
    let stock (state : String) : Shelf :=
      ⟨⟨.components,"a-b-c",.record [("status",.text state)]⟩::Shelf.opened [r,r'],[Shelf.noon,Shelf.noon]⟩
    let recorded (state : String) : List ComponentRef :=
      (kept (Shelf.openedScope [r,r'])
        (run Shelf.platform (ofScope (.int 30) (Shelf.openedScope [r,r'])) (stock state)).result).refs
    (r.name,r.instanceName) ≠ (r'.name,r'.instanceName) ∧
      (∀ n, n ≠ r.key → (stock "down").view .components n = (stock "healthy").view .components n) ∧
      recorded "healthy" = [withState r "healthy",withState r' "healthy"] ∧
      recorded "down" = [withState r "down",withState r' "down"] := by
  intro r r' stock recorded
  have hsame (n : String) (hn : n ≠ "a-b-c") :
      (stock "down").view .components n = (stock "healthy").view .components n :=
    (Store.find?_cons_of_ne hn _ _ _).trans (Store.find?_cons_of_ne hn _ _ _).symm
  exact ⟨by decide,hsame,by decide +kernel,by decide +kernel⟩

end Aggregation
end HealthRollup
