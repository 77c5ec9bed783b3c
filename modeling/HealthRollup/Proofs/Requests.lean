import HealthRollup.Proofs.WriteBack

/-! The requests of an aggregation. A scope that is not probed makes none; one that is probed asks for
each of its components in their order, until an answer ends it all, and then for one patch at most, which
is the last request. Nothing is changed, on the platform or in the scope that is held, unless that patch
succeeds. -/
namespace HealthRollup

namespace Event

def call? : Event → Option Call
  | .asked c _ => some c
  | _ => none

@[simp] theorem call?_asked (c : Call) (r : Except Fault c.Answer) : call? (.asked c r) = some c := rfl
@[simp] theorem call?_said (n : Notice) : call? (.said n) = none := rfl
@[simp] theorem call?_read (t : Except Fault Moment) : call? (.read t) = none := rfl
@[simp] theorem call?_polled (b : Bool) : call? (.polled b) = none := rfl

theorem getLast?_calls {es : List Event} {c : Call} {r : Except Fault c.Answer}
    (h : es.getLast? = some (.asked c r)) : (es.filterMap call?).getLast? = some c := by
  obtain ⟨before,rfl⟩ := List.getLast?_eq_some_iff.mp h
  simp [List.filterMap_append]

def notice? : Event → Option Notice
  | .said n => some n
  | _ => none

@[simp] theorem notice?_said (n : Notice) : notice? (.said n) = some n := rfl
@[simp] theorem notice?_asked (c : Call) (r : Except Fault c.Answer) : notice? (.asked c r) = none := rfl
@[simp] theorem notice?_read (t : Except Fault Moment) : notice? (.read t) = none := rfl
@[simp] theorem notice?_polled (b : Bool) : notice? (.polled b) = none := rfl

end Event

namespace Program
variable {σ α : Type}

theorem run_calls (p : Platform σ) (x : Program α) (s : σ) :
    (run p x s).calls = (events p x s).filterMap Event.call? := by
  induction x generalizing s with
  | done a => rfl
  | fail f => rfl
  | say n x ih => simp [run,events,List.filterMap_cons,ih]
  | clock k ih => simp [run,events,List.filterMap_cons,ih]
  | poll k ih => simp [run,events,List.filterMap_cons,ih]
  | ask c k ih => simp [run,events,ih]

theorem run_notices (p : Platform σ) (x : Program α) (s : σ) :
    (run p x s).notices = (events p x s).filterMap Event.notice? := by
  induction x generalizing s with
  | done a => rfl
  | fail f => rfl
  | say n x ih => simp [run,events,ih]
  | clock k ih => simp [run,events,List.filterMap_cons,ih]
  | poll k ih => simp [run,events,List.filterMap_cons,ih]
  | ask c k ih => simp [run,events,List.filterMap_cons,ih]

theorem said_of_mem_notices {p : Platform σ} {x : Program α} {s : σ} {n : Notice}
    (h : n ∈ (run p x s).notices) : .said n ∈ events p x s := by
  rw [run_notices] at h
  obtain ⟨e,he,hsaid⟩ := List.mem_filterMap.mp h
  cases e with
  | said m =>
    have hm : m = n := Option.some.inj hsaid
    exact hm ▸ he
  | read | polled | asked => cases hsaid

end Program

/-- Nothing but a patch that succeeds changes what is stored. -/
structure Platform.Conserves {σ τ : Type} (p : Platform σ) (view : σ → τ) : Prop where
  clock : ∀ s, view (p.clock s).2 = view s
  answer : ∀ c s, ¬ (Event.asked c (p.answer c s).1).IsPatched → view (p.answer c s).2 = view s

theorem Platform.Faithful.conserves {σ : Type} {p : Platform σ} {view : σ → Objects}
    (h : p.Faithful view Eq) : p.Conserves view where
  clock s := (h.clock s).symm
  answer c s hq := by
    obtain ⟨o,rfl,hm⟩ := h.answer c s
    exact Event.meets_of_not_isPatched hq hm

theorem Platform.Conserves.view_run {σ τ α : Type} {p : Platform σ} {view : σ → τ}
    (hp : p.Conserves view) (x : Program α) (s : σ)
    (hq : ∀ e ∈ Program.events p x s, ¬ e.IsPatched) : view (x.run p s).state = view s := by
  induction x generalizing s with
  | done a => rfl
  | fail f => rfl
  | say n x ih => exact ih s fun e he => hq e (List.mem_cons_of_mem _ he)
  | clock k ih =>
    have hrest := ih (p.clock s).1 (p.clock s).2 fun e he => hq e (List.mem_cons_of_mem _ he)
    exact hrest.trans (hp.clock s)
  | poll k ih => exact ih _ s fun e he => hq e (List.mem_cons_of_mem _ he)
  | ask c k ih =>
    have hrest := ih (p.answer c s).1 (p.answer c s).2 fun e he => hq e (List.mem_cons_of_mem _ he)
    exact hrest.trans (hp.answer c s (hq _ List.mem_cons_self))

namespace Aggregation
open Program

/-- An answer to a component's read that ends the aggregation: an object that is no record, or a fault
that is no failed request. -/
def EndsAll : Except Fault Value → Prop
  | .ok v => v.isRecord = false
  | .error f => f.isRequest = false

theorem endsAll_of_stateRead {a : Except Fault Value} {f : Fault} (h : stateRead a = .error f) :
    EndsAll a := by
  cases a with
  | error e =>
    cases he : e.isRequest with
    | true => simp [stateRead,he] at h
    | false => exact he
  | ok v =>
    cases v with
    | record fs =>
      simp only [stateRead,stateOf] at h
      split at h <;> cases h
    | null | bool | num | text | list => rfl

theorem not_endsAll_of_stateRead {a : Except Fault Value} {s : String} (h : stateRead a = .ok s) :
    ¬ EndsAll a := by
  intro he
  cases a with
  | error f =>
    have hf : f.isRequest = false := he
    simp [stateRead,hf] at h
  | ok v =>
    cases v with
    | record fs => cases he
    | null | bool | num | text | list => simp [stateRead,stateOf] at h

theorem filterMap_readEvents_append (r : ComponentRef) (a : Except Fault Value) (es : List Event) :
    (readEvents r a++es).filterMap Event.componentRead? =
      (r.key,a)::es.filterMap Event.componentRead? := by
  rw [List.filterMap_append,readEvents_reads]
  rfl

theorem Reads.passed {rs fresh : List ComponentRef} {es : List Event} (h : Reads rs es (.ok fresh)) :
    ∀ a ∈ es.filterMap Event.componentRead?, ¬ EndsAll a.2 := by
  generalize hout : (Except.ok fresh : Except Fault (List ComponentRef)) = out at h
  induction h generalizing fresh with
  | nil => simp
  | lost r rs a f h => simp at hout
  | next r rs a s es out ha rest ih =>
    cases out with
    | error f => simp [Except.map] at hout
    | ok tail =>
      have htail := ih rfl
      rw [filterMap_readEvents_append]
      intro b hb
      rcases List.mem_cons.mp hb with rfl | hb
      · exact not_endsAll_of_stateRead ha
      · exact htail b hb

/-- Reads that end it all: the components were asked for in their order up to the answer that did. -/
theorem Reads.cut {rs : List ComponentRef} {es : List Event} {f : Fault}
    (h : Reads rs es (.error f)) : ∃ before a,
      es.filterMap Event.componentRead? = before++[a] ∧ before.length < rs.length ∧
      (before++[a]).map Prod.fst = (rs.take (before.length+1)).map ComponentRef.key ∧
      (∀ b ∈ before, ¬ EndsAll b.2) ∧ EndsAll a.2 := by
  generalize hout : (Except.error f : Except Fault (List ComponentRef)) = out at h
  induction h with
  | nil => cases hout
  | lost r rs a f' h =>
    refine ⟨[],(r.key,a),readEvents_reads r a,by simp,by simp,by simp,endsAll_of_stateRead h⟩
  | next r rs a s es out ha rest ih =>
    cases out with
    | ok tail => simp [Except.map] at hout
    | error f' =>
      have hf : f = f' := by simpa [Except.map] using hout
      subst hf
      obtain ⟨before,b,hreads,hlength,hkeys,hbefore,hb⟩ := ih rfl
      refine ⟨(r.key,a)::before,b,?_,by simpa using hlength,by simpa using hkeys,?_,hb⟩
      · rw [filterMap_readEvents_append,hreads]
        rfl
      · intro c hc
        rcases List.mem_cons.mp hc with rfl | hc
        · exact not_endsAll_of_stateRead ha
        · exact hbefore c hc

theorem ReadsAll.passed {rs fresh : Option (List ComponentRef)} {es : List Event}
    (h : ReadsAll rs es (.ok fresh)) : ∀ a ∈ es.filterMap Event.componentRead?, ¬ EndsAll a.2 := by
  generalize hout : (Except.ok fresh : Except Fault (Option (List ComponentRef))) = out at h
  cases h with
  | none => simp
  | some rs _ out h =>
    cases out with
    | error f => simp [Except.map] at hout
    | ok tail => exact h.passed

theorem ReadsAll.cut {rs : Option (List ComponentRef)} {es : List Event} {f : Fault}
    (h : ReadsAll rs es (.error f)) : ∃ before a,
      es.filterMap Event.componentRead? = before++[a] ∧ before.length < (rs.getD []).length ∧
      (before++[a]).map Prod.fst = ((rs.getD []).take (before.length+1)).map ComponentRef.key ∧
      (∀ b ∈ before, ¬ EndsAll b.2) ∧ EndsAll a.2 := by
  generalize hout : (Except.error f : Except Fault (Option (List ComponentRef))) = out at h
  cases h with
  | none => cases hout
  | some rs _ out h =>
    cases out with
    | ok tail => simp [Except.map] at hout
    | error f' => exact h.cut

def gets (reads : List (String × Except Fault Value)) : List Call :=
  reads.map fun a => .get .components a.1

theorem calls_of_isPreparing (es : List Event) (h : ∀ e ∈ es, IsPreparing e) :
    es.filterMap Event.call? = gets (es.filterMap Event.componentRead?) := by
  induction es with
  | nil => rfl
  | cons e es ih =>
    have hrest := ih fun e he => h e (List.mem_cons_of_mem _ he)
    have he := h e List.mem_cons_self
    match e, he with
    | .asked (.get .components n) a, _ =>
      simp only [List.filterMap_cons,Event.call?,Event.componentRead?,hrest]
      rfl
    | .said n, _ => simpa only [List.filterMap_cons,Event.call?,Event.componentRead?] using hrest
    | .read t, _ => simpa only [List.filterMap_cons,Event.call?,Event.componentRead?] using hrest

/-- The block that the reads and the time call for. -/
def observedStatus (scope : Scope) (reads : List (String × Except Fault Value)) (stamp : String) :
    ScopeStatus :=
  ⟨(scope.status.bind ScopeStatus.components).map fun rs => observed rs reads,.text stamp⟩

/-- The requests of an aggregation that probes, by the answers to its reads and the readings of its
clock, of which the first is the one at the gate. -/
inductive Requests (scope : Scope) : List (String × Except Fault Value) →
    List (Except Fault Moment) → List Call → Prop
  | cut (before : List (String × Except Fault Value)) (a : String × Except Fault Value)
      (gateAt : Except Fault Moment) (hl : before.length < scope.refs.length)
      (hk : (before++[a]).map Prod.fst = (scope.refs.take (before.length+1)).map ComponentRef.key)
      (hb : ∀ b ∈ before, ¬ EndsAll b.2) (ha : EndsAll a.2) :
      Requests scope (before++[a]) [gateAt] (gets (before++[a]))
  | unstamped (reads : List (String × Except Fault Value)) (gateAt t : Except Fault Moment)
      (f : Fault) (hk : reads.map Prod.fst = scope.refs.map ComponentRef.key)
      (hr : ∀ a ∈ reads, ¬ EndsAll a.2) (ht : t.bind timestamp = .error f) :
      Requests scope reads [gateAt,t] (gets reads)
  | patched (reads : List (String × Except Fault Value)) (gateAt t : Except Fault Moment)
      (stamp : String) (block : Fields) (hk : reads.map Prod.fst = scope.refs.map ComponentRef.key)
      (hr : ∀ a ∈ reads, ¬ EndsAll a.2) (ht : t.bind timestamp = .ok stamp)
      (hb : Conveys scope.statusKeys (observedStatus scope reads stamp) block) :
      Requests scope reads [gateAt,t]
        (gets reads++[.patch .scopes scope.name (.record [("status",.record block)])])

section Course
variable {standard : Value} {scope : Scope} {gateAt stampedAt : Moment} {g : Gate.Decision}
  {es reads before : List Event} {status : ScopeStatus} {r : Except Fault Aggregation}

theorem Ready.eq_observedStatus (h : Ready standard scope gateAt stampedAt reads es status) :
    ∃ stamp, timestamp stampedAt = .ok stamp ∧
      status = observedStatus scope (es.filterMap Event.componentRead?) stamp := by
  obtain ⟨stamp,hstamp,hat⟩ := h.stamped
  refine ⟨stamp,hstamp,?_⟩
  rw [observedStatus,← h.components,← hat]

theorem Ready.requests (h : Ready standard scope gateAt stampedAt reads before status)
    (a : Except Fault (patchOf scope status).Answer) :
    Requests scope ((before++[Event.asked (patchOf scope status) a]).filterMap Event.componentRead?)
      ((before++[Event.asked (patchOf scope status) a]).filterMap Event.reading?)
      ((before++[Event.asked (patchOf scope status) a]).filterMap Event.call?) := by
  obtain ⟨stamp,hstamp,hstatus⟩ := h.eq_observedStatus
  have hcalls := calls_of_isPreparing before h.isPreparing
  have hpatch : [Event.asked (patchOf scope status) a].filterMap Event.call? =
      [patchOf scope status] := rfl
  have hclock : [Event.asked (patchOf scope status) a].filterMap Event.reading? = [] := rfl
  have hpassed : ∀ a ∈ before.filterMap Event.componentRead?, ¬ EndsAll a.2 := by
    rw [h.componentReads]
    exact h.refreshed.passed
  rw [componentReads_patched,List.filterMap_append,List.filterMap_append,hcalls,hpatch,hclock,
    List.append_nil,h.readings,hstatus]
  exact .patched _ _ _ stamp _ h.asked hpassed hstamp (conveys_blockPatch _ _)

theorem Course.requests (h : Course standard scope es r)
    (hhead : es.head? = some (.read (.ok gateAt))) (hp : Passes standard scope gateAt g)
    (hs : scope.isSupported = true) :
    Requests scope (es.filterMap Event.componentRead?) (es.filterMap Event.reading?)
      (es.filterMap Event.call?) := by
  cases h with
  | unclocked f => simp at hhead
  | undecided gateAt' f h =>
    simp only [List.head?_cons,Option.some.injEq,Event.read.injEq,Except.ok.injEq] at hhead
    rw [hhead,hp.decided] at h
    cases h
  | notDue gateAt' g' h hd =>
    simp only [List.head?_cons,Option.some.injEq,Event.read.injEq,Except.ok.injEq] at hhead
    rw [hhead,hp.decided,Except.ok.injEq] at h
    rw [← h,hp.due] at hd
    cases hd
  | unsupported gateAt' g' _ hn =>
    rw [hs] at hn
    cases hn
  | unread gateAt' g' es f _ _ hreads =>
    have hprep := hreads.isPreparing scope gateAt' g'
    obtain ⟨before,a,hbefore,hlength,hkeys,hpassed,hends⟩ := hreads.cut
    rw [calls_of_isPreparing _ hprep,List.filterMap_append,List.filterMap_append,
      filterMap_componentRead?_opening,filterMap_reading?_opening,
      filterMap_reading?_of_isReading _ hreads.isReading,List.nil_append,List.append_nil,hbefore]
    exact .cut before a _ hlength hkeys hpassed hends
  | unstamped gateAt' g' es components t f _ _ hreads ht =>
    have hprep := isPreparing_read (hreads.isPreparing scope gateAt' g') t
    have hlast : [Event.read t].filterMap Event.componentRead? = [] := rfl
    have hclock : [Event.read t].filterMap Event.reading? = [t] := rfl
    rw [calls_of_isPreparing _ hprep,List.filterMap_append,List.filterMap_append,
      List.filterMap_append,List.filterMap_append,filterMap_componentRead?_opening,
      filterMap_reading?_opening,filterMap_reading?_of_isReading _ hreads.isReading,hlast,hclock,
      List.nil_append,List.append_nil,List.append_nil]
    exact .unstamped _ _ t f hreads.ok.1 hreads.passed ht
  | refused gateAt' stampedAt reads before status f h => exact h.requests (.error f)
  | written gateAt' stampedAt reads before status w h => exact h.requests (.ok w)

theorem Course.silent (h : Course standard scope es r)
    (hn : ∀ gateAt g, es.head? = some (.read (.ok gateAt)) → Passes standard scope gateAt g →
      scope.isSupported = false) : es.filterMap Event.call? = [] := by
  have hsaid (ns : List Notice) : (ns.map Event.said).filterMap Event.call? = [] := by
    simp [List.filterMap_map,Function.comp_def]
  cases h with
  | unclocked f => rfl
  | undecided gateAt f h => rfl
  | notDue gateAt g h hd => simp [List.filterMap_cons,hsaid]
  | unsupported gateAt g h hs => simp [opening,List.filterMap_cons,hsaid]
  | unread gateAt g es f h hs hr =>
    rw [hn gateAt g rfl h] at hs
    cases hs
  | unstamped gateAt g es components t f h hs hr ht =>
    rw [hn gateAt g rfl h] at hs
    cases hs
  | refused gateAt stampedAt reads before status f h =>
    obtain ⟨g,hpass,-⟩ := h.passed
    have hs := h.supported
    rw [hn gateAt g (h.head? _) hpass] at hs
    cases hs
  | written gateAt stampedAt reads before status w h =>
    obtain ⟨g,hpass,-⟩ := h.passed
    have hs := h.supported
    rw [hn gateAt g (h.head? _) hpass] at hs
    cases hs

theorem Course.written_iff (h : Course standard scope es r) :
    (∃ scope', r = .ok (.written scope')) ↔ ∃ e ∈ es, e.IsPatched := by
  constructor
  · rintro ⟨scope',hr⟩
    rw [hr] at h
    obtain ⟨_,_,_,before,status,w,-,rfl,-⟩ := h.of_written
    exact ⟨.asked (patchOf scope status) (.ok w),by simp,trivial⟩
  · rintro ⟨e,he,hp⟩
    obtain ⟨status,w,-,hr⟩ := h.patched he hp
    exact ⟨_,hr⟩

/-- The caller of an aggregation that wrote holds the status that was sent: every component as it was just
read, and the time. -/
theorem Course.kept_of_written {scope' : Scope} (h : Course standard scope es (.ok (.written scope'))) :
    ∃ stampedAt stamp sent block w, (es.filterMap Event.reading?).getLast? = some (.ok stampedAt) ∧
      stampedAt.timestamp? = some stamp ∧
      (es.filterMap Event.componentRead?).map Prod.fst = scope.refs.map ComponentRef.key ∧
      sent = observedStatus scope (es.filterMap Event.componentRead?) stamp ∧
      Conveys scope.statusKeys sent block ∧
      es.getLast? = some (.asked (.patch .scopes scope.name (.record [("status",.record block)])) (.ok w)) ∧
      scope' = { scope with status := some sent, statusKeys := Fields.keys sent.toFields } := by
  obtain ⟨_,stampedAt,_,before,status,w,hready,rfl,hu⟩ := h.of_written
  obtain ⟨stamp,hstamp,hstatus⟩ := hready.eq_observedStatus
  have hreadings : (before++[Event.asked (patchOf scope status) (.ok w)]).filterMap Event.reading? =
      before.filterMap Event.reading? := by
    rw [List.filterMap_append]
    exact List.append_nil _
  rw [componentReads_patched,hreadings,hready.readings]
  exact ⟨stampedAt,stamp,status,_,w,rfl,timestamp_eq_ok_iff.mp hstamp,hready.asked,hstatus,
    conveys_blockPatch scope.statusKeys status,List.getLast?_concat,hu⟩

end Course

theorem kept_of_not_written {scope : Scope} {r : Except Fault Aggregation}
    (h : ∀ scope', r ≠ .ok (.written scope')) : kept scope r = scope := by
  match r with
  | .ok (.written scope') => exact absurd rfl (h scope')
  | .ok .notDue => rfl
  | .error f => rfl

/-- An aggregation that does not write leaves everything as it was, what is stored and the scope that is
held, wherever on its way it ended. It makes no requests unless the scope is let pass and is probed in
the known way; then it asks for each component in order, up to an answer that ends it all, and when all
have been passed and the time can be written down it makes its one patch, the last request. It writes
exactly when that patch succeeds, and then the scope that is held has the status that was sent, which is
what was read of the components and the time. -/
theorem all_or_nothing {σ τ : Type} (p : Platform σ) (view : σ → τ) (hp : p.Conserves view)
    (standard : Value) (scope : Scope) (s : σ) :
    let o := run p (ofScope standard scope) s
    let es := events p (ofScope standard scope) s
    let reads := es.filterMap Event.componentRead?
    ((∀ scope', o.result ≠ .ok (.written scope')) →
      view o.state = view s ∧ kept scope o.result = scope) ∧
    ((∀ gateAt g, (p.clock s).1 = .ok gateAt → Passes standard scope gateAt g →
      scope.isSupported = false) → o.calls = []) ∧
    (∀ gateAt g, (p.clock s).1 = .ok gateAt → Passes standard scope gateAt g →
      scope.isSupported = true → Requests scope reads (es.filterMap Event.reading?) o.calls) ∧
    ((∃ scope', o.result = .ok (.written scope')) ↔ ∃ e ∈ es, e.IsPatched) ∧
    (∀ scope', o.result = .ok (.written scope') → ∃ stampedAt stamp sent block w,
      (es.filterMap Event.reading?).getLast? = some (.ok stampedAt) ∧
      stampedAt.timestamp? = some stamp ∧
      reads.map Prod.fst = scope.refs.map ComponentRef.key ∧
      sent = observedStatus scope reads stamp ∧ Conveys scope.statusKeys sent block ∧
      es.getLast? = some (.asked (.patch .scopes scope.name (.record [("status",.record block)])) (.ok w)) ∧
      kept scope o.result =
        { scope with status := some sent, statusKeys := Fields.keys sent.toFields }) := by
  intro o es reads
  have hcourse : Course standard scope es o.result := course_of_run p standard scope s
  have hcalls : o.calls = es.filterMap Event.call? := run_calls p (ofScope standard scope) s
  have hhead : es.head? = some (.read (p.clock s).1) := events_head? p standard scope s
  rw [hcalls]
  refine ⟨?_,?_,?_,hcourse.written_iff,?_⟩
  · intro hn
    refine ⟨hp.view_run _ s fun e he hpatched => ?_,kept_of_not_written hn⟩
    obtain ⟨scope',hr⟩ := hcourse.written_iff.mpr ⟨e,he,hpatched⟩
    exact hn scope' hr
  · intro hn
    refine hcourse.silent fun gateAt g hread hpass => hn gateAt g ?_ hpass
    rw [hhead] at hread
    simpa using hread
  · intro gateAt g hclock hpass hs
    rw [hclock] at hhead
    exact hcourse.requests hhead hpass hs
  · intro scope' hr
    rw [hr] at hcourse ⊢
    exact hcourse.kept_of_written

/-- Where its clock fails after the reads, an aggregation leaves the shop alone; where it does not fail,
the shop that is held has the status of the last request, which takes the old phase away. -/
theorem all_or_nothing_shop :
    let broken := run Shelf.platform (ofScope (.int 30) loaded) ⟨Shelf.stocked early,[Shelf.noon]⟩
    let done := run Shelf.platform (ofScope (.int 30) loaded)
      ⟨Shelf.stocked early,[Shelf.noon,Shelf.noon]⟩
    (broken.calls = [.get .components "db-1",.get .components "web-1"] ∧
      broken.state.view = Shelf.view ⟨Shelf.stocked early,[Shelf.noon]⟩ ∧
      kept loaded broken.result = loaded) ∧
    ∃ status block, (kept loaded done.result).status = some status ∧
      done.calls.getLast? = some (.patch .scopes "shop" (.record [("status",.record block)])) ∧
      ScopeStatus.ofFields block = .ok status ∧ Fields.get? "phase" block = some .null ∧
      Fields.get? "components" block = some (Shelf.parts (.text "healthy") (.text "unhealthy")) := by
  have h (s : Shelf) := all_or_nothing Shelf.platform Shelf.view Shelf.platform_faithful.conserves
    (.int 30) loaded s
  constructor
  · have hresult : (run Shelf.platform (ofScope (.int 30) loaded)
        ⟨Shelf.stocked early,[Shelf.noon]⟩).result = .error .overflow := rfl
    obtain ⟨hview,hkept⟩ := (h ⟨Shelf.stocked early,[Shelf.noon]⟩).1 fun scope' hr => by
      rw [hresult] at hr
      cases hr
    exact ⟨rfl,hview,hkept⟩
  · obtain ⟨_,stamp,sent,block,w,-,-,-,rfl,hconveys,hlast,hkept⟩ :=
      (h ⟨Shelf.stocked early,[Shelf.noon,Shelf.noon]⟩).2.2.2.2 _ rfl
    refine ⟨_,block,congrArg Scope.status hkept,?_,hconveys.read,?_,?_⟩
    · rw [run_calls]
      exact Event.getLast?_calls hlast
    · rw [hconveys.fields,if_pos]
      simp [ScopeStatus.mem_keys_toFields_iff,loaded]
    · rw [hconveys.fields,if_neg,ScopeStatus.get?_components_toFields]
      · rfl
      · simp [ScopeStatus.mem_keys_toFields_iff,observedStatus,loaded]

end Aggregation
end HealthRollup
