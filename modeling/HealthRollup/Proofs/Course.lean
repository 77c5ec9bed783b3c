import HealthRollup.Aggregation
import HealthRollup.Proofs.Paths

/-! The course of an aggregation: every way in which it can go, with the events on the way and the end.
One clock reading decides at the gate; the components are read in their order; a second clock reading
gives the timestamp; one patch writes the block back. -/
namespace HealthRollup

/-- The components that a scope refers to; none where it has no list of them. -/
def Scope.refs (s : Scope) : List ComponentRef := (s.status.bind ScopeStatus.components).getD []

namespace Aggregation
open Program

/-- What an answer to a component's read counts for; a fault that is no failed request ends it all. -/
def stateRead : Except Fault Value → Except Fault String
  | .ok v => stateOf v
  | .error f => if f.isRequest then .ok unhealthy else .error f

def readEvents (r : ComponentRef) (a : Except Fault Value) : List Event :=
  .asked (.get .components r.key) a::
    match a with
    | .error f => if f.isRequest then [.said (.componentUnread f)] else []
    | .ok _ => []

def withState (r : ComponentRef) (s : String) : ComponentRef := ⟨r.name,r.instanceName,.text s⟩

/-- The reads of a list of components, in its order, up to the first that ends it all. -/
inductive Reads : List ComponentRef → List Event → Except Fault (List ComponentRef) → Prop
  | nil : Reads [] [] (.ok [])
  | lost (r : ComponentRef) (rs : List ComponentRef) (a : Except Fault Value) (f : Fault)
      (h : stateRead a = .error f) : Reads (r::rs) (readEvents r a) (.error f)
  | next (r : ComponentRef) (rs : List ComponentRef) (a : Except Fault Value) (s : String)
      (es : List Event) (out : Except Fault (List ComponentRef)) (h : stateRead a = .ok s)
      (rest : Reads rs es out) :
      Reads (r::rs) (readEvents r a++es) (out.map fun fresh => withState r s::fresh)

/-- Without a list of components nothing is read and there is no list afterwards. -/
inductive ReadsAll : Option (List ComponentRef) → List Event →
    Except Fault (Option (List ComponentRef)) → Prop
  | none : ReadsAll none [] (.ok none)
  | some (rs : List ComponentRef) (es : List Event) (out : Except Fault (List ComponentRef))
      (h : Reads rs es out) : ReadsAll (some rs) es (out.map some)

def opening (scope : Scope) (gateAt : Moment) (g : Gate.Decision) : List Event :=
  .read (.ok gateAt)::(g.notices.map .said++[.said (.probing scope.name)])

/-- A scope that is let pass at a clock reading and is probed in the known way. -/
structure Passes (standard : Value) (scope : Scope) (gateAt : Moment) (g : Gate.Decision) : Prop where
  decided : Gate.check scope.status (scope.interval.orElse standard) gateAt = .ok g
  due : g.due = true

/-- Everything is ready for the patch: the events so far and the new status block. -/
structure Ready (standard : Value) (scope : Scope) (gateAt stampedAt : Moment) (reads es : List Event)
    (status : ScopeStatus) : Prop where
  passed : ∃ g, Passes standard scope gateAt g ∧
    es = opening scope gateAt g++reads++[.read (.ok stampedAt)]
  supported : scope.isSupported = true
  refreshed : ReadsAll (scope.status.bind ScopeStatus.components) reads (.ok status.components)
  stamped : ∃ stamp, timestamp stampedAt = .ok stamp ∧ status.aggregatedAt = .text stamp

def patchOf (scope : Scope) (status : ScopeStatus) : Call :=
  .patch .scopes scope.name (replacement scope status)

/-- Every way in which the aggregation of a scope can go. -/
inductive Course (standard : Value) (scope : Scope) :
    List Event → Except Fault Aggregation → Prop
  | unclocked (f : Fault) : Course standard scope [.read (.error f)] (.error f)
  | undecided (gateAt : Moment) (f : Fault)
      (h : Gate.check scope.status (scope.interval.orElse standard) gateAt = .error f) :
      Course standard scope [.read (.ok gateAt)] (.error f)
  | notDue (gateAt : Moment) (g : Gate.Decision)
      (h : Gate.check scope.status (scope.interval.orElse standard) gateAt = .ok g)
      (hd : g.due = false) :
      Course standard scope (.read (.ok gateAt)::g.notices.map .said) (.ok .notDue)
  | unsupported (gateAt : Moment) (g : Gate.Decision) (h : Passes standard scope gateAt g)
      (hs : scope.isSupported = false) :
      Course standard scope (opening scope gateAt g)
        (.error (.unsupportedProbe scope.method scope.endpoint))
  | unread (gateAt : Moment) (g : Gate.Decision) (es : List Event) (f : Fault)
      (h : Passes standard scope gateAt g) (hs : scope.isSupported = true)
      (hr : ReadsAll (scope.status.bind ScopeStatus.components) es (.error f)) :
      Course standard scope (opening scope gateAt g++es) (.error f)
  | unstamped (gateAt : Moment) (g : Gate.Decision) (es : List Event)
      (components : Option (List ComponentRef)) (t : Except Fault Moment) (f : Fault)
      (h : Passes standard scope gateAt g) (hs : scope.isSupported = true)
      (hr : ReadsAll (scope.status.bind ScopeStatus.components) es (.ok components))
      (ht : t.bind timestamp = .error f) :
      Course standard scope (opening scope gateAt g++es++[.read t]) (.error f)
  | refused (gateAt stampedAt : Moment) (reads es : List Event) (status : ScopeStatus) (f : Fault)
      (h : Ready standard scope gateAt stampedAt reads es status) :
      Course standard scope (es++[.asked (patchOf scope status) (.error f)])
        (.error (if f.isRequest then .writeBack scope.name f else f))
  | written (gateAt stampedAt : Moment) (reads es : List Event) (status : ScopeStatus) (w : Value)
      (h : Ready standard scope gateAt stampedAt reads es status) :
      Course standard scope (es++[.asked (patchOf scope status) (.ok w)])
        (.ok (.written (updated scope status)))

variable {rely : Event → Prop} {duty : List Event → Call → Prop}

theorem keeps_componentState (r : ComponentRef) (hget : ∀ es n, duty es (.get .components n)) :
    Keeps rely (componentState r) duty
      fun es s => ∃ a, es = readEvents r a ∧ s = stateRead a := by
  refine ⟨hget _ _,fun a _ => ?_⟩
  cases a with
  | ok v =>
    change Keeps rely (ofExcept (stateOf v)) _ _
    rw [keeps_ofExcept_iff]
    exact ⟨.ok v,rfl,rfl⟩
  | error f =>
    change Keeps rely (if f.isRequest then _ else _) _ _
    by_cases hf : f.isRequest
    · rw [if_pos hf]
      exact ⟨.error f,by simp [readEvents,hf],by simp [stateRead,hf]⟩
    · rw [if_neg hf]
      exact ⟨.error f,by simp [readEvents,hf],by simp [stateRead,hf]⟩

theorem keeps_refresh (rs : List ComponentRef) (hget : ∀ es n, duty es (.get .components n)) :
    Keeps rely (refresh rs) duty (Reads rs) := by
  induction rs generalizing duty with
  | nil => exact .nil
  | cons r rs ih =>
    refine (keeps_andThen_iff _ _ _).mpr ((keeps_componentState r hget).mono (fun _ _ h => h) ?_)
    rintro es s ⟨a,rfl,rfl⟩
    cases ha : stateRead a with
    | error f => exact .lost r rs a f ha
    | ok s =>
      refine (keeps_andThen_iff _ _ _).mpr
        ((ih fun _ _ => hget _ _).mono (fun _ _ h => h) ?_)
      intro es out h
      cases out with
      | error f => exact .next r rs a s es (.error f) ha h
      | ok fresh =>
        change Reads _ (readEvents r a++(es++[])) _
        rw [List.append_nil]
        exact .next r rs a s es (.ok fresh) ha h

theorem keeps_refreshAll (rs : Option (List ComponentRef))
    (hget : ∀ es n, duty es (.get .components n)) :
    Keeps rely (refreshAll rs) duty (ReadsAll rs) := by
  cases rs with
  | none => exact .none
  | some rs =>
    refine (keeps_andThen_iff _ _ _).mpr ((keeps_refresh rs hget).mono (fun _ _ h => h) ?_)
    intro es out h
    cases out with
    | error f => exact .some rs es (.error f) h
    | ok fresh =>
      change ReadsAll _ (es++[]) _
      rw [List.append_nil]
      exact .some rs es (.ok fresh) h

theorem keepsAfter_writeBack {past : List Event} (scope : Scope) (status : ScopeStatus)
    {goal : List Event → Except Fault Aggregation → Prop} (hpatch : duty past (patchOf scope status))
    (hok : ∀ w, goal (past++[.asked (patchOf scope status) (.ok w)])
      (.ok (.written (updated scope status))))
    (herror : ∀ f, goal (past++[.asked (patchOf scope status) (.error f)])
      (.error (if f.isRequest then .writeBack scope.name f else f))) :
    KeepsAfter rely duty past (writeBack scope status) goal := by
  apply keepsAfter_ask hpatch
  intro r _
  cases r with
  | ok w => exact keepsAfter_done (hok w)
  | error f => exact keepsAfter_fail (herror f)

section Probe
variable {standard : Value} {scope : Scope} {gateAt : Moment} {g : Gate.Decision}

/-- From the point where the components have been read. -/
theorem keepsAfter_stamp {reads : List Event} {components : Option (List ComponentRef)}
    (hp : Passes standard scope gateAt g) (hs : scope.isSupported = true)
    (hr : ReadsAll (scope.status.bind ScopeStatus.components) reads (.ok components))
    (hpatch : ∀ gateAt stampedAt reads es status,
      Ready standard scope gateAt stampedAt reads es status → duty es (patchOf scope status)) :
    KeepsAfter rely duty (opening scope gateAt g++reads)
      (now >>= fun t => ofExcept (timestamp t) >>= fun stamp => writeBack scope ⟨components,.text stamp⟩)
      (Course standard scope) := by
  apply keepsAfter_now_bind
  · intro stampedAt _
    apply keepsAfter_ofExcept_bind
    · intro stamp hstamp
      have hready : Ready standard scope gateAt stampedAt reads
          (opening scope gateAt g++reads++[.read (.ok stampedAt)]) ⟨components,.text stamp⟩ :=
        ⟨⟨g,hp,rfl⟩,hs,hr,stamp,hstamp,rfl⟩
      exact keepsAfter_writeBack scope _ (hpatch _ _ _ _ _ hready)
        (fun w => .written _ _ _ _ _ w hready) (fun f => .refused _ _ _ _ _ f hready)
    · intro f hf
      exact .unstamped gateAt g reads components (.ok stampedAt) f hp hs hr hf
  · intro f _
    exact .unstamped gateAt g reads components (.error f) f hp hs hr rfl

theorem keepsAfter_probe (hp : Passes standard scope gateAt g)
    (hget : ∀ es n, duty es (.get .components n))
    (hpatch : ∀ gateAt stampedAt reads es status,
      Ready standard scope gateAt stampedAt reads es status → duty es (patchOf scope status)) :
    KeepsAfter rely duty (.read (.ok gateAt)::g.notices.map .said) (probe scope)
      (Course standard scope) := by
  apply keepsAfter_say
  change KeepsAfter rely duty (opening scope gateAt g) (if scope.isSupported then _ else _) _
  cases hs : scope.isSupported with
  | false => exact keepsAfter_fail (.unsupported gateAt g hp hs)
  | true =>
    have hreads : Keeps rely (refreshAll (scope.status.bind ScopeStatus.components))
        (fun es => duty (opening scope gateAt g++es)) (ReadsAll _) :=
      keeps_refreshAll _ fun _ _ => hget _ _
    refine hreads.after.bind ?_ ?_
    · rintro es components ⟨reads,rfl,hr⟩
      exact keepsAfter_stamp hp hs hr hpatch
    · rintro es f ⟨reads,rfl,hr⟩
      exact .unread gateAt g reads f hp hs hr

end Probe

/-- An aggregation runs one of its courses, and patches only when everything is ready. -/
theorem keeps_ofScope (standard : Value) (scope : Scope)
    (hget : ∀ es n, duty es (.get .components n))
    (hpatch : ∀ gateAt stampedAt reads es status,
      Ready standard scope gateAt stampedAt reads es status → duty es (patchOf scope status)) :
    Keeps rely (ofScope standard scope) duty (Course standard scope) := by
  change KeepsAfter rely duty [] (ofScope standard scope) (Course standard scope)
  apply keepsAfter_now_bind
  · intro gateAt _
    apply keepsAfter_ofExcept_bind
    · intro g hg
      apply keepsAfter_report_bind
      change KeepsAfter rely duty (.read (.ok gateAt)::g.notices.map .said)
        (if g.due then probe scope else .done .notDue) _
      cases hd : g.due with
      | false => exact keepsAfter_done (.notDue gateAt g hg hd)
      | true => exact keepsAfter_probe ⟨hg,hd⟩ hget hpatch
    · intro f hf
      exact .undecided gateAt f hf
  · intro f _
    exact .unclocked f

theorem course_of_run {σ : Type} (p : Platform σ) (standard : Value) (scope : Scope) (s : σ) :
    Course standard scope (events p (ofScope standard scope) s)
      (run p (ofScope standard scope) s).result := by
  have h : Keeps (fun _ => True) (ofScope standard scope) (fun _ _ => True) (Course standard scope) :=
    keeps_ofScope standard scope (fun _ _ => trivial) fun _ _ _ _ _ _ => trivial
  exact h.run p s fun _ _ => trivial

/-- The state an answer counts for where it does not end it all. -/
def counted : Except Fault Value → String
  | .ok v =>
    match v.field? "status" with
    | some (.text s) => s
    | _ => unhealthy
  | .error _ => unhealthy

theorem eq_counted_of_stateRead {a : Except Fault Value} {s : String} (h : stateRead a = .ok s) :
    s = counted a := by
  cases a with
  | error f =>
    simp only [stateRead] at h
    split at h
    · exact (Except.ok.inj h).symm
    · simp at h
  | ok v =>
    cases v with
    | record fs =>
      simp only [stateRead,stateOf] at h
      simp only [counted,Value.field?_record]
      split at h <;> simp_all
    | null | bool | num | text | list => simp [stateRead,stateOf] at h

/-- The components with the states that their reads count for. -/
def observed (rs : List ComponentRef) (reads : List (String × Except Fault Value)) :
    List ComponentRef :=
  List.zipWith (fun r a => withState r (counted a.2)) rs reads

@[simp] theorem readEvents_reads (r : ComponentRef) (a : Except Fault Value) :
    (readEvents r a).filterMap Event.componentRead? = [(r.key,a)] := by
  cases a with
  | ok v => rfl
  | error f =>
    by_cases hf : f.isRequest <;> simp [readEvents,hf,Event.componentRead?,List.filterMap]

theorem Reads.ok {rs fresh : List ComponentRef} {es : List Event} (h : Reads rs es (.ok fresh)) :
    (es.filterMap Event.componentRead?).map Prod.fst = rs.map ComponentRef.key ∧
      fresh = observed rs (es.filterMap Event.componentRead?) := by
  generalize hout : (Except.ok fresh : Except Fault (List ComponentRef)) = out at h
  induction h generalizing fresh with
  | nil =>
    have hf : fresh = [] := Except.ok.inj hout
    subst hf
    exact ⟨rfl,rfl⟩
  | lost r rs a f h => simp at hout
  | next r rs a s es out ha rest ih =>
    cases out with
    | error f => simp [Except.map] at hout
    | ok tail =>
      have hf : fresh = withState r s::tail := Except.ok.inj hout
      subst hf
      obtain ⟨hkeys,hfresh⟩ := ih rfl
      rw [List.filterMap_append,readEvents_reads]
      refine ⟨by simp [hkeys],?_⟩
      rw [hfresh,eq_counted_of_stateRead ha]
      rfl

def IsReading : Event → Prop
  | .asked (.get .components _) _ | .said _ => True
  | _ => False

theorem readEvents_isReading (r : ComponentRef) (a : Except Fault Value) :
    ∀ e ∈ readEvents r a, IsReading e := by
  intro e he
  cases a with
  | ok v => simp_all [readEvents,IsReading]
  | error f =>
    simp only [readEvents,List.mem_cons] at he
    rcases he with rfl | he
    · trivial
    · split at he
      · simp_all [IsReading]
      · simp at he

theorem Reads.isReading {rs : List ComponentRef} {es : List Event}
    {out : Except Fault (List ComponentRef)} (h : Reads rs es out) : ∀ e ∈ es, IsReading e := by
  induction h with
  | nil => simp
  | lost r rs a f h => exact readEvents_isReading r a
  | next r rs a s es out ha rest ih =>
    intro e he
    rcases List.mem_append.mp he with he | he
    · exact readEvents_isReading r a e he
    · exact ih e he

theorem ReadsAll.isReading {rs : Option (List ComponentRef)} {es : List Event}
    {out : Except Fault (Option (List ComponentRef))} (h : ReadsAll rs es out) :
    ∀ e ∈ es, IsReading e := by
  cases h with
  | none => simp
  | some rs _ out h => exact h.isReading

theorem ReadsAll.ok {rs fresh : Option (List ComponentRef)} {es : List Event}
    (h : ReadsAll rs es (.ok fresh)) :
    (es.filterMap Event.componentRead?).map Prod.fst = (rs.getD []).map ComponentRef.key ∧
      fresh = rs.map fun rs => observed rs (es.filterMap Event.componentRead?) := by
  generalize hout : (Except.ok fresh : Except Fault (Option (List ComponentRef))) = out at h
  cases h with
  | none =>
    have hf : fresh = Option.none := Except.ok.inj hout
    subst hf
    exact ⟨rfl,rfl⟩
  | some rs _ out h =>
    cases out with
    | error f => simp [Except.map] at hout
    | ok tail =>
      have hf : fresh = Option.some tail := Except.ok.inj hout
      subst hf
      obtain ⟨hkeys,hfresh⟩ := h.ok
      exact ⟨hkeys,congrArg Option.some hfresh⟩

/-- Nothing but clock readings, notices and requests for components' objects. -/
def IsPreparing : Event → Prop
  | .read _ => True
  | e => IsReading e

theorem opening_isPreparing (scope : Scope) (gateAt : Moment) (g : Gate.Decision) :
    ∀ e ∈ opening scope gateAt g, IsPreparing e := by
  intro e he
  simp only [opening,List.mem_cons,List.mem_append,List.mem_map,List.not_mem_nil,or_false] at he
  rcases he with rfl | ⟨n,-,rfl⟩ | rfl <;> trivial

theorem IsReading.isPreparing {e : Event} (h : IsReading e) : IsPreparing e := by
  cases e with
  | read t => trivial
  | said | polled | asked => exact h

theorem ReadsAll.isPreparing {rs : Option (List ComponentRef)} {es : List Event}
    {out : Except Fault (Option (List ComponentRef))} (h : ReadsAll rs es out) (scope : Scope)
    (gateAt : Moment) (g : Gate.Decision) : ∀ e ∈ opening scope gateAt g++es, IsPreparing e := by
  intro e he
  rcases List.mem_append.mp he with he | he
  · exact opening_isPreparing scope gateAt g e he
  · exact (h.isReading e he).isPreparing

theorem isPreparing_read {es : List Event} (h : ∀ e ∈ es, IsPreparing e) (t : Except Fault Moment) :
    ∀ e ∈ es++[.read t], IsPreparing e := by
  intro e he
  rcases List.mem_append.mp he with he | he
  · exact h e he
  · rw [List.mem_singleton.mp he]
    trivial

theorem IsPreparing.not_isPatched {e : Event} (h : IsPreparing e) : ¬ e.IsPatched := by
  intro hp
  match e with
  | .asked (.patch k n b) r => exact h
  | .asked (.list k) r => cases r <;> exact hp
  | .asked (.get k n) r => cases r <;> exact hp
  | .said n | .read t | .polled b => exact hp

section Ready
variable {standard : Value} {scope : Scope} {gateAt stampedAt : Moment} {reads es : List Event}
  {status : ScopeStatus}

theorem Ready.isPreparing (h : Ready standard scope gateAt stampedAt reads es status) :
    ∀ e ∈ es, IsPreparing e := by
  obtain ⟨g,-,rfl⟩ := h.passed
  exact isPreparing_read (h.refreshed.isPreparing scope gateAt g) _

theorem filterMap_reading?_opening (scope : Scope) (gateAt : Moment) (g : Gate.Decision) :
    (opening scope gateAt g).filterMap Event.reading? = [.ok gateAt] := by
  have hn : (g.notices.map Event.said).filterMap Event.reading? = [] := by
    simp [List.filterMap_map,Function.comp_def,Event.reading?]
  simp [opening,List.filterMap_append,hn,Event.reading?]

theorem filterMap_componentRead?_opening (scope : Scope) (gateAt : Moment) (g : Gate.Decision) :
    (opening scope gateAt g).filterMap Event.componentRead? = [] := by
  rw [List.filterMap_eq_nil_iff]
  intro e he
  simp only [opening,List.mem_cons,List.mem_append,List.mem_map,List.not_mem_nil,or_false] at he
  rcases he with rfl | ⟨n,-,rfl⟩ | rfl <;> rfl

theorem filterMap_reading?_of_isReading (es : List Event) (h : ∀ e ∈ es, IsReading e) :
    es.filterMap Event.reading? = [] := by
  rw [List.filterMap_eq_nil_iff]
  intro e he
  have hread := h e he
  match e, hread with
  | .asked (.get .components n) a, _ => rfl
  | .said n, _ => rfl

theorem Ready.readings (h : Ready standard scope gateAt stampedAt reads es status) :
    es.filterMap Event.reading? = [.ok gateAt,.ok stampedAt] := by
  obtain ⟨g,-,rfl⟩ := h.passed
  have hr := filterMap_reading?_of_isReading reads h.refreshed.isReading
  rw [List.filterMap_append,List.filterMap_append,filterMap_reading?_opening,hr]
  rfl

theorem Ready.componentReads (h : Ready standard scope gateAt stampedAt reads es status) :
    es.filterMap Event.componentRead? = reads.filterMap Event.componentRead? := by
  obtain ⟨g,-,rfl⟩ := h.passed
  rw [List.filterMap_append,List.filterMap_append,filterMap_componentRead?_opening]
  simp [Event.componentRead?]

theorem Ready.asked (h : Ready standard scope gateAt stampedAt reads es status) :
    (es.filterMap Event.componentRead?).map Prod.fst =
      ((scope.status.bind ScopeStatus.components).getD []).map ComponentRef.key := by
  rw [h.componentReads]
  exact h.refreshed.ok.1

theorem Ready.components (h : Ready standard scope gateAt stampedAt reads es status) :
    status.components = (scope.status.bind ScopeStatus.components).map
      fun rs => observed rs (es.filterMap Event.componentRead?) := by
  rw [h.componentReads]
  exact h.refreshed.ok.2

end Ready

theorem stateRead_of_isRegular {r : ComponentRef} {a : Except Fault Value}
    (h : ∀ e ∈ readEvents r a, e.IsRegular) : ∃ s, stateRead a = .ok s := by
  have ha : Event.IsRegular (.asked (.get .components r.key) a) := h _ List.mem_cons_self
  cases a with
  | error f =>
    have hf : f.isRequest = true := ha
    exact ⟨unhealthy,by simp [stateRead,hf]⟩
  | ok v =>
    have hv : v.isRecord = true := ha
    cases v with
    | record fs =>
      simp only [stateRead,stateOf]
      split
      · exact ⟨_,rfl⟩
      · exact ⟨_,rfl⟩
    | null | bool | num | text | list => cases hv

theorem Reads.of_isRegular {rs : List ComponentRef} {es : List Event}
    {out : Except Fault (List ComponentRef)} (h : Reads rs es out) (hr : ∀ e ∈ es, e.IsRegular) :
    ∃ fresh, out = .ok fresh := by
  induction h with
  | nil => exact ⟨[],rfl⟩
  | lost r rs a f h =>
    obtain ⟨s,hs⟩ := stateRead_of_isRegular hr
    rw [h] at hs
    cases hs
  | next r rs a s es out ha rest ih =>
    obtain ⟨fresh,rfl⟩ := ih fun e he => hr e (List.mem_append_right _ he)
    exact ⟨_,rfl⟩

theorem ReadsAll.of_isRegular {rs : Option (List ComponentRef)} {es : List Event}
    {out : Except Fault (Option (List ComponentRef))} (h : ReadsAll rs es out)
    (hr : ∀ e ∈ es, e.IsRegular) : ∃ fresh, out = .ok fresh := by
  cases h with
  | none => exact ⟨_,rfl⟩
  | some rs _ out h =>
    obtain ⟨fresh,rfl⟩ := h.of_isRegular hr
    exact ⟨_,rfl⟩

theorem Ready.head? {standard : Value} {scope : Scope} {gateAt stampedAt : Moment}
    {reads es : List Event} {status : ScopeStatus}
    (h : Ready standard scope gateAt stampedAt reads es status) (fs : List Event) :
    (es++fs).head? = some (.read (.ok gateAt)) := by
  obtain ⟨g,-,rfl⟩ := h.passed
  rfl

/-- A scope that is let pass and is probed in the known way comes to its patch, as long as nothing
irregular happens on the way. -/
theorem Course.ready {standard : Value} {scope : Scope} {gateAt : Moment} {g : Gate.Decision}
    {es : List Event} {r : Except Fault Aggregation} (h : Course standard scope es r)
    (hhead : es.head? = some (.read (.ok gateAt))) (hp : Passes standard scope gateAt g)
    (hs : scope.isSupported = true) (hr : ∀ e ∈ es, e.IsRegular) :
    ∃ stampedAt reads before status, Ready standard scope gateAt stampedAt reads before status ∧
      ((∃ w, es = before++[.asked (patchOf scope status) (.ok w)] ∧
          r = .ok (.written (updated scope status))) ∨
        ∃ f, f.isRequest = true ∧ es = before++[.asked (patchOf scope status) (.error f)] ∧
          r = .error (.writeBack scope.name f)) := by
  cases h with
  | unclocked f =>
    cases hr _ List.mem_cons_self
  | undecided gateAt' f h =>
    simp only [List.head?_cons,Option.some.injEq,Event.read.injEq,Except.ok.injEq] at hhead
    rw [hhead,hp.decided] at h
    cases h
  | notDue gateAt' g' h hd =>
    simp only [List.head?_cons,Option.some.injEq,Event.read.injEq,Except.ok.injEq] at hhead
    rw [hhead,hp.decided,Except.ok.injEq] at h
    rw [← h,hp.due] at hd
    cases hd
  | unsupported gateAt' g' _ hn =>
    rw [hs] at hn
    cases hn
  | unread gateAt' g' es f _ _ hreads =>
    obtain ⟨fresh,hf⟩ := hreads.of_isRegular fun e he => hr e (List.mem_append_right _ he)
    cases hf
  | unstamped gateAt' g' es components t f _ _ _ ht =>
    have hm : Event.IsRegular (.read t) := hr _ (by simp)
    cases t with
    | error f => cases hm
    | ok m =>
      obtain ⟨stamp,hstamp⟩ := Option.isSome_iff_exists.mp hm
      simp [Except.bind,timestamp,hstamp] at ht
  | refused gateAt' stampedAt reads before status f h =>
    have hf : f.isRequest = true := hr (.asked (patchOf scope status) (.error f)) (by simp)
    rw [h.head?,Option.some.injEq,Event.read.injEq,Except.ok.injEq] at hhead
    subst hhead
    exact ⟨stampedAt,reads,before,status,h,.inr ⟨f,hf,rfl,by simp [hf]⟩⟩
  | written gateAt' stampedAt reads before status w h =>
    rw [h.head?,Option.some.injEq,Event.read.injEq,Except.ok.injEq] at hhead
    subst hhead
    exact ⟨stampedAt,reads,before,status,h,.inl ⟨w,rfl,rfl⟩⟩

theorem Course.of_written {standard : Value} {scope scope' : Scope} {es : List Event}
    (h : Course standard scope es (.ok (.written scope'))) :
    ∃ gateAt stampedAt reads before status w, Ready standard scope gateAt stampedAt reads before status ∧
      es = before++[.asked (patchOf scope status) (.ok w)] ∧ scope' = updated scope status := by
  generalize hr : (Except.ok (Aggregation.written scope') : Except Fault Aggregation) = r at h
  cases h with
  | written gateAt stampedAt reads before status w h =>
    simp only [Except.ok.injEq,Aggregation.written.injEq] at hr
    exact ⟨gateAt,stampedAt,reads,before,status,w,h,rfl,hr⟩
  | notDue gateAt g h hd => simp at hr
  | unclocked | undecided | unsupported | unread | unstamped | refused => cases hr

theorem Course.isPreparing_or_patch {standard : Value} {scope : Scope} {es : List Event}
    {r : Except Fault Aggregation} (h : Course standard scope es r) :
    (∀ e ∈ es, IsPreparing e) ∨ ∃ before status a, (∀ e ∈ before, IsPreparing e) ∧
      es = before++[.asked (patchOf scope status) a] ∧
      ∀ w, a = .ok w → r = .ok (.written (updated scope status)) := by
  have hread (t : Except Fault Moment) : ∀ e ∈ [Event.read t], IsPreparing e := by
    simp [IsPreparing]
  cases h with
  | unclocked f => exact .inl (hread _)
  | undecided gateAt f h => exact .inl (hread _)
  | notDue gateAt g h hd =>
    left
    intro e he
    simp only [List.mem_cons,List.mem_map] at he
    rcases he with rfl | ⟨n,-,rfl⟩ <;> trivial
  | unsupported gateAt g h hs => exact .inl (opening_isPreparing scope gateAt g)
  | unread gateAt g es f h hs hr => exact .inl (hr.isPreparing scope gateAt g)
  | unstamped gateAt g es components t f h hs hr ht =>
    exact .inl (isPreparing_read (hr.isPreparing scope gateAt g) t)
  | refused gateAt stampedAt reads es status f h =>
    exact .inr ⟨es,status,.error f,h.isPreparing,rfl,fun w hw => by cases hw⟩
  | written gateAt stampedAt reads es status w h =>
    exact .inr ⟨es,status,.ok w,h.isPreparing,rfl,fun _ _ => rfl⟩

theorem Course.patched {standard : Value} {scope : Scope} {es : List Event}
    {r : Except Fault Aggregation} (h : Course standard scope es r) {e : Event} (he : e ∈ es)
    (hp : e.IsPatched) : ∃ status w, e = .asked (patchOf scope status) (.ok w) ∧
      r = .ok (.written (updated scope status)) := by
  rcases h.isPreparing_or_patch with hall | ⟨before,status,a,hall,rfl,hr⟩
  · exact absurd hp (hall e he).not_isPatched
  · rcases List.mem_append.mp he with he | he
    · exact absurd hp (hall e he).not_isPatched
    · have hpatch : e = .asked (patchOf scope status) a := List.mem_singleton.mp he
      subst hpatch
      cases a with
      | error f => exact hp.elim
      | ok w => exact ⟨status,w,rfl,hr w rfl⟩

theorem Course.passed {standard : Value} {scope : Scope} {es : List Event}
    {r : Except Fault Aggregation} (h : Course standard scope es r) {gateAt : Moment}
    (hhead : es.head? = some (.read (.ok gateAt))) {e : Event} (he : e ∈ es) (hp : e.IsPatched) :
    ∃ g, Passes standard scope gateAt g := by
  obtain ⟨_,_,-,hr⟩ := h.patched he hp
  rw [hr] at h
  obtain ⟨gateAt',_,_,before,_,_,hready,rfl,-⟩ := h.of_written
  obtain ⟨g,hpass,-⟩ := hready.passed
  rw [hready.head?,Option.some.injEq,Event.read.injEq,Except.ok.injEq] at hhead
  subst hhead
  exact ⟨g,hpass⟩

theorem Course.accepted {standard : Value} {scope : Scope} {es : List Event}
    {r : Except Fault Aggregation} (h : Course standard scope es r) {gateAt : Moment}
    (hhead : es.head? = some (.read (.ok gateAt))) (hp : ∃ g, Passes standard scope gateAt g)
    (hs : scope.isSupported = true) (hr : ∀ e ∈ es, e.IsRegular ∧ ¬ e.IsRefused) :
    ∃ status w, .asked (patchOf scope status) (.ok w) ∈ es := by
  obtain ⟨g,hpass⟩ := hp
  obtain ⟨stampedAt,reads,before,status,hready,hend⟩ := h.ready hhead hpass hs fun e he => (hr e he).1
  rcases hend with ⟨w,rfl,-⟩ | ⟨f,-,rfl,-⟩
  · exact ⟨status,w,by simp⟩
  · have hm : .asked (patchOf scope status) (.error f) ∈
        before++[.asked (patchOf scope status) (.error f)] := by simp
    exact absurd trivial (hr _ hm).2

end Aggregation
end HealthRollup
