import HealthRollup.Proofs.RateLimit
import HealthRollup.Proofs.Requests

/-! The accounts of a pass. Each item of the listing has one turn and falls under one counter, whatever
goes wrong in its turn: it was written, the gate declined it, or it failed. Every failed item is reported
once, and the requests of the pass are those of the turns in their order. -/
namespace HealthRollup

instance : (e : Event) → Decidable e.IsPatched
  | .asked (.patch _ _ _) (.ok _) => inferInstanceAs (Decidable True)
  | .asked (.patch _ _ _) (.error _) | .asked (.list _) _ | .asked (.get _ _) _ | .said _ | .read _
  | .polled _ => inferInstanceAs (Decidable False)

namespace Event

def patches (es : List Event) : Nat := es.countP fun e => decide e.IsPatched

@[simp] theorem patches_nil : patches [] = 0 := rfl
@[simp] theorem patches_append (es fs : List Event) : patches (es++fs) = patches es+patches fs :=
  List.countP_append

theorem patches_eq_zero (es : List Event) (h : ∀ e ∈ es, ¬ e.IsPatched) : patches es = 0 := by
  rw [patches,List.countP_eq_zero]
  intro e he
  simpa using h e he

theorem patches_said (ns : List Notice) : patches (ns.map .said) = 0 := by
  apply patches_eq_zero
  intro e he
  obtain ⟨n,-,rfl⟩ := List.mem_map.mp he
  exact fun h => h

end Event

namespace Notice

def isLoopError (n : Notice) : Bool := n.source == .loop && n.level == .error

def loopErrors (ns : List Notice) : Nat := ns.countP isLoopError

@[simp] theorem loopErrors_nil : loopErrors [] = 0 := rfl
@[simp] theorem loopErrors_append (ms ns : List Notice) :
    loopErrors (ms++ns) = loopErrors ms+loopErrors ns :=
  List.countP_append

theorem loopErrors_eq_zero (ns : List Notice) (h : ∀ n ∈ ns, n.source ≠ .loop) : loopErrors ns = 0 := by
  rw [loopErrors,List.countP_eq_zero]
  intro n hn
  have hne := h n hn
  simp [isLoopError,hne]

end Notice

namespace Gate

theorem source_of_decision {last : Value} {interval : Number} {now : Moment} {g : Decision}
    (h : decision last interval now = .ok g) : ∀ n ∈ g.notices, n.source = .gate := by
  unfold decision at h
  split at h
  · have hg := Except.ok.inj h
    subst hg
    simp
  · split at h
    · have hg := Except.ok.inj h
      subst hg
      simp
    · have hg := Except.ok.inj h
      subst hg
      intro n hn
      rw [List.mem_singleton.mp hn]
      rfl
    · cases h

theorem source_of_check {status : Option ScopeStatus} {interval : Value} {now : Moment}
    {g : Decision} (h : check status interval now = .ok g) : ∀ n ∈ g.notices, n.source = .gate := by
  unfold check at h
  split at h
  · split at h
    · have hg := Except.ok.inj h
      subst hg
      simp
    · exact source_of_decision h
  · cases h

end Gate

namespace Service

/-- A record whose items, where there are any, can be gone through. -/
def IsListing (v : Value) : Prop :=
  ∃ fs, v = .record fs ∧ ∀ w, Fields.get? "items" fs = some w → w.isGiven = true →
    w.isList = true ∨ w.isText = true ∨ w.isRecord = true

theorem isSome_elements?_iff (w : Value) :
    w.elements?.isSome = true ↔ w.isList = true ∨ w.isText = true ∨ w.isRecord = true := by
  cases w <;> simp [Value.elements?,Value.isList,Value.isText,Value.isRecord]

theorem items_eq_ok_iff (v : Value) : (∃ xs, items v = .ok xs) ↔ IsListing v := by
  cases v with
  | record fs =>
    simp only [items,IsListing,Value.record.injEq,exists_eq_left']
    cases hitems : Fields.get? "items" fs with
    | none => simp
    | some w =>
      simp only [Option.some.injEq,forall_eq']
      rw [← isSome_elements?_iff]
      cases hg : w.isGiven with
      | false => simp
      | true => cases w.elements? <;> simp
  | null | bool | num | text | list => simp [items,IsListing]

theorem isRequest_of_items {v : Value} {f : Fault} (h : items v = .error f) : f.isRequest = false := by
  unfold items at h
  split at h
  · split at h
    · cases h
    · split at h
      · split at h
        · cases h
        · rw [← Except.error.inj h]
          rfl
      · cases h
  · rw [← Except.error.inj h]
    rfl

/-- A listing fails in an unforeseen way exactly when the service answers with something that is none. -/
theorem accept_list_iff (space : String) (r : Except Failure Value) :
    (∃ f, accept space (.list .scopes) r = .error f ∧ f.isRequest = false) ↔
      ∃ v, r = .ok v ∧ ¬ IsListing v := by
  cases r with
  | error c => simp [accept,Except.mapError,Except.bind,Fault.isRequest]
  | ok v =>
    have haccept : accept space (.list .scopes) (.ok v) = items v := rfl
    rw [haccept]
    constructor
    · rintro ⟨f,hf,-⟩
      refine ⟨v,rfl,fun hl => ?_⟩
      obtain ⟨xs,hxs⟩ := (items_eq_ok_iff v).mpr hl
      rw [hf] at hxs
      cases hxs
    · rintro ⟨v',hv,hn⟩
      have hsame : v = v' := Except.ok.inj hv
      subst hsame
      cases hitems : items v with
      | ok xs => exact absurd ((items_eq_ok_iff v).mp ⟨xs,hitems⟩) hn
      | error f => exact ⟨f,rfl,isRequest_of_items hitems⟩

end Service

namespace Aggregation
open Program

theorem source_of_readEvents {r : ComponentRef} {a : Except Fault Value} {n : Notice}
    (h : .said n ∈ readEvents r a) : n.source = .aggregator := by
  cases a with
  | ok v => simp [readEvents] at h
  | error f =>
    simp only [readEvents,List.mem_cons,reduceCtorEq,false_or] at h
    split at h
    · have hn : n = .componentUnread f := by simpa using h
      rw [hn]
      rfl
    · cases h

theorem Reads.source {rs : List ComponentRef} {es : List Event}
    {out : Except Fault (List ComponentRef)} (h : Reads rs es out) {n : Notice} (hn : .said n ∈ es) :
    n.source = .aggregator := by
  induction h with
  | nil => cases hn
  | lost r rs a f h => exact source_of_readEvents hn
  | next r rs a s es out ha rest ih =>
    rcases List.mem_append.mp hn with hn | hn
    · exact source_of_readEvents hn
    · exact ih hn

theorem ReadsAll.source {rs : Option (List ComponentRef)} {es : List Event}
    {out : Except Fault (Option (List ComponentRef))} (h : ReadsAll rs es out) {n : Notice}
    (hn : .said n ∈ es) : n.source = .aggregator := by
  cases h with
  | none => cases hn
  | some rs _ out h => exact h.source hn

theorem source_of_opening {standard : Value} {scope : Scope} {gateAt : Moment} {g : Gate.Decision}
    (h : Passes standard scope gateAt g) {n : Notice} (hn : .said n ∈ opening scope gateAt g) :
    n.source ≠ .loop := by
  simp only [opening,List.mem_cons,List.mem_append,List.mem_map,Event.said.injEq,reduceCtorEq,
    false_or,List.not_mem_nil,or_false] at hn
  have hprobing : (Notice.probing scope.name).source = .aggregator := rfl
  rcases hn with ⟨m,hm,rfl⟩ | rfl
  · rw [Gate.source_of_check h.decided m hm]
    decide
  · rw [hprobing]
    decide

theorem source_of_opening_append {standard : Value} {scope : Scope} {gateAt : Moment}
    {g : Gate.Decision} {rs : Option (List ComponentRef)} {es : List Event}
    {out : Except Fault (Option (List ComponentRef))} (h : Passes standard scope gateAt g)
    (hr : ReadsAll rs es out) {n : Notice} (hn : .said n ∈ opening scope gateAt g++es) :
    n.source ≠ .loop := by
  rcases List.mem_append.mp hn with hn | hn
  · exact source_of_opening h hn
  · rw [hr.source hn]
    decide

theorem Ready.source {standard : Value} {scope : Scope} {gateAt stampedAt : Moment}
    {reads es : List Event} {status : ScopeStatus}
    (h : Ready standard scope gateAt stampedAt reads es status)
    (a : Except Fault (patchOf scope status).Answer) {n : Notice}
    (hn : .said n ∈ es++[.asked (patchOf scope status) a]) : n.source ≠ .loop := by
  obtain ⟨g,hp,rfl⟩ := h.passed
  simp only [List.mem_append,List.mem_singleton,reduceCtorEq,or_false] at hn
  exact source_of_opening_append hp h.refreshed (List.mem_append.mpr hn)

theorem Course.source {standard : Value} {scope : Scope} {es : List Event}
    {r : Except Fault Aggregation} (h : Course standard scope es r) {n : Notice} (hn : .said n ∈ es) :
    n.source ≠ .loop := by
  cases h with
  | unclocked f => simp at hn
  | undecided gateAt f h => simp at hn
  | notDue gateAt g h hd =>
    have hm : n ∈ g.notices := by simpa using hn
    rw [Gate.source_of_check h n hm]
    decide
  | unsupported gateAt g h hs => exact source_of_opening h hn
  | unread gateAt g es f h hs hr => exact source_of_opening_append h hr hn
  | unstamped gateAt g es components t f h hs hr ht =>
    have hm : .said n ∈ opening scope gateAt g++es := by
      rcases List.mem_append.mp hn with hn | hn
      · exact hn
      · simp at hn
    exact source_of_opening_append h hr hm
  | refused gateAt stampedAt reads es status f h => exact h.source (.error f) hn
  | written gateAt stampedAt reads es status w h => exact h.source (.ok w) hn

/-- How an aggregation ended: it wrote, it was declined at the gate, or it failed. -/
def wrote : Except Fault Aggregation → Bool
  | .ok (.written _) => true
  | _ => false

def declined : Except Fault Aggregation → Bool
  | .ok .notDue => true
  | _ => false

def broke : Except Fault Aggregation → Bool
  | .error _ => true
  | .ok _ => false

theorem wrote_iff (r : Except Fault Aggregation) :
    wrote r = true ↔ ∃ scope', r = .ok (.written scope') := by
  match r with
  | .ok (.written scope') => simp [wrote]
  | .ok .notDue => simp [wrote]
  | .error f => simp [wrote]

theorem declined_iff (r : Except Fault Aggregation) : declined r = true ↔ r = .ok .notDue := by
  match r with
  | .ok (.written scope') => simp [declined]
  | .ok .notDue => simp [declined]
  | .error f => simp [declined]

/-- An aggregation that is declined is so by the gate, at the first clock reading. -/
theorem Course.of_notDue {standard : Value} {scope : Scope} {es : List Event}
    (h : Course standard scope es (.ok .notDue)) : ∃ gateAt g,
      es.head? = some (.read (.ok gateAt)) ∧
      Gate.check scope.status (scope.interval.orElse standard) gateAt = .ok g ∧ g.due = false := by
  generalize hr : (Except.ok Aggregation.notDue : Except Fault Aggregation) = r at h
  cases h with
  | notDue gateAt g h hd => exact ⟨gateAt,g,rfl,h,hd⟩
  | written gateAt stampedAt reads before status w h => simp at hr
  | unclocked | undecided | unsupported | unread | unstamped | refused => cases hr

theorem Course.patches {standard : Value} {scope : Scope} {es : List Event}
    {r : Except Fault Aggregation} (h : Course standard scope es r) :
    Event.patches es = if wrote r then 1 else 0 := by
  by_cases hw : wrote r = true
  · rw [if_pos hw]
    obtain ⟨scope',hr⟩ := (wrote_iff r).mp hw
    rw [hr] at h
    obtain ⟨_,_,_,before,status,w,hready,rfl,-⟩ := h.of_written
    have hbefore := Event.patches_eq_zero before fun e he => (hready.isPreparing e he).not_isPatched
    have hlast : Event.patches [.asked (patchOf scope status) (.ok w)] = 1 := rfl
    rw [Event.patches_append,hbefore,hlast]
  · rw [if_neg hw]
    apply Event.patches_eq_zero
    intro e he hp
    exact hw ((wrote_iff r).mpr (h.written_iff.mpr ⟨e,he,hp⟩))

/-- Requests for components that the scope refers to, in their order, and after them one patch of the
scope at most. -/
def OwnOf (scope : Scope) (calls : List Call) : Prop :=
  ∃ names, names <+: scope.refs.map ComponentRef.key ∧
    (calls = names.map (Call.get .components) ∨
      ∃ status, calls = names.map (Call.get .components)++[patchOf scope status])

theorem ownOf_nil (scope : Scope) : OwnOf scope [] := ⟨[],List.nil_prefix,.inl rfl⟩

theorem gets_eq (reads : List (String × Except Fault Value)) :
    gets reads = (reads.map Prod.fst).map (Call.get .components) := by
  simp [gets]

theorem Requests.ownOf {scope : Scope} {reads : List (String × Except Fault Value)}
    {readings : List (Except Fault Moment)} {calls : List Call}
    (h : Requests scope reads readings calls) : OwnOf scope calls := by
  cases h with
  | cut before a gateAt hl hk hb ha =>
    refine ⟨(before++[a]).map Prod.fst,?_,.inl (gets_eq _)⟩
    rw [hk]
    exact (List.take_prefix _ _).map _
  | unstamped reads gateAt t f hk hr ht =>
    exact ⟨reads.map Prod.fst,hk ▸ List.prefix_rfl,.inl (gets_eq _)⟩
  | patched reads gateAt t stamp block hk hr ht hb =>
    refine ⟨reads.map Prod.fst,hk ▸ List.prefix_rfl,.inr ⟨observedStatus scope reads stamp,?_⟩⟩
    rw [gets_eq,hb.eq_blockPatch]
    rfl

theorem Course.ownOf {standard : Value} {scope : Scope} {es : List Event}
    {r : Except Fault Aggregation} (h : Course standard scope es r) :
    OwnOf scope (es.filterMap Event.call?) := by
  by_cases hprobe : ∃ gateAt g, es.head? = some (.read (.ok gateAt)) ∧
      Passes standard scope gateAt g ∧ scope.isSupported = true
  · obtain ⟨gateAt,g,hhead,hp,hs⟩ := hprobe
    exact (h.requests hhead hp hs).ownOf
  · have hsilent := h.silent fun gateAt g hhead hp => by
      cases hs : scope.isSupported with
      | false => rfl
      | true => exact absurd ⟨gateAt,g,hhead,hp,hs⟩ hprobe
    rw [hsilent]
    exact ownOf_nil scope

end Aggregation

namespace Report
open Aggregation

theorem count_eq (r : Report) (a : Except Fault Aggregation) :
    r.count a = ⟨r.scopes+1,r.aggregated+(if wrote a then 1 else 0),
      r.skipped+(if declined a then 1 else 0),r.failed+(if broke a then 1 else 0),r.listFailed⟩ := by
  match a with
  | .ok (.written scope) => rfl
  | .ok .notDue => rfl
  | .error f => rfl

theorem foldl_count (rs : List (Except Fault Aggregation)) (r : Report) :
    rs.foldl count r = ⟨r.scopes+rs.length,r.aggregated+rs.countP wrote,r.skipped+rs.countP declined,
      r.failed+rs.countP broke,r.listFailed⟩ := by
  induction rs generalizing r with
  | nil => rfl
  | cons a rs ih =>
    rw [List.foldl_cons,ih,count_eq]
    simp only [List.length_cons,List.countP_cons,mk.injEq]
    refine ⟨?_,?_,?_,?_,trivial⟩ <;> omega

theorem one_ending (a : Except Fault Aggregation) :
    (if wrote a then 1 else 0)+(if declined a then 1 else 0)+(if broke a then 1 else 0) = 1 := by
  match a with
  | .ok (.written scope) => rfl
  | .ok .notDue => rfl
  | .error f => rfl

theorem length_eq_countP (rs : List (Except Fault Aggregation)) :
    rs.length = rs.countP wrote+rs.countP declined+rs.countP broke := by
  induction rs with
  | nil => rfl
  | cons a rs ih =>
    have hone := one_ending a
    simp only [List.length_cons,List.countP_cons]
    omega

end Report

namespace Pass
open Program Aggregation

/-- The requests of a turn are its own: for components that its scope refers to, in their order, and
after them one patch of the scope at most. -/
def Own (raw : Value) (calls : List Call) : Prop :=
  calls = [] ∨ ∃ scope, Scope.ofValue raw = .ok scope ∧ OwnOf scope calls

section Turn
variable {σ : Type} (p : Platform σ) (standard : Value)

def declines (t : Value × σ) : Bool :=
  match Scope.ofValue t.1, (p.clock t.2).1 with
  | .ok scope, .ok gateAt =>
    match Gate.check scope.status (scope.interval.orElse standard) gateAt with
    | .ok g => !g.due
    | .error _ => false
  | _, _ => false

/-- The item is no scope, or its aggregation fails. -/
def fails (t : Value × σ) : Bool :=
  match Scope.ofValue t.1 with
  | .ok scope => broke (run p (ofScope standard scope) t.2).result
  | .error _ => true

theorem fails_eq (t : Value × σ) : fails p standard t = broke (outcome p standard t).result := by
  obtain ⟨raw,s⟩ := t
  cases hread : Scope.ofValue raw with
  | error f => simp [fails,outcome,hread,item_of_unread hread,broke]
  | ok scope => simp [fails,outcome,hread,item_of_read hread]

theorem declines_iff (t : Value × σ) : declines p standard t = true ↔ ∃ scope gateAt g,
    Scope.ofValue t.1 = .ok scope ∧ (p.clock t.2).1 = .ok gateAt ∧
    Gate.check scope.status (scope.interval.orElse standard) gateAt = .ok g ∧ g.due = false := by
  unfold declines
  cases hread : Scope.ofValue t.1 with
  | error f => simp
  | ok scope =>
    cases hclock : (p.clock t.2).1 with
    | error f => simp
    | ok gateAt =>
      cases hgate : Gate.check scope.status (scope.interval.orElse standard) gateAt with
      | error f => simp [hgate]
      | ok g => simp [hgate]

theorem run_of_declined {scope : Scope} {s : σ} {gateAt : Moment} {g : Gate.Decision}
    (hclock : (p.clock s).1 = .ok gateAt)
    (hgate : Gate.check scope.status (scope.interval.orElse standard) gateAt = .ok g)
    (hd : g.due = false) : run p (ofScope standard scope) s =
      ⟨.ok .notDue,(p.clock s).2,[],g.notices⟩ := by
  simp [ofScope,bind_eq,run_andThen,hclock,hgate,run_report,hd,pure_eq,Outcome.after]

theorem declines_eq (t : Value × σ) :
    declines p standard t = declined (outcome p standard t).result := by
  rw [Bool.eq_iff_iff,declines_iff,declined_iff]
  obtain ⟨raw,s⟩ := t
  constructor
  · rintro ⟨scope,gateAt,g,hread,hclock,hgate,hd⟩
    rw [outcome,item_of_read hread,run_of_declined p standard hclock hgate hd]
  · intro h
    cases hread : Scope.ofValue raw with
    | error f => simp [outcome,item_of_unread hread] at h
    | ok scope =>
      rw [outcome,item_of_read hread] at h
      have hcourse := course_of_run p standard scope s
      rw [h] at hcourse
      obtain ⟨gateAt,g,hhead,hgate,hd⟩ := hcourse.of_notDue
      rw [events_head?,Option.some.injEq,Event.read.injEq] at hhead
      exact ⟨scope,gateAt,g,rfl,hhead,hgate,hd⟩

theorem calls_of_declines (t : Value × σ) (h : declines p standard t = true) :
    (outcome p standard t).calls = [] := by
  obtain ⟨scope,gateAt,g,hread,hclock,hgate,hd⟩ := (declines_iff p standard t).mp h
  rw [outcome,item_of_read hread,run_of_declined p standard hclock hgate hd]

theorem patches_item (t : Value × σ) : Event.patches (events p (item standard t.1) t.2) =
    if wrote (outcome p standard t).result then 1 else 0 := by
  obtain ⟨raw,s⟩ := t
  cases hread : Scope.ofValue raw with
  | error f => simp [outcome,item_of_unread hread,wrote,events]
  | ok scope =>
    simp only [outcome,item_of_read hread]
    exact (course_of_run p standard scope s).patches

theorem patches_items (r : Report) (raws : List Value) (s : σ) :
    Event.patches (events p (items standard r raws) s) =
      ((turns p standard raws s).map fun t => (outcome p standard t).result).countP wrote := by
  induction raws generalizing r s with
  | nil => rfl
  | cons raw raws ih =>
    have hitem := patches_item p standard (raw,s)
    simp only [outcome] at hitem
    rw [events_items_cons,Event.patches_append,Event.patches_append,Event.patches_said,ih,hitem,
      Nat.zero_add,Nat.add_comm]
    simp only [turns,outcome,List.map_cons,List.countP_cons]
    rfl

theorem loopErrors_item (t : Value × σ) : Notice.loopErrors (outcome p standard t).notices = 0 := by
  obtain ⟨raw,s⟩ := t
  apply Notice.loopErrors_eq_zero
  intro n hn
  cases hread : Scope.ofValue raw with
  | error f => simp [outcome,item_of_unread hread] at hn
  | ok scope =>
    rw [outcome,item_of_read hread] at hn
    exact (course_of_run p standard scope s).source (said_of_mem_notices hn)

theorem loopErrors_complaint (r : Except Fault Aggregation) :
    Notice.loopErrors (complaint r) = if broke r then 1 else 0 := by
  cases r with
  | ok a => rfl
  | error f => cases hf : f.isForeseen <;> simp [complaint,hf,broke] <;> rfl

/-- What is reported in a turn, by the loop too. -/
def turnNotices (t : Value × σ) : List Notice :=
  (outcome p standard t).notices++complaint (outcome p standard t).result

theorem loopErrors_turn (t : Value × σ) :
    Notice.loopErrors (turnNotices p standard t) = if fails p standard t then 1 else 0 := by
  rw [turnNotices,Notice.loopErrors_append,loopErrors_item,loopErrors_complaint,fails_eq,Nat.zero_add]

theorem loopErrors_turns (ts : List (Value × σ)) :
    Notice.loopErrors (ts.flatMap (turnNotices p standard)) = ts.countP (fails p standard) := by
  induction ts with
  | nil => rfl
  | cons t ts ih =>
    rw [List.flatMap_cons,Notice.loopErrors_append,ih,loopErrors_turn,List.countP_cons,Nat.add_comm]

theorem own_calls (t : Value × σ) : Own t.1 (outcome p standard t).calls := by
  obtain ⟨raw,s⟩ := t
  cases hread : Scope.ofValue raw with
  | error f => exact .inl (by rw [outcome,item_of_unread hread,run_fail])
  | ok scope =>
    refine .inr ⟨scope,hread,?_⟩
    rw [outcome,item_of_read hread,run_calls]
    exact (course_of_run p standard scope s).ownOf

/-- What a pass over a listing accounts for. -/
structure Accounts (st : σ) (raws : List Value) (ts : List (Value × σ)) (report : Report) : Prop where
  items : ts.map Prod.fst = raws
  listed : report.listFailed = false
  scopes : report.scopes = raws.length
  total : report.scopes = report.aggregated+report.skipped+report.failed
  aggregated : report.aggregated = Event.patches (events p (once standard) st)
  skipped : report.skipped = ts.countP (declines p standard)
  waiting : ∀ t ∈ ts, declines p standard t = true → (outcome p standard t).calls = []
  failed : report.failed = ts.countP (fails p standard)
  notices : (run p (once standard) st).notices = ts.flatMap (turnNotices p standard)
  reported : ∀ t ∈ ts,
    Notice.loopErrors (turnNotices p standard t) = if fails p standard t then 1 else 0
  errors : Notice.loopErrors (run p (once standard) st).notices = report.failed
  calls : (run p (once standard) st).calls =
    .list .scopes::ts.flatMap fun t => (outcome p standard t).calls
  own : ∀ t ∈ ts, Own t.1 (outcome p standard t).calls

theorem accounts_of_listing {st : σ} {raws : List Value}
    (h : (p.answer (.list .scopes) st).1 = .ok raws) : ∃ report,
      (run p (once standard) st).result = .ok report ∧
      Accounts p standard st raws (turns p standard raws (p.answer (.list .scopes) st).2) report := by
  let ts := turns p standard raws (p.answer (.list .scopes) st).2
  let endings := ts.map fun t => (outcome p standard t).result
  have hitems : ts.map Prod.fst = raws := map_fst_turns raws _
  have hlength : endings.length = raws.length := by
    rw [← hitems,List.length_map,List.length_map]
  have hreport : ts.foldl (fun (r : Report) t => r.count (outcome p standard t).result) Report.empty =
      ⟨endings.length,endings.countP wrote,endings.countP declined,endings.countP broke,false⟩ := by
    have hcount := Report.foldl_count endings .empty
    rw [List.foldl_map] at hcount
    simpa only [Report.empty,Nat.zero_add] using hcount
  have hrun : run p (once standard) st = _ := run_once_of_ok h
  rw [run_items,hreport] at hrun
  have hpatches : Event.patches (events p (once standard) st) = endings.countP wrote := by
    rw [events_once h]
    exact patches_items p standard .empty raws _
  have hdeclined : endings.countP declined = ts.countP (declines p standard) := by
    rw [List.countP_map]
    exact congrArg (fun f => ts.countP f) (funext fun t => (declines_eq p standard t).symm)
  have hbroke : endings.countP broke = ts.countP (fails p standard) := by
    rw [List.countP_map]
    exact congrArg (fun f => ts.countP f) (funext fun t => (fails_eq p standard t).symm)
  have hnotices : (run p (once standard) st).notices = ts.flatMap (turnNotices p standard) :=
    congrArg Outcome.notices hrun
  have herrors : Notice.loopErrors (run p (once standard) st).notices = endings.countP broke := by
    rw [hnotices,loopErrors_turns,hbroke]
  exact ⟨_,congrArg Outcome.result hrun,{
    items := hitems
    listed := rfl
    scopes := hlength
    total := Report.length_eq_countP endings
    aggregated := hpatches.symm
    skipped := hdeclined
    waiting := fun t _ => calls_of_declines p standard t
    failed := hbroke
    notices := hnotices
    reported := fun t _ => loopErrors_turn p standard t
    errors := herrors
    calls := congrArg Outcome.calls hrun
    own := fun t _ => own_calls p standard t }⟩

end Turn

/-- A pass breaks off only when the listing fails in an unforeseen way, and then nothing but the listing
has been asked for; a listing that fails as a request is reported and counts nothing; and in every other
case each item is accounted for. -/
theorem complete_accounting {σ : Type} (p : Platform σ) (standard : Value) (st : σ) :
    let o := run p (once standard) st
    let listing := (p.answer (.list .scopes) st).1
    ((∃ f, o.result = .error f) ↔ ∃ f, listing = .error f ∧ f.isRequest = false) ∧
    ((∃ f, o.result = .error f) → o.calls = [.list .scopes]) ∧
    (∀ space r, listing = Service.accept space (.list .scopes) r →
      ((∃ f, o.result = .error f) ↔ ∃ v, r = .ok v ∧ ¬ Service.IsListing v)) ∧
    (∀ f, listing = .error f → f.isRequest = true →
      o.result = .ok ⟨0,0,0,0,true⟩ ∧ o.calls = [.list .scopes] ∧ Notice.loopErrors o.notices = 1) ∧
    (∀ raws, listing = .ok raws → ∃ report, o.result = .ok report ∧
      Accounts p standard st raws (turns p standard raws (p.answer (.list .scopes) st).2) report) := by
  intro o listing
  have hbroke : (∃ f, o.result = .error f) ↔ ∃ f, listing = .error f ∧ f.isRequest = false := by
    cases hl : listing with
    | ok raws =>
      obtain ⟨report,hr,-⟩ := accounts_of_listing p standard hl
      simp [o,hr]
    | error f =>
      have ho : o = _ := run_once_of_error hl
      cases hf : f.isRequest <;> simp [ho,hf]
  refine ⟨hbroke,?_,?_,?_,fun raws => accounts_of_listing p standard⟩
  · intro h
    obtain ⟨f,hl,hf⟩ := hbroke.mp h
    have ho : o = _ := run_once_of_error hl
    simp [ho,hf]
  · intro space r hr
    rw [hbroke,hr]
    exact Service.accept_list_iff space r
  · intro f hl hf
    have ho : o = _ := run_once_of_error hl
    rw [if_pos hf] at ho
    rw [ho]
    exact ⟨rfl,rfl,rfl⟩

/-- The shop, a scope without its specification, one that was written at noon, and one that is probed in
a way that is not known. -/
def street : Store :=
  Shelf.stocked early++
    [⟨.scopes,"hut",.record [("metadata",.record [("name",.text "hut")])]⟩,
      ⟨.scopes,"inn",.record [("metadata",.record [("name",.text "inn")]),("spec",.record Shelf.probeSpec),
        ("status",.record recorded.toFields)]⟩,
      ⟨.scopes,"mill",.record [("metadata",.record [("name",.text "mill")]),
        ("spec",.record [("probeEndpoint",.text "x"),("probeMethod",.text "y")])]⟩]

theorem complete_accounting_street :
    let st : Shelf := ⟨street,List.replicate 4 Shelf.noon⟩
    let o := run Shelf.platform (once (.int 30)) st
    o.result.toOption = some ⟨4,1,1,2,false⟩ ∧ Notice.loopErrors o.notices = 2 ∧
      Event.patches (events Shelf.platform (once (.int 30)) st) = 1 := by
  intro st o
  have hresult : o.result.toOption = some ⟨4,1,1,2,false⟩ := by decide +kernel
  obtain ⟨report,hr,haccounts⟩ := (complete_accounting Shelf.platform (.int 30) st).2.2.2.2 _ rfl
  have hreport : report = ⟨4,1,1,2,false⟩ :=
    Option.some.inj ((congrArg Except.toOption hr).symm.trans hresult)
  subst hreport
  exact ⟨hresult,haccounts.errors,haccounts.aggregated.symm⟩

end Pass
end HealthRollup
