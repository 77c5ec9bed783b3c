import HealthRollup.Proofs.WriteBack
import HealthRollup.Loop

/-! Writers of one scope: passes, loops of passes, and holders that load the scope once and aggregate
what they hold again and again. As long as everything a writer is shown of the scope is a version of
it, every patch that the writer makes of the scope gives a version again. -/
namespace HealthRollup
open Program Fields

namespace ComponentRef

def pair (r : ComponentRef) : Value × Value := (r.name,r.instanceName)

end ComponentRef

namespace ScopeStatus

def pairs (s : Option ScopeStatus) : Option (List (Value × Value)) :=
  (s.bind components).map fun rs => rs.map ComponentRef.pair

theorem keys_toFields_eq {s t : ScopeStatus} (h : pairs (some s) = pairs (some t))
    (hs : s.aggregatedAt ≠ .null) (ht : t.aggregatedAt ≠ .null) (k : String) :
    k ∈ keys s.toFields ↔ k ∈ keys t.toFields := by
  have hc : s.components.isSome = t.components.isSome := by
    have hp := congrArg Option.isSome h
    simpa [pairs] using hp
  rw [mem_keys_toFields_iff,mem_keys_toFields_iff,hc]
  simp [hs,ht]

end ScopeStatus

/-- A job of a writer. `standard` is the interval of scopes that set none. -/
inductive Job
  | pass (standard : Value)
  | loop (space : String) (standard : Value) (limit passes : Nat)
  | hold (name : String) (standard : Value) (rounds : Nat)

namespace Job

/-- Aggregations of a scope that is held, each of what the one before left. -/
def again (standard : Value) : Nat → Scope → Program Unit
  | 0, _ => pure ()
  | k+1, scope => do
    let r ← Program.attempt (Aggregation.ofScope standard scope)
    again standard k (Aggregation.kept scope r)

def program : Job → Program Unit
  | .pass standard => do
    let _ ← Pass.once standard
  | .loop space standard limit passes => do
    let _ ← Loop.forever space standard limit passes
  | .hold name standard rounds => do
    let scope ← Scope.load name
    again standard rounds scope

end Job

/-- A scope's object as it was at first, with the scope that it reads as. -/
structure Origin where
  fields : Fields
  scope : Scope
  reads : Scope.ofValue (.record fields) = .ok scope
  ordered : Ordered (Aggregation.blockOf (.record fields))

namespace Event

def shown : Event → List Value
  | .asked (.get .scopes _) (.ok v) => [v]
  | .asked (.list .scopes) (.ok vs) => vs
  | _ => []

end Event

namespace Origin
open Aggregation

variable (o : Origin)

def object : Value := .record o.fields

def withStatus (status : ScopeStatus) : Value := .record (put "status" status.toValue o.fields)

/-- An object that gives itself the name of the scope. -/
def Named (v : Value) : Prop := Scope.nameShown v = some (.text o.scope.name)

/-- A block that an aggregation of the scope may leave. -/
structure Carries (status : ScopeStatus) : Prop where
  plain : status.IsPlain
  stamped : ∃ stamp, status.aggregatedAt = .text stamp
  pairs : ScopeStatus.pairs (some status) = ScopeStatus.pairs o.scope.status

def IsVersion (v : Value) : Prop :=
  v = o.object ∨ ∃ status, o.Carries status ∧ v = o.withStatus status

/-- All that an event shows of the scope are versions of it. -/
def Relies (e : Event) : Prop := ∀ v ∈ e.shown, o.Named v → o.IsVersion v

/-- The scope was patched, or it was seen that it had been. -/
def IsNews (e : Event) : Prop :=
  e.Writes o.scope.name ∨ ∃ v ∈ e.shown, o.Named v ∧ v ≠ o.object

/-- The keys include those of the first block, unless there has been news of another one. -/
def Informed (past : List Event) (known : List String) : Prop :=
  (∀ k ∈ keys (blockOf o.object), k ∈ known) ∨ ∃ e ∈ past, o.IsNews e

/-- What a writer may hold of the scope. -/
structure Holds (past : List Event) (scope : Scope) : Prop where
  plain : ∀ status, scope.status = some status → status.IsPlain
  pairs : ScopeStatus.pairs scope.status = ScopeStatus.pairs o.scope.status
  informed : o.Informed past scope.statusKeys

/-- An object seen under the name of the scope is a version of it, and the first one or news. -/
def Seen (past : List Event) (v : Value) : Prop :=
  o.Named v → o.IsVersion v ∧ (v = o.object ∨ ∃ e ∈ past, o.IsNews e)

/-- A path that ends with all that an aggregation does before its patch. -/
def Built (past : List Event) (scope : Scope) (status : ScopeStatus) (gateAt stampedAt : Moment) :
    Prop :=
  ∃ standard reads before es, past = before++es ∧
    Ready standard scope gateAt stampedAt reads es status

/-- The only patches are the write-backs of aggregations. -/
def Allows (past : List Event) : Call → Prop
  | .patch k n b => ∃ scope status gateAt stampedAt, Call.patch k n b = patchOf scope status ∧
      Built past scope status gateAt stampedAt ∧
      (scope.name = o.scope.name → o.Carries status ∧ o.Informed past scope.statusKeys)
  | _ => True

variable {o}

theorem Informed.append {past : List Event} {known : List String} (h : o.Informed past known)
    (es : List Event) : o.Informed (past++es) known := by
  rcases h with h | ⟨e,he,hn⟩
  · exact .inl h
  · exact .inr ⟨e,List.mem_append_left _ he,hn⟩

theorem Holds.append {past : List Event} {scope : Scope} (h : o.Holds past scope) (es : List Event) :
    o.Holds (past++es) scope :=
  ⟨h.plain,h.pairs,h.informed.append es⟩

theorem ofValue_withStatus {status : ScopeStatus} (h : status.IsPlain) :
    Scope.ofValue (o.withStatus status) =
      .ok { o.scope with status := some status, statusKeys := keys status.toFields } :=
  Scope.ofValue_put_status o.reads status.shows_toFields h

theorem Seen.holds {past : List Event} {v : Value} {scope : Scope} (h : o.Seen past v)
    (hscope : Scope.ofValue v = .ok scope) (hname : scope.name = o.scope.name) :
    o.Holds past scope := by
  have hnamed : o.Named v := by
    rw [Named,← hname]
    exact Scope.nameShown_of_ofValue hscope
  obtain ⟨hversion,hnews⟩ := h hnamed
  refine ⟨fun status => Scope.status_isPlain hscope,?_,?_⟩
  · rcases hversion with rfl | ⟨status,hc,rfl⟩
    · rw [object,o.reads] at hscope
      rw [Except.ok.inj hscope]
    · rw [ofValue_withStatus hc.plain] at hscope
      rw [← Except.ok.inj hscope]
      exact hc.pairs
  · rcases hnews with he | he
    · left
      rw [statusKeys_of_ofValue hscope,he]
      exact fun k hk => hk
    · exact .inr he

theorem Seen.append {past : List Event} {v : Value} (h : o.Seen past v) (es : List Event) :
    o.Seen (past++es) v := by
  intro hnamed
  obtain ⟨hversion,hnews⟩ := h hnamed
  refine ⟨hversion,?_⟩
  rcases hnews with he | ⟨e,he,hn⟩
  · exact .inl he
  · exact .inr ⟨e,List.mem_append_left _ he,hn⟩

theorem Relies.seen {e : Event} (h : o.Relies e) (past : List Event) :
    ∀ v ∈ e.shown, o.Seen (past++[e]) v := by
  intro v hv hnamed
  refine ⟨h v hv hnamed,?_⟩
  by_cases he : v = o.object
  · exact .inl he
  · exact .inr ⟨e,by simp,.inr ⟨v,hv,hnamed,he⟩⟩

end Origin

namespace Aggregation

theorem map_pair_observed (rs : List ComponentRef) (reads : List (String × Except Fault Value))
    (h : reads.length = rs.length) :
    (observed rs reads).map ComponentRef.pair = rs.map ComponentRef.pair := by
  induction rs generalizing reads with
  | nil => simp [observed]
  | cons r rs ih =>
    cases reads with
    | nil => simp at h
    | cons a reads =>
      have hrest := ih reads (by simpa using h)
      simp only [observed,List.zipWith_cons_cons,List.map_cons] at hrest ⊢
      rw [hrest]
      rfl

theorem Ready.pairs {standard : Value} {scope : Scope} {gateAt stampedAt : Moment}
    {reads es : List Event} {status : ScopeStatus}
    (h : Ready standard scope gateAt stampedAt reads es status) :
    ScopeStatus.pairs (some status) = ScopeStatus.pairs scope.status := by
  have hasked := congrArg List.length h.asked
  simp only [ScopeStatus.pairs,Option.bind_some,h.components]
  cases hrs : scope.status.bind ScopeStatus.components with
  | none => rfl
  | some rs =>
    rw [hrs] at hasked
    have hlength : (es.filterMap Event.componentRead?).length = rs.length := by simpa using hasked
    simp only [Option.map_some]
    rw [map_pair_observed rs _ hlength]

theorem Ready.carries {o : Origin} {past : List Event} {standard : Value} {scope : Scope}
    {gateAt stampedAt : Moment} {reads es : List Event} {status : ScopeStatus}
    (h : Ready standard scope gateAt stampedAt reads es status) (hold : o.Holds past scope) :
    o.Carries status := by
  obtain ⟨stamp,-,hat⟩ := h.stamped
  exact ⟨h.isPlain hold.plain,⟨stamp,hat⟩,h.pairs.trans hold.pairs⟩

theorem Course.holds {o : Origin} {past es : List Event} {standard : Value} {scope : Scope}
    {r : Except Fault Aggregation} (h : Course standard scope es r)
    (hname : scope.name = o.scope.name) (hold : o.Holds past scope) :
    o.Holds (past++es) (kept scope r) := by
  match r with
  | .ok (.written scope') =>
    obtain ⟨gateAt,stampedAt,reads,before,status,w,hready,rfl,rfl⟩ := h.of_written
    have hc := hready.carries hold
    refine ⟨?_,hc.pairs,.inr ⟨_,List.mem_append_right _ (List.mem_append_right _ List.mem_cons_self),
      .inl hname⟩⟩
    intro old hold
    rw [← Option.some.inj hold]
    exact hc.plain
  | .ok .notDue => exact hold.append es
  | .error f => exact hold.append es

theorem kept_name {standard : Value} {scope : Scope} {es : List Event}
    {r : Except Fault Aggregation} (h : Course standard scope es r) :
    (kept scope r).name = scope.name := by
  match r with
  | .ok (.written scope') =>
    obtain ⟨_,_,_,_,status,_,-,-,rfl⟩ := h.of_written
    rfl
  | .ok .notDue => rfl
  | .error f => rfl

end Aggregation

namespace Job
open Aggregation

variable {o : Origin} {past : List Event} (standard : Value)

theorem keeps_aggregation (scope : Scope) (h : scope.name = o.scope.name → o.Holds past scope) :
    KeepsAfter o.Relies o.Allows past (ofScope standard scope) fun es r =>
      (kept scope r).name = o.scope.name → o.Holds es (kept scope r) := by
  refine (keeps_ofScope standard scope (fun _ _ => trivial) ?_).mono (fun _ _ h => h) ?_
  · intro gateAt stampedAt reads es status hready
    exact ⟨scope,status,gateAt,stampedAt,rfl,⟨standard,reads,past,es,rfl,hready⟩,
      fun hn => ⟨hready.carries (h hn),(h hn).informed.append es⟩⟩
  · intro es r hc hn
    rw [kept_name hc] at hn
    exact hc.holds hn (h hn)

theorem keeps_again (rounds : Nat) (scope : Scope)
    (h : scope.name = o.scope.name → o.Holds past scope) :
    KeepsAfter o.Relies o.Allows past (again standard rounds scope) fun _ _ => True := by
  induction rounds generalizing past scope with
  | zero => exact keepsAfter_done trivial
  | succ rounds ih =>
    exact (keeps_aggregation standard scope h).attempt_bind fun es r hk => ih (kept scope r) hk

theorem keeps_item (raw : Value) (h : o.Seen past raw) :
    KeepsAfter o.Relies o.Allows past (Pass.item standard raw) fun _ _ => True := by
  apply keepsAfter_ofExcept_bind
  · intro scope hscope
    have hagg := keeps_aggregation standard scope fun hn => h.holds hscope hn
    exact hagg.mono fun _ _ _ => trivial
  · exact fun _ _ => trivial

theorem keeps_items (report : Report) (raws : List Value) (h : ∀ raw ∈ raws, o.Seen past raw) :
    KeepsAfter o.Relies o.Allows past (Pass.items standard report raws) fun _ _ => True := by
  induction raws generalizing past report with
  | nil => exact keepsAfter_done trivial
  | cons raw raws ih =>
    have hitem := keeps_item standard raw (h raw List.mem_cons_self)
    apply (Keeps.after hitem).attempt_bind
    rintro es r ⟨fs,rfl,-⟩
    refine keepsAfter_report_bind (ih _ ?_)
    intro raw hraw
    exact ((h raw (List.mem_cons_of_mem _ hraw)).append fs).append _

theorem keeps_list : KeepsAfter o.Relies o.Allows past (Program.list .scopes)
    fun es r => ∀ raws, r = .ok raws → ∀ raw ∈ raws, o.Seen es raw := by
  refine keepsAfter_ask trivial fun r hr => keepsAfter_ofExcept ?_
  rintro raws rfl
  exact hr.seen past

theorem keeps_get (name : String) : KeepsAfter o.Relies o.Allows past (Program.get .scopes name)
    fun es r => ∀ raw, r = .ok raw → o.Seen es raw := by
  refine keepsAfter_ask trivial fun r hr => keepsAfter_ofExcept ?_
  rintro raw rfl
  exact hr.seen past raw (List.mem_singleton.mpr rfl)

theorem keeps_pass :
    KeepsAfter o.Relies o.Allows past (Pass.once standard) fun _ _ => True := by
  refine keeps_list.attempt_bind fun es r hr => ?_
  cases r with
  | ok raws => exact keeps_items standard .empty raws (hr raws rfl)
  | error f =>
    change KeepsAfter _ _ _ (if f.isRequest then _ else _) _
    split
    · exact keepsAfter_say (keepsAfter_done trivial)
    · exact keepsAfter_fail trivial

theorem keeps_turn (passes : Nat) :
    KeepsAfter o.Relies o.Allows past (Loop.turn standard passes) fun _ _ => True := by
  have hend (es : List Event) : KeepsAfter o.Relies o.Allows es
      (if (passes+1)%Loop.heartbeatEvery = 0 then
        Program.note .heartbeat >>= fun _ => pure ((passes+1)%Loop.heartbeatEvery)
      else pure ((passes+1)%Loop.heartbeatEvery)) fun _ _ => True := by
    split
    · exact keepsAfter_say (keepsAfter_done trivial)
    · exact keepsAfter_done trivial
  refine (keeps_pass standard).attempt_bind fun es r _ => ?_
  cases r with
  | ok report => exact hend es
  | error f => exact keepsAfter_say (hend _)

theorem keeps_turns (limit passes : Nat) :
    KeepsAfter o.Relies o.Allows past (Loop.turns standard limit passes) fun _ _ => True := by
  induction limit generalizing past passes with
  | zero => exact keepsAfter_poll fun b => keepsAfter_done trivial
  | succ limit ih =>
    refine keepsAfter_poll fun b => ?_
    cases b with
    | true => exact keepsAfter_done trivial
    | false =>
      refine (keeps_turn standard passes).bind ?_ fun _ _ _ => trivial
      exact fun es passes _ => ih passes

/-- A writer's job patches with nothing but write-backs, and with versions of the scope as long as it
is shown versions. -/
theorem keeps_program (job : Job) :
    KeepsAfter o.Relies o.Allows past job.program fun _ _ => True := by
  cases job with
  | pass standard =>
    exact (keeps_pass standard).bind (fun _ _ _ => keepsAfter_done trivial) fun _ _ _ => trivial
  | loop space standard limit passes =>
    have hloop : KeepsAfter o.Relies o.Allows past (Loop.forever space standard limit passes)
        fun _ _ => True := by
      refine keepsAfter_say ((keeps_turns standard limit passes).bind ?_ fun _ _ _ => trivial)
      intro es r _
      cases r with
      | none => exact keepsAfter_done trivial
      | some n => exact keepsAfter_say (keepsAfter_done trivial)
    exact hloop.bind (fun _ _ _ => keepsAfter_done trivial) fun _ _ _ => trivial
  | hold name standard rounds =>
    have hload : KeepsAfter o.Relies o.Allows past (Scope.load name)
        fun es r => ∀ scope, r = .ok scope → scope.name = o.scope.name → o.Holds es scope := by
      refine (keeps_get name).bind ?_ fun _ _ _ _ hs => by cases hs
      intro es raw hraw
      refine keepsAfter_ofExcept fun scope hscope hn => ?_
      exact (hraw raw rfl).holds hscope hn
    exact hload.bind (fun es scope h => keeps_again standard rounds scope (h scope rfl))
      fun _ _ _ => trivial

end Job
end HealthRollup
