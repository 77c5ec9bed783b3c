import HealthRollup.Proofs.Writers
import Mathlib.Logic.Relation

/-! Writers at work on the same objects. Any of them may make its next exchange at any time, and others
may change whatever they like but the scope. What is stored of the scope is then at all times the first
object or the first object with the block of the last writer, whole. -/
namespace HealthRollup

/-- What each writer has left to do, and what has happened so far, oldest first, with who did it. -/
structure Fleet (ι : Type) where
  objects : Objects
  rest : ι → Program Unit
  history : List (ι × Event)

namespace Fleet
open Program Aggregation Fields
variable {ι : Type} [DecidableEq ι]

def start (jobs : ι → Job) (objects : Objects) : Fleet ι := ⟨objects,fun a => (jobs a).program,[]⟩

def pathOf (a : ι) (history : List (ι × Event)) : List Event :=
  history.filterMap fun x => if x.1 = a then some x.2 else none

/-- An exchange of one writer, or a change by others that keeps the scope of this name. -/
inductive Moves (n : String) : Fleet ι → Fleet ι → Prop
  | exchange (f : Fleet ι) (a : ι) (e : Event) (y : Program Unit) (objects : Objects)
      (hs : Program.Step (f.rest a) e y) (hm : f.objects.Meets e objects) :
      Moves n f ⟨objects,Function.update f.rest a y,f.history++[(a,e)]⟩
  | outside (f : Fleet ι) (objects : Objects) (hkeep : objects .scopes n = f.objects .scopes n)
      (ht : objects.Titled n) : Moves n f { f with objects := objects }

@[simp] theorem pathOf_append_self (a : ι) (e : Event) (history : List (ι × Event)) :
    pathOf a (history++[(a,e)]) = pathOf a history++[e] := by
  simp [pathOf]
theorem pathOf_append_of_ne (a b : ι) (e : Event) (history : List (ι × Event)) (h : a ≠ b) :
    pathOf b (history++[(a,e)]) = pathOf b history := by
  simp [pathOf,h]

/-- Nothing has come of the scope yet. -/
structure Untouched (o : Origin) (f : Fleet ι) : Prop where
  quiet : ∀ x ∈ f.history, ¬ o.IsNews x.2
  stored : f.objects .scopes o.scope.name = some o.object

/-- The last patch of the scope in the history left this block, which its writer had built. -/
structure Written (o : Origin) (f : Fleet ι) (status : ScopeStatus) : Prop where
  last : ∃ h₁ a scope w h₂ gateAt stampedAt,
    f.history = h₁++(a,.asked (patchOf scope status) (.ok w))::h₂ ∧ scope.name = o.scope.name ∧
    (∀ x ∈ h₂, ¬ x.2.Writes o.scope.name) ∧ Origin.Built (pathOf a h₁) scope status gateAt stampedAt
  carries : o.Carries status
  stored : f.objects .scopes o.scope.name = some (o.withStatus status)

/-- The invariant of all moves. -/
structure Sound (o : Origin) (f : Fleet ι) : Prop where
  titled : f.objects.Titled o.scope.name
  keeps : ∀ a, KeepsAfter o.Relies o.Allows (pathOf a f.history) (f.rest a) fun _ _ => True
  stored : Untouched o f ∨ ∃ status, Written o f status

variable {o : Origin} {f : Fleet ι}

theorem sound_start (jobs : ι → Job) (objects : Objects)
    (hstored : objects .scopes o.scope.name = some o.object)
    (ht : objects.Titled o.scope.name) : Sound o (start jobs objects) :=
  ⟨ht,fun a => Job.keeps_program (jobs a),.inl ⟨by simp [start],hstored⟩⟩

theorem stored_of_shown {objects objects' : Objects} {e : Event} (hm : objects.Meets e objects')
    {v : Value} (hv : v ∈ e.shown) : ∃ m, objects .scopes m = some v := by
  match e, hv with
  | .asked (.get .scopes m) (.ok w), hv =>
    have hvw : v = w := List.mem_singleton.mp hv
    subst hvw
    exact ⟨m,hm.2⟩
  | .asked (.list .scopes) (.ok vs), hv =>
    exact hm.2.stored hv

theorem Sound.version (h : Sound o f) {v : Value}
    (hv : f.objects .scopes o.scope.name = some v) : o.IsVersion v := by
  rcases h.stored with hu | ⟨status,hw⟩
  · rw [hu.stored] at hv
    exact .inl (Option.some.inj hv).symm
  · rw [hw.stored] at hv
    exact .inr ⟨status,hw.carries,(Option.some.inj hv).symm⟩

theorem Sound.shown (h : Sound o f) {e : Event} {objects : Objects} (hm : f.objects.Meets e objects)
    {v : Value} (hv : v ∈ e.shown) (hn : o.Named v) : f.objects .scopes o.scope.name = some v := by
  obtain ⟨m,hmv⟩ := stored_of_shown hm hv
  have hname := h.titled m v hmv hn
  rwa [hname] at hmv

theorem Sound.relies (h : Sound o f) {e : Event} {objects : Objects}
    (hm : f.objects.Meets e objects) : o.Relies e :=
  fun _ hv hn => h.version (h.shown hm hv hn)

theorem Sound.merged (h : Sound o f) {past : List Event} {scope : Scope} {status : ScopeStatus}
    {v : Value} (hpast : ∀ e ∈ past, ∃ x ∈ f.history, x.2 = e) (hc : o.Carries status)
    (hi : o.Informed past scope.statusKeys) (hv : f.objects .scopes o.scope.name = some v) :
    v.merge (replacement scope status) = o.withStatus status := by
  obtain ⟨stamp,hat⟩ := hc.stamped
  rcases h.stored with hu | ⟨old,hw⟩
  · rw [hu.stored] at hv
    have hfirst : o.object = v := Option.some.inj hv
    subst hfirst
    refine merge_replacement_of_known _ scope status stamp hat o.ordered fun k hk => .inl ?_
    rcases hi with hknown | ⟨e,he,hn⟩
    · exact hknown k hk
    · obtain ⟨x,hx,rfl⟩ := hpast e he
      exact absurd hn (hu.quiet x hx)
  · rw [hw.stored] at hv
    have hversion : o.withStatus old = v := Option.some.inj hv
    subst hversion
    obtain ⟨stamp',hat'⟩ := hw.carries.stamped
    have hkeys := ScopeStatus.keys_toFields_eq (hw.carries.pairs.trans hc.pairs.symm)
      (by simp [hat']) (by simp [hat])
    have hmerge := merge_replacement_of_known (put "status" old.toValue o.fields) scope status stamp hat
      (by rw [ScopeStatus.toValue,blockOf_put_status]; exact ScopeStatus.ordered_toFields old)
      (by
        rw [ScopeStatus.toValue,blockOf_put_status]
        exact fun k hk => .inr ((hkeys k).mp hk))
    rw [put_put] at hmerge
    exact hmerge

theorem mem_of_mem_pathOf {a : ι} {e : Event} {history : List (ι × Event)} (h : e ∈ pathOf a history) :
    ∃ x ∈ history, x.2 = e := by
  obtain ⟨x,hx,he⟩ := List.mem_filterMap.mp h
  refine ⟨x,hx,?_⟩
  split at he
  · exact Option.some.inj he
  · cases he

theorem Sound.keeps_exchange (h : Sound o f) {a : ι} {e : Event} {y : Program Unit}
    {objects : Objects} (hs : Program.Step (f.rest a) e y) (hm : f.objects.Meets e objects) (b : ι) :
    KeepsAfter o.Relies o.Allows (pathOf b (f.history++[(a,e)])) (Function.update f.rest a y b)
      fun _ _ => True := by
  by_cases hab : a = b
  · subst hab
    rw [pathOf_append_self,Function.update_self]
    exact (h.keeps a).step hs (h.relies hm)
  · rw [pathOf_append_of_ne a b e _ hab,Function.update_of_ne (Ne.symm hab)]
    exact h.keeps b

theorem Sound.stored_of_quiet (h : Sound o f) {a : ι} {e : Event} {y : Program Unit}
    {objects : Objects} (hm : f.objects.Meets e objects) (hq : ¬ e.Writes o.scope.name)
    (hkeep : objects .scopes o.scope.name = f.objects .scopes o.scope.name) :
    Untouched o ⟨objects,Function.update f.rest a y,f.history++[(a,e)]⟩ ∨
      ∃ status, Written o ⟨objects,Function.update f.rest a y,f.history++[(a,e)]⟩ status := by
  rcases h.stored with hu | ⟨status,hw⟩
  · refine .inl ⟨?_,hkeep.trans hu.stored⟩
    intro x hx hn
    rcases List.mem_append.mp hx with hx | hx
    · exact hu.quiet x hx hn
    · have hlast : x = (a,e) := List.mem_singleton.mp hx
      subst hlast
      rcases hn with hn | ⟨v,hv,hname,hne⟩
      · exact hq hn
      · have hsame := h.shown hm hv hname
        rw [hu.stored] at hsame
        exact hne (Option.some.inj hsame).symm
  · obtain ⟨h₁,b,scope,w,h₂,gateAt,stampedAt,hhist,hname,hlast,hbuilt⟩ := hw.last
    refine .inr ⟨status,⟨h₁,b,scope,w,h₂++[(a,e)],gateAt,stampedAt,?_,hname,?_,hbuilt⟩,hw.carries,
      hkeep.trans hw.stored⟩
    · rw [hhist,List.append_assoc,List.cons_append]
    · intro x hx
      rcases List.mem_append.mp hx with hx | hx
      · exact hlast x hx
      · have hnew : x = (a,e) := List.mem_singleton.mp hx
        subst hnew
        exact hq

theorem Sound.exchange (h : Sound o f) {a : ι} {e : Event} {y : Program Unit} {objects : Objects}
    (hs : Program.Step (f.rest a) e y) (hm : f.objects.Meets e objects) :
    Sound o ⟨objects,Function.update f.rest a y,f.history++[(a,e)]⟩ := by
  have hkeeps := h.keeps_exchange hs hm
  by_cases hp : e.IsPatched
  · match e, hp with
    | .asked (.patch k n b) (.ok w), _ =>
      obtain ⟨v,hv,rfl⟩ := hm
      have hallowed := Keeps.allowed (h.keeps a) hs
      rw [List.append_nil] at hallowed
      obtain ⟨scope,status,gateAt,stampedAt,hcall,hbuilt,hown⟩ := hallowed
      simp only [patchOf,Call.patch.injEq] at hcall
      obtain ⟨rfl,rfl,rfl⟩ := hcall
      refine ⟨h.titled.put hv,hkeeps,?_⟩
      by_cases hn : scope.name = o.scope.name
      · obtain ⟨hc,hi⟩ := hown hn
        have hstored : f.objects .scopes o.scope.name = some v := hn ▸ hv
        have hmerged := h.merged (fun e he => mem_of_mem_pathOf he) hc hi hstored
        refine .inr ⟨status,⟨f.history,a,scope,w,[],gateAt,stampedAt,rfl,hn,by simp,hbuilt⟩,hc,?_⟩
        change Objects.put _ scope.name _ _ _ o.scope.name = _
        rw [← hn,Objects.put_self,hmerged]
      · refine h.stored_of_quiet ⟨v,hv,rfl⟩ hn ?_
        exact Objects.put_of_ne _ _ _ _ _ _ fun hsame => hn hsame.2.symm
  · have hsame := Event.meets_of_not_isPatched hp hm
    subst hsame
    exact ⟨h.titled,hkeeps,h.stored_of_quiet hm (fun hw => hp hw.isPatched) rfl⟩

theorem Sound.move {f' : Fleet ι} (h : Sound o f) (hm : Moves o.scope.name f f') : Sound o f' := by
  cases hm with
  | exchange a e y objects hs hm => exact h.exchange hs hm
  | outside objects hkeep ht =>
    refine ⟨ht,h.keeps,?_⟩
    rcases h.stored with hu | ⟨status,hw⟩
    · exact .inl ⟨hu.quiet,hkeep.trans hu.stored⟩
    · exact .inr ⟨status,hw.last,hw.carries,hkeep.trans hw.stored⟩

theorem Sound.moves {f' : Fleet ι} (h : Sound o f)
    (hm : Relation.ReflTransGen (Moves o.scope.name) f f') : Sound o f' := by
  induction hm with
  | refl => exact h
  | tail _ hm ih => exact ih.move hm

section Schedule
variable {σ : Type}

def turn (p : Platform σ) (view : σ → Objects) (a : ι) (f : Fleet ι) (s : σ) : Fleet ι :=
  match event? p (f.rest a) s with
  | none => f
  | some e =>
    ⟨view (advance p (f.rest a) s).2,Function.update f.rest a (advance p (f.rest a) s).1,
      f.history++[(a,e)]⟩

/-- The writers take their turns on a platform. -/
def play (p : Platform σ) (view : σ → Objects) : List ι → Fleet ι → σ → Fleet ι
  | [], f, _ => f
  | a::turns, f, s => play p view turns (turn p view a f s) (advance p (f.rest a) s).2

/-- Turns on a faithful platform that nobody else uses are moves. -/
theorem moves_play {p : Platform σ} {view : σ → Objects} (hp : p.Faithful view Eq) (n : String)
    (turns : List ι) (f : Fleet ι) (s : σ) (h : f.objects = view s) :
    Relation.ReflTransGen (Moves n) f (play p view turns f s) := by
  induction turns generalizing f s with
  | nil => exact .refl
  | cons a turns ih =>
    cases he : event? p (f.rest a) s with
    | none =>
      have hturn : turn p view a f s = f := by simp [turn,he]
      have hs : (advance p (f.rest a) s).2 = s := by rw [advance_of_event?_none he]
      rw [play,hturn,hs]
      exact ih f s h
    | some e =>
      have hmove : Moves n f (turn p view a f s) := by
        simp only [turn,he]
        exact .exchange f a e _ _ (step_advance he) (h ▸ meets_advance hp he)
      refine .head hmove (ih _ _ ?_)
      simp [turn,he]

end Schedule

/-- However writers interleave, with whatever failures, what is stored of the scope is its first object
or its first object with the block of the last writer: whole, with the components there always were, and
with the second clock reading of that writer's aggregation as its time. -/
theorem last_write_wins (o : Origin) (jobs : ι → Job) (objects : Objects)
    (hstored : objects .scopes o.scope.name = some o.object) (ht : objects.Titled o.scope.name)
    (f : Fleet ι) (hf : Relation.ReflTransGen (Moves o.scope.name) (start jobs objects) f) :
    ((∀ x ∈ f.history, ¬ x.2.Writes o.scope.name) ∧
      f.objects .scopes o.scope.name = some (.record o.fields)) ∨
    ∃ h₁ a scope w h₂ status standard gateAt stampedAt reads before es stamp,
      f.history = h₁++(a,.asked (patchOf scope status) (.ok w))::h₂ ∧ scope.name = o.scope.name ∧
      (∀ x ∈ h₂, ¬ x.2.Writes o.scope.name) ∧
      pathOf a h₁ = before++es ∧ Ready standard scope gateAt stampedAt reads es status ∧
      es.filterMap Event.reading? = [.ok gateAt,.ok stampedAt] ∧
      stampedAt.timestamp? = some stamp ∧ status.aggregatedAt = .text stamp ∧
      ScopeStatus.pairs (some status) = ScopeStatus.pairs o.scope.status ∧
      f.objects .scopes o.scope.name = some (.record (put "status" status.toValue o.fields)) ∧
      Scope.ofValue (.record (put "status" status.toValue o.fields)) =
        .ok { o.scope with status := some status, statusKeys := keys status.toFields } := by
  have h := (sound_start jobs objects hstored ht).moves hf
  rcases h.stored with hu | ⟨status,hw⟩
  · exact .inl ⟨fun x hx hwrite => hu.quiet x hx (.inl hwrite),hu.stored⟩
  · obtain ⟨h₁,a,scope,w,h₂,gateAt,stampedAt,hhist,hname,hlast,hbuilt⟩ := hw.last
    obtain ⟨standard,reads,before,es,hpath,hready⟩ := hbuilt
    obtain ⟨stamp,hstamp,hat⟩ := hready.stamped
    exact .inr ⟨h₁,a,scope,w,h₂,status,standard,gateAt,stampedAt,reads,before,es,stamp,hhist,hname,hlast,
      hpath,hready,hready.readings,timestamp_eq_ok_iff.mp hstamp,hat,hw.carries.pairs,hw.stored,
      Origin.ofValue_withStatus hw.carries.plain⟩

/-- The shop as it was first, with a note in its block that no writer knows. -/
def opened : Origin where
  fields := early
  scope := loaded
  reads := rfl
  ordered := by decide +kernel

/-- A holder that loads the shop before a pass writes it, and writes it after. -/
def shopTurns : List Bool := false::(List.replicate 10 true++List.replicate 8 false)

def shopJobs (a : Bool) : Job := if a then .pass (.int 30) else .hold "shop" (.int 30) 1

theorem last_write_wins_shop :
    let f := play Shelf.platform Shelf.view shopTurns
      (start shopJobs (Shelf.view ⟨Shelf.stocked early,[]⟩))
      ⟨Shelf.stocked early,List.replicate 4 Shelf.noon⟩
    (f.history.filter fun x => x.2.Writes "shop").map Prod.fst = [true,false] ∧
      ∃ status : ScopeStatus, ScopeStatus.pairs (some status) =
          some [(.text "db",.text "1"),(.text "web",.text "1")] ∧
        f.objects .scopes "shop" = some (.record (put "status" status.toValue early)) := by
  refine ⟨by decide +kernel,?_⟩
  have h := last_write_wins opened shopJobs (Shelf.view ⟨Shelf.stocked early,[]⟩) rfl
    (Shelf.titled_stocked early []) _
    (moves_play Shelf.platform_faithful _ shopTurns _ ⟨Shelf.stocked early,List.replicate 4 Shelf.noon⟩ rfl)
  rcases h with ⟨-,hfirst⟩ | ⟨_,_,_,_,_,status,_,_,_,_,_,_,_,-,-,-,-,-,-,-,-,hpairs,hstored,-⟩
  · exact absurd hfirst (by decide +kernel)
  · exact ⟨status,hpairs,hstored⟩

end Fleet
end HealthRollup
