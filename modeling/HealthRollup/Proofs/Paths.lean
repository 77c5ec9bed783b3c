import HealthRollup.Platform

/-! Paths of programs. An event is one exchange of a program with the world together with what came back;
a path is the list of them, oldest first. `Program.Keeps` speaks about all paths of a program at once and
goes through its parts, so that what is shown for the parts holds for every run on a platform and for
every single step. -/
namespace HealthRollup

inductive Event
  | said (n : Notice) | read (t : Except Fault Moment) | polled (b : Bool)
  | asked (c : Call) (r : Except Fault c.Answer)

namespace Event

def reading? : Event → Option (Except Fault Moment)
  | .read t => some t
  | _ => none

/-- The name under which a component's object was asked for, and the answer. -/
def componentRead? : Event → Option (String × Except Fault Value)
  | .asked (.get .components n) r => some (n,r)
  | _ => none

theorem asked_of_componentRead? {es : List Event} {n : String} {a : Except Fault Value}
    (h : (n,a) ∈ es.filterMap componentRead?) : .asked (.get .components n) a ∈ es := by
  obtain ⟨e,he,hread⟩ := List.mem_filterMap.mp h
  match e, hread with
  | .asked (.get .components m) r, hread =>
    obtain ⟨rfl,rfl⟩ := Prod.mk.inj (Option.some.inj hread)
    exact he

/-- A clock reading that can be written as a timestamp, a component's object that is a record, and
requests that fail, if they do, as requests. -/
def isRegular : Event → Bool
  | .read (.ok m) => m.timestamp?.isSome
  | .read (.error _) => false
  | .asked (.get .components _) (.ok v) => v.isRecord
  | .asked _ (.error f) => f.isRequest
  | _ => true

def IsRegular (e : Event) : Prop := e.isRegular = true

instance (e : Event) : Decidable e.IsRegular := inferInstanceAs (Decidable (_ = true))

def IsPatched : Event → Prop
  | .asked (.patch _ _ _) (.ok _) => True
  | _ => False

def Writes (n : String) : Event → Prop
  | .asked (.patch .scopes m _) (.ok _) => m = n
  | _ => False

instance (n : String) : (e : Event) → Decidable (e.Writes n)
  | .asked (.patch .scopes m _) (.ok _) => inferInstanceAs (Decidable (m = n))
  | .asked (.patch .scopes _ _) (.error _) | .asked (.patch .components _ _) _
  | .asked (.list _) _ | .asked (.get _ _) _ | .said _ | .read _ | .polled _ =>
    inferInstanceAs (Decidable False)

theorem Writes.isPatched {n : String} {e : Event} (h : e.Writes n) : e.IsPatched := by
  match e, h with
  | .asked (.patch .scopes m b) (.ok w), _ => trivial

def IsRefused : Event → Prop
  | .asked (.patch _ _ _) (.error _) => True
  | _ => False

instance : (e : Event) → Decidable e.IsRefused
  | .asked (.patch _ _ _) (.error _) => inferInstanceAs (Decidable True)
  | .asked (.patch _ _ _) (.ok _) | .asked (.list _) _ | .asked (.get _ _) _ | .said _ | .read _
  | .polled _ => inferInstanceAs (Decidable False)

end Event

namespace Program
variable {σ α β : Type}

/-- One exchange, with what is left to do after it. -/
inductive Step : Program α → Event → Program α → Prop
  | say (n : Notice) (x : Program α) : Step (.say n x) (.said n) x
  | clock (k : Except Fault Moment → Program α) (t : Except Fault Moment) :
      Step (.clock k) (.read t) (k t)
  | poll (k : Bool → Program α) (b : Bool) : Step (.poll k) (.polled b) (k b)
  | ask (c : Call) (k : Except Fault c.Answer → Program α) (r : Except Fault c.Answer) :
      Step (.ask c k) (.asked c r) (k r)

/-- The next exchange on a platform; none where the program has ended. -/
def event? (p : Platform σ) : Program α → σ → Option Event
  | .done _, _ => none
  | .fail _, _ => none
  | .say n _, _ => some (.said n)
  | .clock _, s => some (.read (p.clock s).1)
  | .poll _, s => some (.polled (p.isStopping s))
  | .ask c _, s => some (.asked c (p.answer c s).1)

theorem step_advance {p : Platform σ} {x : Program α} {s : σ} {e : Event}
    (h : event? p x s = some e) : Step x e (advance p x s).1 := by
  cases x with
  | done a => cases h
  | fail f => cases h
  | say n x =>
    have he : .said n = e := Option.some.inj h
    subst he
    exact .say n x
  | clock k =>
    have he : .read (p.clock s).1 = e := Option.some.inj h
    subst he
    exact .clock k _
  | poll k =>
    have he : .polled (p.isStopping s) = e := Option.some.inj h
    subst he
    exact .poll k _
  | ask c k =>
    have he : .asked c (p.answer c s).1 = e := Option.some.inj h
    subst he
    exact .ask c k _

theorem advance_of_event?_none {p : Platform σ} {x : Program α} {s : σ} (h : event? p x s = none) :
    advance p x s = (x,s) := by
  cases x with
  | done a => rfl
  | fail f => rfl
  | say | clock | poll | ask => cases h

/-- The path that a run on a platform takes. -/
def events (p : Platform σ) : Program α → σ → List Event
  | .done _, _ => []
  | .fail _, _ => []
  | .say n x, s => .said n::events p x s
  | .clock k, s => .read (p.clock s).1::events p (k (p.clock s).1) (p.clock s).2
  | .poll k, s => .polled (p.isStopping s)::events p (k (p.isStopping s)) s
  | .ask c k, s => .asked c (p.answer c s).1::events p (k (p.answer c s).1) (p.answer c s).2

theorem events_andThen (p : Platform σ) (x : Program α) (f : α → Program β) (s : σ) :
    events p (andThen f x) s =
      match (run p x s).result with
      | .ok a => events p x s++events p (f a) (run p x s).state
      | .error _ => events p x s := by
  induction x generalizing s with
  | done a => rfl
  | fail e => rfl
  | say n x ih =>
    simp only [andThen,events,run,ih,Outcome.after_result,Outcome.after_state]
    cases (run p x s).result <;> rfl
  | clock k ih =>
    simp only [andThen,events,run,ih]
    cases (run p (k (p.clock s).1) (p.clock s).2).result <;> rfl
  | poll k ih =>
    simp only [andThen,events,run,ih]
    cases (run p (k (p.isStopping s)) s).result <;> rfl
  | ask c k ih =>
    simp only [andThen,events,run,ih,Outcome.after_result,Outcome.after_state]
    cases (run p (k (p.answer c s).1) (p.answer c s).2).result <;> rfl

@[simp] theorem events_attempt (p : Platform σ) (x : Program α) (s : σ) :
    events p (attempt x) s = events p x s := by
  induction x generalizing s with
  | done a => rfl
  | fail e => rfl
  | say n x ih => simp [attempt,events,ih]
  | clock k ih => simp [attempt,events,ih]
  | poll k ih => simp [attempt,events,ih]
  | ask c k ih => simp [attempt,events,ih]

@[simp] theorem events_report (p : Platform σ) (ns : List Notice) (s : σ) :
    events p (report ns) s = ns.map .said := by
  induction ns with
  | nil => rfl
  | cons n ns ih => simp [report,events,ih]

/-- On every path whose events are as `rely` has them, each request is one that `duty` allows after the
events before it, and the path as a whole ends as `goal` has it. -/
def Keeps (rely : Event → Prop) :
    Program α → (List Event → Call → Prop) → (List Event → Except Fault α → Prop) → Prop
  | .done a, _, goal => goal [] (.ok a)
  | .fail f, _, goal => goal [] (.error f)
  | .say n x, duty, goal =>
    Keeps rely x (fun es => duty (.said n::es)) (fun es => goal (.said n::es))
  | .clock k, duty, goal =>
    ∀ t, rely (.read t) →
      Keeps rely (k t) (fun es => duty (.read t::es)) (fun es => goal (.read t::es))
  | .poll k, duty, goal =>
    ∀ b, Keeps rely (k b) (fun es => duty (.polled b::es)) (fun es => goal (.polled b::es))
  | .ask c k, duty, goal =>
    duty [] c ∧ ∀ r, rely (.asked c r) →
      Keeps rely (k r) (fun es => duty (.asked c r::es)) (fun es => goal (.asked c r::es))

variable {rely : Event → Prop} {duty duty' : List Event → Call → Prop}

theorem Keeps.mono {goal goal' : List Event → Except Fault α → Prop} {x : Program α}
    (h : Keeps rely x duty goal) (hd : ∀ es c, duty es c → duty' es c)
    (hg : ∀ es r, goal es r → goal' es r) : Keeps rely x duty' goal' := by
  induction x generalizing duty duty' goal goal' with
  | done a => exact hg _ _ h
  | fail f => exact hg _ _ h
  | say n x ih => exact ih h (fun _ _ => hd _ _) (fun _ _ => hg _ _)
  | clock k ih => exact fun t ht => ih t (h t ht) (fun _ _ => hd _ _) (fun _ _ => hg _ _)
  | poll k ih => exact fun b => ih b (h b) (fun _ _ => hd _ _) (fun _ _ => hg _ _)
  | ask c k ih =>
    exact ⟨hd _ _ h.1,fun r hr => ih r (h.2 r hr) (fun _ _ => hd _ _) (fun _ _ => hg _ _)⟩

/-- What a program that goes on with `f` has to keep once its first part has ended. -/
def ThenKeeps (rely : Event → Prop) (f : α → Program β) (duty : List Event → Call → Prop)
    (goal : List Event → Except Fault β → Prop) (es : List Event) : Except Fault α → Prop
  | .ok a => Keeps rely (f a) (fun fs => duty (es++fs)) (fun fs => goal (es++fs))
  | .error e => goal es (.error e)

theorem keeps_andThen_iff (x : Program α) (f : α → Program β)
    (goal : List Event → Except Fault β → Prop) :
    Keeps rely (andThen f x) duty goal ↔
      Keeps rely x duty (ThenKeeps rely f duty goal) := by
  induction x generalizing duty goal with
  | done a => rfl
  | fail e => rfl
  | say n x ih => exact ih (fun es => goal (.said n::es))
  | clock k ih => exact forall₂_congr fun t _ => ih t (fun es => goal (.read t::es))
  | poll k ih => exact forall_congr' fun b => ih b (fun es => goal (.polled b::es))
  | ask c k ih =>
    exact and_congr_right fun _ => forall₂_congr fun r _ => ih r (fun es => goal (.asked c r::es))

theorem keeps_attempt_iff (x : Program α) (goal : List Event → Except Fault (Except Fault α) → Prop) :
    Keeps rely (attempt x) duty goal ↔ Keeps rely x duty fun es r => goal es (.ok r) := by
  induction x generalizing duty goal with
  | done a => rfl
  | fail e => rfl
  | say n x ih => exact ih (fun es => goal (.said n::es))
  | clock k ih => exact forall₂_congr fun t _ => ih t (fun es => goal (.read t::es))
  | poll k ih => exact forall_congr' fun b => ih b (fun es => goal (.polled b::es))
  | ask c k ih =>
    exact and_congr_right fun _ => forall₂_congr fun r _ => ih r (fun es => goal (.asked c r::es))

@[simp] theorem keeps_ofExcept_iff (r : Except Fault α) (goal : List Event → Except Fault α → Prop) :
    Keeps rely (ofExcept r) duty goal ↔ goal [] r := by
  cases r <;> rfl

@[simp] theorem keeps_report_iff (ns : List Notice) (goal : List Event → Except Fault Unit → Prop) :
    Keeps rely (report ns) duty goal ↔ goal (ns.map .said) (.ok ()) := by
  induction ns generalizing duty goal with
  | nil => rfl
  | cons n ns ih => exact ih (fun es => goal (.said n::es))

theorem keeps_bind_iff (x : Program α) (f : α → Program β) (goal : List Event → Except Fault β → Prop) :
    Keeps rely (x >>= f) duty goal ↔ Keeps rely x duty (ThenKeeps rely f duty goal) :=
  keeps_andThen_iff x f goal

theorem Keeps.step {goal : List Event → Except Fault α → Prop} {x y : Program α} {e : Event}
    (h : Keeps rely x duty goal) (hs : Step x e y) (hr : rely e) :
    Keeps rely y (fun es => duty (e::es)) (fun es => goal (e::es)) := by
  cases hs with
  | say n => exact h
  | clock k t => exact h t hr
  | poll k b => exact h b
  | ask c k r => exact h.2 r hr

/-- What holds on every path holds on the path of a run. -/
theorem Keeps.run {goal : List Event → Except Fault α → Prop} {x : Program α} (p : Platform σ) (s : σ)
    (h : Keeps rely x duty goal) (hr : ∀ e ∈ events p x s, rely e) :
    goal (events p x s) (run p x s).result := by
  induction x generalizing duty goal s with
  | done a => exact h
  | fail f => exact h
  | say n x ih => exact ih s h fun e he => hr e (List.mem_cons_of_mem _ he)
  | clock k ih =>
    exact ih _ _ (h _ (hr _ List.mem_cons_self)) fun e he => hr e (List.mem_cons_of_mem _ he)
  | poll k ih => exact ih _ _ (h _) fun e he => hr e (List.mem_cons_of_mem _ he)
  | ask c k ih =>
    exact ih _ _ (h.2 _ (hr _ List.mem_cons_self)) fun e he => hr e (List.mem_cons_of_mem _ he)

theorem Keeps.allowed {goal : List Event → Except Fault α → Prop} {x y : Program α} {c : Call}
    {r : Except Fault c.Answer} (h : Keeps rely x duty goal) (hs : Step x (.asked c r) y) :
    duty [] c := by
  cases hs with
  | ask c k r => exact h.1

/-- The same with the events that came before the program counted in. -/
def KeepsAfter (rely : Event → Prop) (duty : List Event → Call → Prop) (past : List Event)
    (x : Program α) (goal : List Event → Except Fault α → Prop) : Prop :=
  Keeps rely x (fun es => duty (past++es)) fun es => goal (past++es)

section KeepsAfter
variable {past : List Event}

theorem KeepsAfter.mono {x : Program α} {goal goal' : List Event → Except Fault α → Prop}
    (h : KeepsAfter rely duty past x goal) (hg : ∀ es r, goal es r → goal' es r) :
    KeepsAfter rely duty past x goal' :=
  Keeps.mono h (fun _ _ h => h) fun _ _ => hg _ _

/-- What a program keeps from its own start it keeps after any events. -/
theorem Keeps.after {x : Program α} {goal : List Event → Except Fault α → Prop}
    (h : Keeps rely x (fun es => duty (past++es)) goal) :
    KeepsAfter rely duty past x fun es r => ∃ fs, es = past++fs ∧ goal fs r :=
  Keeps.mono h (fun _ _ h => h) fun es _ h => ⟨es,rfl,h⟩

theorem keepsAfter_append_iff {x : Program α} {goal : List Event → Except Fault α → Prop}
    (es : List Event) : KeepsAfter rely duty (past++es) x goal ↔
      Keeps rely x (fun fs => duty (past++(es++fs))) fun fs => goal (past++(es++fs)) := by
  simp only [KeepsAfter,List.append_assoc]

theorem KeepsAfter.step {x y : Program α} {goal : List Event → Except Fault α → Prop} {e : Event}
    (h : KeepsAfter rely duty past x goal) (hs : Step x e y) (hr : rely e) :
    KeepsAfter rely duty (past++[e]) y goal :=
  (keepsAfter_append_iff [e]).mpr (Keeps.step h hs hr)

theorem keepsAfter_done {a : α} {goal : List Event → Except Fault α → Prop}
    (h : goal past (.ok a)) : KeepsAfter rely duty past (.done a) goal := by
  change goal (past++[]) _
  rwa [List.append_nil]

theorem keepsAfter_fail {f : Fault} {goal : List Event → Except Fault α → Prop}
    (h : goal past (.error f)) : KeepsAfter rely duty past (.fail f) goal := by
  change goal (past++[]) _
  rwa [List.append_nil]

theorem keepsAfter_ofExcept {r : Except Fault α} {goal : List Event → Except Fault α → Prop}
    (h : goal past r) : KeepsAfter rely duty past (ofExcept r) goal := by
  cases r with
  | ok a => exact keepsAfter_done h
  | error f => exact keepsAfter_fail h

theorem KeepsAfter.bind {x : Program α} {f : α → Program β}
    {mid : List Event → Except Fault α → Prop} {goal : List Event → Except Fault β → Prop}
    (hx : KeepsAfter rely duty past x mid)
    (hf : ∀ es a, mid es (.ok a) → KeepsAfter rely duty es (f a) goal)
    (he : ∀ es e, mid es (.error e) → goal es (.error e)) :
    KeepsAfter rely duty past (x >>= f) goal := by
  refine (keeps_bind_iff x f _).mpr (Keeps.mono hx (fun _ _ h => h) ?_)
  intro es r hr
  cases r with
  | error e => exact he _ e hr
  | ok a => exact (keepsAfter_append_iff es).mp (hf _ a hr)

theorem KeepsAfter.attempt_bind {x : Program α} {f : Except Fault α → Program β}
    {mid : List Event → Except Fault α → Prop} {goal : List Event → Except Fault β → Prop}
    (hx : KeepsAfter rely duty past x mid)
    (hf : ∀ es r, mid es r → KeepsAfter rely duty es (f r) goal) :
    KeepsAfter rely duty past (attempt x >>= f) goal := by
  have hx' : KeepsAfter rely duty past (attempt x) fun es r => ∃ r', r = .ok r' ∧ mid es r' :=
    (keeps_attempt_iff x _).mpr (Keeps.mono hx (fun _ _ h => h) fun es r h => ⟨r,rfl,h⟩)
  refine hx'.bind ?_ ?_
  · rintro es r ⟨r',hr,h⟩
    rw [Except.ok.inj hr]
    exact hf es r' h
  · rintro es e ⟨r',hr,-⟩
    cases hr

theorem keepsAfter_ofExcept_bind {r : Except Fault α} {f : α → Program β}
    {goal : List Event → Except Fault β → Prop}
    (h : ∀ a, r = .ok a → KeepsAfter rely duty past (f a) goal)
    (he : ∀ e, r = .error e → goal past (.error e)) :
    KeepsAfter rely duty past (ofExcept r >>= f) goal := by
  cases r with
  | ok a => exact h a rfl
  | error e => exact keepsAfter_fail (he e rfl)

theorem keepsAfter_report_bind {ns : List Notice} {f : Unit → Program β}
    {goal : List Event → Except Fault β → Prop}
    (h : KeepsAfter rely duty (past++ns.map .said) (f ()) goal) :
    KeepsAfter rely duty past (report ns >>= f) goal := by
  apply (keeps_bind_iff _ f _).mpr
  rw [keeps_report_iff]
  exact (keepsAfter_append_iff _).mp h

theorem keepsAfter_say {n : Notice} {x : Program α} {goal : List Event → Except Fault α → Prop}
    (h : KeepsAfter rely duty (past++[.said n]) x goal) :
    KeepsAfter rely duty past (.say n x) goal :=
  (keepsAfter_append_iff [.said n]).mp h

theorem keepsAfter_now_bind {f : Moment → Program β} {goal : List Event → Except Fault β → Prop}
    (h : ∀ m, rely (.read (.ok m)) → KeepsAfter rely duty (past++[.read (.ok m)]) (f m) goal)
    (he : ∀ e, rely (.read (.error e)) → goal (past++[.read (.error e)]) (.error e)) :
    KeepsAfter rely duty past (now >>= f) goal := by
  intro t ht
  cases t with
  | ok m => exact (keepsAfter_append_iff [.read (.ok m)]).mp (h m ht)
  | error e => exact he e ht

theorem keepsAfter_poll {k : Bool → Program α} {goal : List Event → Except Fault α → Prop}
    (h : ∀ b, KeepsAfter rely duty (past++[.polled b]) (k b) goal) :
    KeepsAfter rely duty past (.poll k) goal :=
  fun b => (keepsAfter_append_iff [.polled b]).mp (h b)

theorem keepsAfter_ask {c : Call} {k : Except Fault c.Answer → Program α}
    {goal : List Event → Except Fault α → Prop} (hd : duty past c)
    (h : ∀ r, rely (.asked c r) → KeepsAfter rely duty (past++[.asked c r]) (k r) goal) :
    KeepsAfter rely duty past (.ask c k) goal := by
  refine ⟨?_,fun r hr => (keepsAfter_append_iff [.asked c r]).mp (h r hr)⟩
  change duty (past++[]) c
  rwa [List.append_nil]

end KeepsAfter

end Program
end HealthRollup
