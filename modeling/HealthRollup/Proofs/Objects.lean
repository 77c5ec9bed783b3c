import HealthRollup.Proofs.Paths
import HealthRollup.Value.Merge

/-! The objects that a platform holds, and what an exchange may do to them. A listing names every object
of a kind once, a patch that succeeds is merged into the object it names, and whatever else happens, a
failed request too, leaves all objects as they are. Others may move the objects between two exchanges. -/
namespace HealthRollup

/-- At most one object of a kind under a name. -/
abbrev Objects := Kind → String → Option Value

namespace Objects

def put (k : Kind) (n : String) (v : Value) (o : Objects) : Objects :=
  fun j m => if j = k ∧ m = n then some v else o j m

@[simp] theorem put_self (k : Kind) (n : String) (v : Value) (o : Objects) : put k n v o k n = some v := by
  simp [put]
theorem put_of_ne (j k : Kind) (m n : String) (v : Value) (o : Objects) (h : ¬ (j = k ∧ m = n)) :
    put k n v o j m = o j m := by
  simp [put,h]

/-- The values are the objects of the kind, each once. -/
def Lists (o : Objects) (k : Kind) (vs : List Value) : Prop :=
  ∃ names : List String, names.Nodup ∧ (∀ n, n ∈ names ↔ (o k n).isSome) ∧
    names.map (o k) = vs.map some

/-- The object at a place of a listing, with its name at the same place of the names. -/
theorem Lists.getElem? {o : Objects} {k : Kind} {vs : List Value} {names : List String}
    (h : names.map (o k) = vs.map some) {i : Nat} {v : Value} (hv : vs[i]? = some v) :
    ∃ n, names[i]? = some n ∧ o k n = some v := by
  have hi := congrArg (fun l => l[i]?) h
  simp only [List.getElem?_map,hv,Option.map_some] at hi
  obtain ⟨n,hn,hnv⟩ := Option.map_eq_some_iff.mp hi
  exact ⟨n,hn,hnv⟩

theorem Lists.stored {o : Objects} {k : Kind} {vs : List Value} (h : o.Lists k vs) {v : Value}
    (hv : v ∈ vs) : ∃ n, o k n = some v := by
  obtain ⟨names,-,-,hmap⟩ := h
  obtain ⟨i,hi⟩ := List.getElem?_of_mem hv
  obtain ⟨n,-,hn⟩ := Lists.getElem? hmap hi
  exact ⟨n,hn⟩

/-- What the objects are after an event. -/
def Meets (o : Objects) : Event → Objects → Prop
  | .asked (.list k) (.ok vs), o' => o' = o ∧ o.Lists k vs
  | .asked (.get k n) (.ok v), o' => o' = o ∧ o k n = some v
  | .asked (.patch k n b) (.ok _), o' => ∃ v, o k n = some v ∧ o' = o.put k n (v.merge b)
  | _, o' => o' = o

/-- From the first objects to the last along a path, with a move of others before each event. -/
inductive Follows (moves : Objects → Objects → Prop) : Objects → List Event → Objects → Prop
  | nil (o : Objects) : Follows moves o [] o
  | cons (o o₁ o₂ o' : Objects) (e : Event) (es : List Event) (hm : moves o o₁) (he : o₁.Meets e o₂)
      (rest : Follows moves o₂ es o') : Follows moves o (e::es) o'

variable {moves : Objects → Objects → Prop}

theorem follows_append_iff (o o' : Objects) (es fs : List Event) :
    Follows moves o (es++fs) o' ↔ ∃ o₁, Follows moves o es o₁ ∧ Follows moves o₁ fs o' := by
  induction es generalizing o with
  | nil =>
    constructor
    · exact fun h => ⟨o,.nil o,h⟩
    · rintro ⟨o₁,h₁,h₂⟩
      cases h₁
      exact h₂
  | cons e es ih =>
    constructor
    · intro h
      cases h with
      | cons _ o₁ o₂ _ _ _ hm he rest =>
        obtain ⟨o₃,h₁,h₂⟩ := (ih o₂).mp rest
        exact ⟨o₃,.cons _ _ _ _ _ _ hm he h₁,h₂⟩
    · rintro ⟨o₃,h₁,h₂⟩
      cases h₁ with
      | cons _ o₁ o₂ _ _ _ hm he rest =>
        exact .cons _ _ _ _ _ _ hm he ((ih o₂).mpr ⟨o₃,rest,h₂⟩)

/-- What moves and events keep, a path keeps. -/
theorem Follows.keeps {I : Objects → Prop} {o o' : Objects} {es : List Event}
    (h : Follows moves o es o') (hmove : ∀ o o', moves o o' → I o → I o')
    (hevent : ∀ e ∈ es, ∀ o o', o.Meets e o' → I o → I o') (ho : I o) : I o' := by
  induction h with
  | nil o => exact ho
  | cons o o₁ o₂ o' e es hm he rest ih =>
    have h₁ := hmove o o₁ hm ho
    have h₂ := hevent e List.mem_cons_self o₁ o₂ he h₁
    exact ih (fun e he => hevent e (List.mem_cons_of_mem _ he)) h₂

end Objects

namespace Event

theorem meets_of_not_isPatched {e : Event} (h : ¬ e.IsPatched) {o o' : Objects} (hm : o.Meets e o') :
    o' = o := by
  cases e with
  | said | read | polled => exact hm
  | asked c r =>
    cases r with
    | error f => cases c <;> exact hm
    | ok a =>
      cases c with
      | list k => exact hm.1
      | get k n => exact hm.1
      | patch k n b => exact absurd trivial h

end Event

namespace Objects

theorem Follows.eq_of_quiet {o o' : Objects} {es : List Event} (h : Follows Eq o es o')
    (hq : ∀ e ∈ es, ¬ e.IsPatched) : o' = o :=
  h.keeps (I := (· = o)) (fun _ _ hm ho => hm ▸ ho)
    (fun e he _ _ hm ho => (Event.meets_of_not_isPatched (hq e he) hm).trans ho) rfl

theorem Follows.answered {o o' : Objects} {es : List Event} (h : Follows Eq o es o')
    (hq : ∀ e ∈ es, ¬ e.IsPatched) : ∀ e ∈ es, o.Meets e o := by
  induction h with
  | nil o => simp
  | cons o o₁ o₂ o' e es hm he rest ih =>
    subst hm
    have hsame : o₂ = o := Event.meets_of_not_isPatched (hq e List.mem_cons_self) he
    subst hsame
    intro e' he'
    rcases List.mem_cons.mp he' with rfl | he'
    · exact he
    · exact ih (fun e he => hq e (List.mem_cons_of_mem _ he)) e' he'

/-- Where nobody else moves the objects and nothing is patched, what was read was there from the start. -/
theorem Follows.stored_of_read {o o' : Objects} {es : List Event} (h : Follows Eq o es o')
    (hq : ∀ e ∈ es, ¬ e.IsPatched) {n : String} {v : Value}
    (hm : (n,.ok v) ∈ es.filterMap Event.componentRead?) : o .components n = some v := by
  have hmeets := h.answered hq _ (Event.asked_of_componentRead? hm)
  exact hmeets.2

end Objects

/-- The platform serves its requests from the objects in view, each at one moment. -/
structure Platform.Faithful {σ : Type} (p : Platform σ) (view : σ → Objects)
    (moves : Objects → Objects → Prop) : Prop where
  still : ∀ o, moves o o
  answer : ∀ c s, ∃ o, moves (view s) o ∧ o.Meets (.asked c (p.answer c s).1) (view (p.answer c s).2)
  clock : ∀ s, moves (view s) (view (p.clock s).2)

theorem Platform.Faithful.of_eq {σ : Type} {p : Platform σ} {view : σ → Objects}
    {moves : Objects → Objects → Prop} (h : p.Faithful view Eq) (hm : ∀ o, moves o o) :
    p.Faithful view moves where
  still := hm
  answer c s := by
    obtain ⟨o,rfl,he⟩ := h.answer c s
    exact ⟨view s,hm _,he⟩
  clock s := by
    rw [← h.clock s]
    exact hm _

theorem Program.meets_advance {σ α : Type} {p : Platform σ} {view : σ → Objects}
    (hp : p.Faithful view Eq) {x : Program α} {s : σ} {e : Event} (h : event? p x s = some e) :
    (view s).Meets e (view (advance p x s).2) := by
  cases x with
  | done a => cases h
  | fail f => cases h
  | say n x =>
    have he : .said n = e := Option.some.inj h
    subst he
    exact rfl
  | clock k =>
    have he : .read (p.clock s).1 = e := Option.some.inj h
    subst he
    exact (hp.clock s).symm
  | poll k =>
    have he : .polled (p.isStopping s) = e := Option.some.inj h
    subst he
    exact rfl
  | ask c k =>
    have he : .asked c (p.answer c s).1 = e := Option.some.inj h
    subst he
    obtain ⟨o,rfl,hm⟩ := hp.answer c s
    exact hm

theorem Program.follows_run {σ α : Type} {p : Platform σ} {view : σ → Objects}
    {moves : Objects → Objects → Prop} (hp : p.Faithful view moves) (x : Program α) (s : σ) :
    Objects.Follows moves (view s) (events p x s) (view (run p x s).state) := by
  induction x generalizing s with
  | done a => exact .nil _
  | fail f => exact .nil _
  | say n x ih => exact .cons _ _ _ _ _ _ (hp.still _) rfl (ih s)
  | clock k ih => exact .cons _ _ _ _ _ _ (hp.clock s) rfl (ih _ _)
  | poll k ih => exact .cons _ _ _ _ _ _ (hp.still _) rfl (ih _ _)
  | ask c k ih =>
    obtain ⟨o,hm,he⟩ := hp.answer c s
    exact .cons _ _ _ _ _ _ hm he (ih _ _)

end HealthRollup
