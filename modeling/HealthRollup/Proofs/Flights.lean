import HealthRollup.Proofs.Shelf
import HealthRollup.Query.InFlight
import Mathlib.Data.List.Induction

/-! Flights. A move touches one flight at most: its worker, its post or its future. So every flight goes
its own way, whatever the others and the writers do in between: its request is answered at one moment, the
text that this leads to is posted once, and the post finds the future as it was or cancelled. -/
namespace HealthRollup

namespace Query
open Program

/-- What is left of an evaluation after its request. -/
def reply (name : String) : Except Fault Value → Program String
  | .error f => answerFault name f.isRequest f.message f
  | .ok raw =>
    match Scope.ofValue raw with
    | .ok scope => .done (ScopeStatus.verdict scope.status)
    | .error f => answerFault name (isShape f) ("invalid health scope " ++ name ++ ": " ++ f.message) f

theorem evaluate_eq (name : String) : evaluate name = .ask (.get .scopes name) (reply name) := by
  refine congrArg (Program.ask (.get .scopes name)) (funext fun r => ?_)
  cases r <;> rfl

/-- Nothing is left but notices, and the text after them. -/
inductive Tells (text : String) : Program String → Prop
  | done : Tells text (.done text)
  | say (n : Notice) (x : Program String) (h : Tells text x) : Tells text (.say n x)

theorem tells_answerFault (name : String) (foreseen : Bool) (reason : String) (f : Fault) :
    ∃ text, Tells text (answerFault name foreseen reason f) := by
  cases foreseen with
  | true => exact ⟨reason,.say _ _ .done⟩
  | false => exact ⟨f.shown,.say _ _ .done⟩

theorem tells_reply (name : String) (r : Except Fault Value) : ∃ text, Tells text (reply name r) := by
  cases r with
  | error f => exact tells_answerFault name _ _ f
  | ok raw =>
    cases hread : Scope.ofValue raw with
    | ok scope => exact ⟨ScopeStatus.verdict scope.status,by simpa only [reply,hread] using .done⟩
    | error f =>
      simp only [reply,hread]
      exact tells_answerFault name _ _ f

theorem Tells.run {σ : Type} {text : String} {x : Program String} (h : Tells text x) (p : Platform σ)
    (s : σ) : (Program.run p x s).result = .ok text := by
  induction h with
  | done => rfl
  | say n x h ih => exact ih

end Query

/-- Not set; it may have been cancelled. -/
def Future.IsUnset (f : Future) : Prop := ∀ text, f ≠ .answered text

theorem Future.IsUnset.cancel {f : Future} (h : f.IsUnset) : f.cancel.IsUnset := by
  cases f with
  | waiting | cancelled => simp [IsUnset,Future.cancel]
  | answered text => exact absurd rfl (h text)

namespace InFlight
open Program Query
variable {σ : Type} {p : Platform σ} {d : InFlight σ} {i : Nat} {f f' : Flight} {m : Move σ}

def postsOf (i : Nat) (d : InFlight σ) : List String :=
  d.posts.filterMap fun q => if q.1 = i then some q.2 else none

/-- All that a move can do to a flight and its posts. -/
inductive Moved (p : Platform σ) (d : InFlight σ) (i : Nat) (f : Flight) :
    Move σ → Flight → List String → Prop
  | still (m : Move σ) : Moved p d i f m f (d.postsOf i)
  | worked (x : Program String) (hw : f.worker = some x) (hx : ∀ text, x ≠ .done text) :
      Moved p d i f (.work i) { f with worker := some (advance p x d.state).1 } (d.postsOf i)
  | posted (text : String) (hw : f.worker = some (.done text)) :
      Moved p d i f (.work i) { f with worker := none } (d.postsOf i++[text])
  | delivered (text : String) (rest : List (Nat × String)) (posts : List String)
      (hd : d.posts = (i,text)::rest) (hp : d.postsOf i = text::posts) :
      Moved p d i f .deliver { f with future := f.future.answer text } posts
  | cancelled : Moved p d i f (.cancel i) { f with future := f.future.cancel } (d.postsOf i)

theorem work_of_idle (h : ∀ f, d.flights[i]? = some f → f.worker = none) : d.work p i = d := by
  unfold work
  split
  · rename_i hf
    cases h _ hf
  · rename_i hf
    cases h _ hf
  · rfl

theorem work_of_done {text : String} (h : d.flights[i]? = some f) (hw : f.worker = some (.done text)) :
    d.work p i = ⟨d.state,d.flights.modify i fun f => { f with worker := none },d.posts++[(i,text)]⟩ := by
  obtain ⟨name,worker,future⟩ := f
  have hworker : worker = some (.done text) := hw
  subst hworker
  simp only [work,h]

theorem work_of_not_done {x : Program String} (h : d.flights[i]? = some f) (hw : f.worker = some x)
    (hx : ∀ text, x ≠ .done text) : d.work p i = ⟨(advance p x d.state).2,
      d.flights.modify i fun f => { f with worker := some (advance p x d.state).1 },d.posts⟩ := by
  obtain ⟨name,worker,future⟩ := f
  have hworker : worker = some x := hw
  subst hworker
  cases x with
  | done text => exact absurd rfl (hx text)
  | fail | say | clock | poll | ask => simp only [work,h]

theorem work_of_ne {j : Nat} (hj : j ≠ i) : (d.work p j).flights[i]? = d.flights[i]? ∧
    (d.work p j).postsOf i = d.postsOf i := by
  unfold work
  split
  · exact ⟨List.getElem?_modify_ne _ _ hj,by simp [postsOf,List.filterMap_append,hj]⟩
  · exact ⟨List.getElem?_modify_ne _ _ hj,rfl⟩
  · exact ⟨rfl,rfl⟩

theorem moved_work (h : d.flights[i]? = some f) (j : Nat) : ∃ f',
    (d.work p j).flights[i]? = some f' ∧ Moved p d i f (.work j) f' ((d.work p j).postsOf i) := by
  by_cases hj : j = i
  · subst hj
    cases hw : f.worker with
    | none =>
      rw [work_of_idle fun g hg => by rw [Option.some.inj (hg.symm.trans h),hw]]
      exact ⟨f,h,.still _⟩
    | some x =>
      by_cases hx : ∃ text, x = .done text
      · obtain ⟨text,rfl⟩ := hx
        rw [work_of_done h hw]
        have hposts : postsOf j ⟨d.state,d.flights.modify j fun f => { f with worker := none },
            d.posts++[(j,text)]⟩ = d.postsOf j++[text] := by
          simp [postsOf,List.filterMap_append]
        rw [hposts]
        exact ⟨_,by simp [h],.posted text hw⟩
      · have hne : ∀ text, x ≠ .done text := fun text he => hx ⟨text,he⟩
        rw [work_of_not_done h hw hne]
        exact ⟨_,by simp [h],.worked x hw hne⟩
  · obtain ⟨hflight,hposts⟩ := work_of_ne (p := p) (d := d) hj
    rw [hflight,hposts]
    exact ⟨f,h,.still _⟩

theorem deliver_of_nil (hd : d.posts = []) : d.deliver = d := by
  simp [deliver,hd]

theorem deliver_of_cons {j : Nat} {text : String} {rest : List (Nat × String)}
    (hd : d.posts = (j,text)::rest) : d.deliver =
      ⟨d.state,d.flights.modify j fun f => { f with future := f.future.answer text },rest⟩ := by
  simp [deliver,hd]

theorem postsOf_of_cons {j : Nat} {text : String} {rest : List (Nat × String)}
    (hd : d.posts = (j,text)::rest) (i : Nat) :
    d.postsOf i = if j = i then text::d.deliver.postsOf i else d.deliver.postsOf i := by
  rw [deliver_of_cons hd]
  by_cases hj : j = i <;> simp [postsOf,hd,hj]

theorem moved_deliver (h : d.flights[i]? = some f) : ∃ f',
    d.deliver.flights[i]? = some f' ∧ Moved p d i f .deliver f' (d.deliver.postsOf i) := by
  cases hd : d.posts with
  | nil =>
    rw [deliver_of_nil hd]
    exact ⟨f,h,.still _⟩
  | cons post rest =>
    obtain ⟨j,text⟩ := post
    have hposts := postsOf_of_cons hd i
    by_cases hj : j = i
    · subst hj
      rw [if_pos rfl] at hposts
      exact ⟨_,by simp [deliver_of_cons hd,h],.delivered text rest _ hd hposts⟩
    · rw [if_neg hj] at hposts
      rw [← hposts]
      exact ⟨f,by simp [deliver_of_cons hd,h,hj],.still _⟩

theorem moved_cancel (h : d.flights[i]? = some f) (j : Nat) : ∃ f',
    (d.cancel j).flights[i]? = some f' ∧ Moved p d i f (.cancel j) f' ((d.cancel j).postsOf i) := by
  by_cases hj : j = i
  · subst hj
    exact ⟨_,by simp [cancel,h],.cancelled⟩
  · exact ⟨f,by simp [cancel,h,hj],.still _⟩

theorem moved (h : d.flights[i]? = some f) (m : Move σ) : ∃ f',
    (d.move p m).flights[i]? = some f' ∧ Moved p d i f m f' ((d.move p m).postsOf i) := by
  cases m with
  | start name =>
    have hi : i < d.flights.length := (List.getElem?_eq_some_iff.mp h).1
    refine ⟨f,?_,.still _⟩
    change (d.flights++_)[i]? = some f
    rw [List.getElem?_append_left hi,h]
  | work j => exact moved_work h j
  | deliver => exact moved_deliver h
  | cancel j => exact moved_cancel h j
  | write s => exact ⟨f,h,.still _⟩

/-- All that a move can do where there is no flight yet. -/
theorem moved_none (h : d.flights[i]? = none) (hp : d.postsOf i = []) (m : Move σ) :
    (d.move p m).postsOf i = [] ∧ ((d.move p m).flights[i]? = none ∨
      ∃ name, (d.move p m).flights[i]? = some ⟨name,some (evaluate name),.waiting⟩) := by
  cases m with
  | start name =>
    refine ⟨hp,?_⟩
    change (d.flights++_)[i]? = none ∨ ∃ _, (d.flights++_)[i]? = _
    rw [List.getElem?_append_right (List.getElem?_eq_none_iff.mp h)]
    cases hi : i-d.flights.length with
    | zero => exact .inr ⟨name,rfl⟩
    | succ k => exact .inl rfl
  | work j =>
    by_cases hj : j = i
    · subst hj
      have hsame : d.work p j = d := work_of_idle fun f hf => by
        rw [h] at hf
        cases hf
      change (d.work p j).postsOf j = [] ∧ ((d.work p j).flights[j]? = none ∨ _)
      rw [hsame]
      exact ⟨hp,.inl h⟩
    · obtain ⟨hflight,hposts⟩ := work_of_ne (p := p) (d := d) hj
      exact ⟨hposts.trans hp,.inl (hflight.trans h)⟩
  | deliver =>
    cases hd : d.posts with
    | nil =>
      change d.deliver.postsOf i = [] ∧ (d.deliver.flights[i]? = none ∨ _)
      rw [deliver_of_nil hd]
      exact ⟨hp,.inl h⟩
    | cons post rest =>
      have hposts := postsOf_of_cons hd i
      rw [hp] at hposts
      split at hposts
      · cases hposts
      · refine ⟨hposts.symm,.inl ?_⟩
        change d.deliver.flights[i]? = none
        rw [deliver_of_cons hd,List.getElem?_modify,h]
        rfl
  | cancel j =>
    refine ⟨hp,.inl ?_⟩
    change (d.flights.modify j _)[i]? = none
    rw [List.getElem?_modify,h]
    rfl
  | write s => exact ⟨hp,.inl h⟩

theorem Moved.name {posts : List String} (h : Moved p d i f m f' posts) : f'.name = f.name := by
  cases h <;> rfl

theorem Moved.worker_of_deliver {posts : List String} (h : Moved p d i f .deliver f' posts) :
    f'.worker = f.worker := by
  cases h <;> rfl

theorem Moved.future {posts : List String} (h : Moved p d i f m f' posts) :
    f'.future = f.future ∨ f.future = .waiting ∧ (m = .cancel i ∧ f'.future = .cancelled ∨
      ∃ text rest, m = .deliver ∧ d.posts = (i,text)::rest ∧ f'.future = .answered text) := by
  cases h with
  | still | worked | posted => exact .inl rfl
  | delivered text rest posts hd hp =>
    cases hf : f.future with
    | waiting => exact .inr ⟨rfl,.inr ⟨text,rest,rfl,hd,by simp⟩⟩
    | answered | cancelled => exact .inl rfl
  | cancelled =>
    cases hf : f.future with
    | waiting => exact .inr ⟨rfl,.inl ⟨rfl,rfl⟩⟩
    | answered | cancelled => exact .inl rfl

/-- How far a flight has come, with the posts for it; a text comes up only if it is a `told` one. -/
inductive Stage (told : String → Prop) : Flight → List String → Prop
  | asking (name : String) (future : Future) (hf : future.IsUnset) :
      Stage told ⟨name,some (evaluate name),future⟩ []
  | telling (name text : String) (x : Program String) (future : Future) (hx : Tells text x)
      (ht : told text) (hf : future.IsUnset) : Stage told ⟨name,some x,future⟩ []
  | posted (name text : String) (future : Future) (ht : told text) (hf : future.IsUnset) :
      Stage told ⟨name,none,future⟩ [text]
  | answered (name text : String) (ht : told text) : Stage told ⟨name,none,.answered text⟩ []
  | cancelled (name : String) : Stage told ⟨name,none,.cancelled⟩ []

theorem Stage.mono {told told' : String → Prop} {posts : List String} (h : Stage told f posts)
    (ht : ∀ text, told text → told' text) : Stage told' f posts := by
  cases h with
  | asking name future hf => exact .asking name future hf
  | telling name text x future hx h hf => exact .telling name text x future hx (ht text h) hf
  | posted name text future h hf => exact .posted name text future (ht text h) hf
  | answered name text h => exact .answered name text (ht text h)
  | cancelled name => exact .cancelled name

theorem Stage.told_of_answered {told : String → Prop} {posts : List String} {text : String}
    (h : Stage told f posts) (hf : f.future = .answered text) : told text := by
  cases h with
  | asking name future hu | telling name text' x future _ _ hu | posted name text' future _ hu =>
    exact absurd hf (hu text)
  | answered name text' ht =>
    have htext : text' = text := Future.answered.inj hf
    exact htext ▸ ht
  | cancelled name => cases hf

theorem Stage.isUnset_of_worker {told : String → Prop} {posts : List String} (h : Stage told f posts)
    (hw : f.worker ≠ none) : f.future.IsUnset := by
  cases h with
  | asking name future hf | telling name text x future _ _ hf => exact hf
  | posted | answered | cancelled => exact absurd rfl hw

theorem Stage.posts {told : String → Prop} {posts : List String} (h : Stage told f posts) :
    posts = [] ∨ ∃ text, f.worker = none ∧ posts = [text] ∧ told text := by
  cases h with
  | asking | telling | answered | cancelled => exact .inl rfl
  | posted name text future ht hf => exact .inr ⟨text,rfl,rfl,ht⟩

/-- A move takes a flight to a stage again, as long as what its request leads to may be told. -/
theorem Stage.moved {told : String → Prop} {posts : List String} (h : Stage told f (d.postsOf i))
    (hm : Moved p d i f m f' posts) (ht : m = .work i → f.worker = some (evaluate f.name) →
      ∀ text, (run p (evaluate f.name) d.state).result = .ok text → told text) :
    Stage told f' posts := by
  cases hm with
  | still => exact h
  | worked x hw hx =>
    generalize hposts : d.postsOf i = posts at h
    cases h with
    | asking name future hf =>
      obtain ⟨text,htells⟩ := tells_reply name (p.answer (.get .scopes name) d.state).1
      have hrun : (run p (evaluate name) d.state).result = .ok text := by
        rw [evaluate_eq]
        exact htells.run p _
      have hx : x = evaluate name := (Option.some.inj hw).symm
      rw [hx,evaluate_eq]
      exact .telling name text _ future htells (ht rfl rfl text hrun) hf
    | telling name text y future hy h hf =>
      have hxy : y = x := Option.some.inj hw
      subst hxy
      cases hy with
      | done => exact absurd rfl (hx text)
      | say n y hy => exact .telling name text y future hy h hf
    | posted | answered | cancelled => cases hw
  | posted text hw =>
    generalize hposts : d.postsOf i = posts at h
    cases h with
    | asking name future hf =>
      rw [evaluate_eq] at hw
      cases hw
    | telling name text' x future hx h hf =>
      have hdone : x = .done text := Option.some.inj hw
      subst hdone
      cases hx
      exact .posted name text future h hf
    | posted | answered | cancelled => cases hw
  | delivered text rest posts hd hp =>
    rw [hp] at h
    cases h with
    | posted name text future h hf =>
      cases future with
      | waiting => exact .answered name text h
      | answered text' => exact absurd rfl (hf text')
      | cancelled => exact .cancelled name
  | cancelled =>
    generalize hposts : d.postsOf i = posts at h ⊢
    cases h with
    | asking name future hf => exact .asking name _ hf.cancel
    | telling name text x future hx h hf => exact .telling name text x _ hx h hf.cancel
    | posted name text future h hf => exact .posted name text _ h hf.cancel
    | answered name text h => exact .answered name text h
    | cancelled name => exact .cancelled name

section Run
variable {s₀ : σ} {ms : List (Move σ)}

/-- In the course of these moves the flight's one request was answered, at a moment at which the evaluation
of the name gives this text. -/
def Told (p : Platform σ) (s₀ : σ) (ms : List (Move σ)) (i : Nat) (name text : String) : Prop :=
  ∃ before after future, ms = before++.work i::after ∧
    (moves p (empty s₀) before).flights[i]? = some ⟨name,some (evaluate name),future⟩ ∧
    (run p (evaluate name) (moves p (empty s₀) before).state).result = .ok text

theorem Told.append {name text : String} (h : Told p s₀ ms i name text) (m : Move σ) :
    Told p s₀ (ms++[m]) i name text := by
  obtain ⟨before,after,future,rfl,hf,hr⟩ := h
  exact ⟨before,after++[m],future,by simp,hf,hr⟩

/-- What holds after these moves of the flight of a number and the posts for it, if there is one yet. -/
def Sound (p : Platform σ) (s₀ : σ) (ms : List (Move σ)) (i : Nat) : Option Flight → List String → Prop
  | some f, posts => Stage (Told p s₀ ms i f.name) f posts
  | none, posts => posts = []

theorem moves_snoc (p : Platform σ) (d : InFlight σ) (ms : List (Move σ)) (m : Move σ) :
    moves p d (ms++[m]) = (moves p d ms).move p m := by
  rw [moves_append]
  rfl

theorem sound_moves (p : Platform σ) (s₀ : σ) (ms : List (Move σ)) (i : Nat) :
    Sound p s₀ ms i (moves p (empty s₀) ms).flights[i]? ((moves p (empty s₀) ms).postsOf i) := by
  induction ms using List.reverseRecOn with
  | nil => rfl
  | append_singleton ms m ih =>
    rw [moves_snoc]
    generalize hd : moves p (empty s₀) ms = d at ih
    cases hf : d.flights[i]? with
    | none =>
      rw [hf] at ih
      obtain ⟨hposts,hnone | ⟨name,hnew⟩⟩ := moved_none (p := p) hf ih m
      · rw [hnone]
        exact hposts
      · rw [hnew,hposts]
        exact .asking name .waiting fun text => by simp
    | some f =>
      rw [hf] at ih
      obtain ⟨f',hf',hmoved⟩ := moved (p := p) hf m
      rw [hf']
      change Stage (Told p s₀ (ms++[m]) i f'.name) f' _
      rw [hmoved.name]
      refine Stage.moved (ih.mono fun text ht => ht.append m) hmoved fun hm hw text hr => ?_
      subst hd
      refine ⟨ms,[],f.future,by rw [hm],?_,hr⟩
      rw [hf,← hw]

theorem moves_of_settled (h : d.flights[i]? = some f) (hf : f.future ≠ .waiting)
    (ms : List (Move σ)) : ∃ f', (moves p d ms).flights[i]? = some f' ∧ f'.future = f.future := by
  induction ms generalizing d f with
  | nil => exact ⟨f,h,rfl⟩
  | cons m ms ih =>
    obtain ⟨g,hg,hmoved⟩ := moved (p := p) h m
    have hfuture : g.future = f.future := by
      rcases hmoved.future with hsame | ⟨hwaiting,-⟩
      · exact hsame
      · exact absurd hwaiting hf
    obtain ⟨f',hf',hlast⟩ := ih hg (hfuture ▸ hf)
    exact ⟨f',hf',hlast.trans hfuture⟩

theorem work_of_tells {name text : String} {future : Future} {x : Program String} (hx : Tells text x)
    (h : d.flights[i]? = some ⟨name,some x,future⟩) :
    ∃ n, (moves p d (List.replicate n (.work i))).flights[i]? = some ⟨name,none,future⟩ := by
  induction hx generalizing d with
  | done =>
    refine ⟨1,?_⟩
    change (d.work p i).flights[i]? = _
    rw [work_of_done h rfl]
    simp [h]
  | say notice x hx ih =>
    have hnext : (d.work p i).flights[i]? = some ⟨name,some x,future⟩ := by
      rw [work_of_not_done h rfl (by simp)]
      simp [h,advance]
    obtain ⟨n,hn⟩ := ih hnext
    exact ⟨n+1,hn⟩

theorem work_of_stage {told : String → Prop} {posts : List String} (hs : Stage told f posts)
    (h : d.flights[i]? = some f) :
    ∃ n, (moves p d (List.replicate n (.work i))).flights[i]? = some ⟨f.name,none,f.future⟩ := by
  cases hs with
  | asking name future hf =>
    obtain ⟨text,htells⟩ := tells_reply name (p.answer (.get .scopes name) d.state).1
    have hnext : (d.work p i).flights[i]? =
        some ⟨name,some (reply name (p.answer (.get .scopes name) d.state).1),future⟩ := by
      rw [evaluate_eq] at h
      rw [work_of_not_done h rfl (by simp)]
      simp [h,advance]
    obtain ⟨n,hn⟩ := work_of_tells (p := p) htells hnext
    exact ⟨n+1,hn⟩
  | telling name text x future hx ht hf => exact work_of_tells hx h
  | posted | answered | cancelled => exact ⟨0,h⟩

theorem posts_delivered (p : Platform σ) (d : InFlight σ) :
    ∃ n, (moves p d (List.replicate n .deliver)).posts = [] := by
  generalize hposts : d.posts = posts
  induction posts generalizing d with
  | nil => exact ⟨0,hposts⟩
  | cons post rest ih =>
    have hrest : d.deliver.posts = rest := by rw [deliver_of_cons hposts]
    obtain ⟨n,hn⟩ := ih d.deliver hrest
    exact ⟨n+1,hn⟩

theorem flight_delivered (p : Platform σ) (h : d.flights[i]? = some f) (n : Nat) :
    ∃ f', (moves p d (List.replicate n .deliver)).flights[i]? = some f' ∧ f'.name = f.name ∧
      f'.worker = f.worker ∧ (f.future ≠ .cancelled → f'.future ≠ .cancelled) := by
  induction n generalizing d f with
  | zero => exact ⟨f,h,rfl,rfl,id⟩
  | succ n ih =>
    obtain ⟨g,hg,hmoved⟩ := moved_deliver (p := p) h
    obtain ⟨f',hf',hname,hworker,hfuture⟩ := ih hg
    have hopen : f.future ≠ .cancelled → g.future ≠ .cancelled := by
      intro hf
      rcases hmoved.future with hsame | ⟨-,hcancel | ⟨_,_,-,-,hset⟩⟩
      · rwa [hsame]
      · cases hcancel.1
      · rw [hset]
        simp
    exact ⟨f',hf',hname.trans hmoved.name,hworker.trans hmoved.worker_of_deliver,
      fun hf => hfuture (hopen hf)⟩

/-- A flight that waits comes to its answer by moves of its own worker and deliveries. -/
theorem exists_answered (h : (moves p (empty s₀) ms).flights[i]? = some f) (hf : f.future = .waiting) :
    ∃ n k f' text, (moves p (moves p (empty s₀) ms)
      (List.replicate n (.work i)++List.replicate k .deliver)).flights[i]? = some f' ∧
      f'.future = .answered text := by
  have hsound := sound_moves p s₀ ms i
  rw [h] at hsound
  obtain ⟨n,hn⟩ := work_of_stage (p := p) hsound h
  obtain ⟨k,hk⟩ := posts_delivered p (moves p (moves p (empty s₀) ms) (List.replicate n (.work i)))
  obtain ⟨f',hf',-,hworker,hopen⟩ := flight_delivered p hn k
  rw [← moves_append] at hk hf'
  have hend := sound_moves p s₀ (ms++(List.replicate n (.work i)++List.replicate k .deliver)) i
  rw [moves_append,hf'] at hend
  have hnone : (moves p (moves p (empty s₀) ms)
      (List.replicate n (.work i)++List.replicate k .deliver)).postsOf i = [] := by
    rw [postsOf,hk]
    rfl
  rw [hnone] at hend
  generalize hposts : ([] : List String) = posts at hend
  cases hend with
  | asking | telling => cases hworker
  | posted => cases hposts
  | answered name text ht => exact ⟨n,k,_,text,hf',rfl⟩
  | cancelled name => exact absurd rfl (hopen (by simp [hf]))

end Run

def withWorker (i : Nat) (x : Option (Program String)) (d : InFlight σ) : InFlight σ :=
  { d with flights := d.flights.modify i fun f => { f with worker := x } }

theorem modify_append_of_lt {α : Type} (g : α → α) (a : α) (xs : List α) (i : Nat)
    (h : i < xs.length) : (xs++[a]).modify i g = xs.modify i g++[a] := by
  induction xs generalizing i with
  | nil => cases h
  | cons x xs ih =>
    cases i with
    | zero => rfl
    | succ i => simp [ih i (Nat.lt_of_succ_lt_succ h)]

theorem modify_worker_future (x : Option (Program String)) (g : Future → Future) (fs : List Flight)
    (i j : Nat) :
    (fs.modify i fun f => { f with worker := x }).modify j (fun f => { f with future := g f.future }) =
      (fs.modify j fun f => { f with future := g f.future }).modify i fun f => { f with worker := x } := by
  by_cases hj : i = j
  · subst hj
    rw [List.modify_modify_eq,List.modify_modify_eq]
    rfl
  · exact List.modify_modify_ne _ _ fs hj

theorem move_withWorker {x : Option (Program String)} (h : d.flights[i]? = some f) (hm : m ≠ .work i) :
    (d.withWorker i x).move p m = (d.move p m).withWorker i x := by
  cases m with
  | start name =>
    have hi : i < d.flights.length := (List.getElem?_eq_some_iff.mp h).1
    simp only [move,start,withWorker,modify_append_of_lt _ _ _ _ hi]
  | work j =>
    have hj : i ≠ j := fun he => hm (by rw [he])
    have hsame : (d.withWorker i x).flights[j]? = d.flights[j]? := List.getElem?_modify_ne _ _ hj
    simp only [move]
    unfold work
    rw [hsame]
    split
    · exact congrArg (InFlight.mk d.state · _) (List.modify_modify_ne _ _ d.flights hj)
    · exact congrArg (InFlight.mk _ · d.posts) (List.modify_modify_ne _ _ d.flights hj)
    · rfl
  | deliver =>
    change (d.withWorker i x).deliver = d.deliver.withWorker i x
    cases hd : d.posts with
    | nil => rw [deliver_of_nil hd,deliver_of_nil (d := d.withWorker i x) hd]
    | cons post rest =>
      rw [deliver_of_cons hd,deliver_of_cons (d := d.withWorker i x) hd]
      exact congrArg (InFlight.mk d.state · rest)
        (modify_worker_future x (Future.answer post.2) d.flights i post.1)
  | cancel j =>
    exact congrArg (InFlight.mk d.state · d.posts) (modify_worker_future x Future.cancel d.flights i j)
  | write s => rfl

theorem moves_withWorker {x : Option (Program String)} (h : d.flights[i]? = some f)
    (ms : List (Move σ)) (hms : Move.work i ∉ ms) :
    moves p (d.withWorker i x) ms = (moves p d ms).withWorker i x := by
  induction ms generalizing d f with
  | nil => rfl
  | cons m ms ih =>
    obtain ⟨g,hg,-⟩ := moved (p := p) h m
    have hm : m ≠ .work i := fun he => hms (by simp [he])
    rw [moves_cons,moves_cons,move_withWorker h hm]
    exact ih hg fun hmem => hms (List.mem_cons_of_mem _ hmem)

def Move.started? : Move σ → Option String
  | .start name => some name
  | _ => none

theorem map_name_modify (fs : List Flight) (i : Nat) (g : Flight → Flight)
    (hg : ∀ f, (g f).name = f.name) : (fs.modify i g).map Flight.name = fs.map Flight.name := by
  induction fs generalizing i with
  | nil => cases i <;> rfl
  | cons f fs ih =>
    cases i with
    | zero => simp [hg]
    | succ i => simp [ih i]

theorem names_move (p : Platform σ) (d : InFlight σ) (m : Move σ) :
    (d.move p m).flights.map Flight.name = d.flights.map Flight.name++m.started?.toList := by
  cases m with
  | start name => exact List.map_append
  | work j =>
    change (d.work p j).flights.map Flight.name = _++[]
    rw [List.append_nil]
    unfold work
    split
    · exact map_name_modify _ _ _ fun _ => rfl
    · exact map_name_modify _ _ _ fun _ => rfl
    · rfl
  | deliver =>
    change d.deliver.flights.map Flight.name = _++[]
    rw [List.append_nil]
    unfold deliver
    split
    · rfl
    · exact map_name_modify _ _ _ fun _ => rfl
  | cancel j =>
    change (d.cancel j).flights.map Flight.name = _++[]
    rw [List.append_nil]
    exact map_name_modify _ _ _ fun _ => rfl
  | write s => simp [move,Move.started?]

theorem names_moves (p : Platform σ) (d : InFlight σ) (ms : List (Move σ)) :
    (moves p d ms).flights.map Flight.name = d.flights.map Flight.name++ms.filterMap Move.started? := by
  induction ms generalizing d with
  | nil => simp
  | cons m ms ih =>
    rw [moves_cons,ih,names_move,List.append_assoc,List.filterMap_cons]
    cases m.started? <;> rfl

/-- What holds of the queries in flight after these moves. The flights have the names of their queries. An
answered one has the text that the evaluation of its own name gave at the moment of its one request, when
it was in flight and waited; at most one post waits for a flight, with its own text, and its worker is
through. A future changes only where it waits, by being cancelled or by the post for its own flight, and
never again. A flight that waits comes to its answer by moves of its own worker and deliveries alone, and
no move but its own depends on where its worker stands, be it at a request that is never answered. -/
structure Separate (p : Platform σ) (s₀ : σ) (ms : List (Move σ)) (d : InFlight σ) : Prop where
  names : d.flights.map Flight.name = ms.filterMap Move.started?
  answered : ∀ (i : Nat) (f : Flight) text, d.flights[i]? = some f → f.future = .answered text →
    ∃ before after, ms = before++.work i::after ∧
    (moves p (empty s₀) before).flights[i]? = some ⟨f.name,some (evaluate f.name),.waiting⟩ ∧
    (run p (evaluate f.name) (moves p (empty s₀) before).state).result = .ok text
  posts : ∀ i, d.postsOf i = [] ∨ ∃ f text, d.flights[i]? = some f ∧ f.worker = none ∧
    d.postsOf i = [text] ∧ Told p s₀ ms i f.name text
  changes : ∀ (i : Nat) (f : Flight) m, d.flights[i]? = some f → ∃ f', (d.move p m).flights[i]? = some f' ∧
    (f'.future = f.future ∨ f.future = .waiting ∧ (m = .cancel i ∧ f'.future = .cancelled ∨
      ∃ text rest, m = .deliver ∧ d.posts = (i,text)::rest ∧ f'.future = .answered text))
  settled : ∀ (i : Nat) (f : Flight) later, d.flights[i]? = some f → f.future ≠ .waiting →
    ∃ f', (moves p d later).flights[i]? = some f' ∧ f'.future = f.future
  comes : ∀ (i : Nat) (f : Flight), d.flights[i]? = some f → f.future = .waiting → ∃ n k f' text,
    (moves p d (List.replicate n (.work i)++List.replicate k .deliver)).flights[i]? = some f' ∧
    f'.future = .answered text
  stalled : ∀ (i : Nat) (f : Flight) x later, d.flights[i]? = some f → Move.work i ∉ later →
    moves p (d.withWorker i x) later = (moves p d later).withWorker i x

/-- Whatever the order of the moves, with however many queries, cancellations and writes among them, the
queries keep apart. -/
theorem queries_keep_apart (p : Platform σ) (s₀ : σ) (ms : List (Move σ)) :
    Separate p s₀ ms (moves p (empty s₀) ms) where
  names := names_moves p (empty s₀) ms
  answered i f text hf htext := by
    have hsound := sound_moves p s₀ ms i
    rw [hf] at hsound
    obtain ⟨before,after,future,rfl,hflight,hr⟩ := Stage.told_of_answered hsound htext
    refine ⟨before,after,rfl,?_,hr⟩
    have hbefore := sound_moves p s₀ before i
    rw [hflight] at hbefore
    have hunset : future.IsUnset := Stage.isUnset_of_worker hbefore (by simp)
    cases future with
    | waiting => exact hflight
    | answered text' => exact absurd rfl (hunset text')
    | cancelled =>
      obtain ⟨f',hf',hcancelled⟩ := moves_of_settled (p := p) hflight (by simp) (.work i::after)
      rw [← moves_append,hf] at hf'
      rw [← Option.some.inj hf',htext] at hcancelled
      cases hcancelled
  posts i := by
    have hsound := sound_moves p s₀ ms i
    cases hf : (moves p (empty s₀) ms).flights[i]? with
    | none =>
      rw [hf] at hsound
      exact .inl hsound
    | some f =>
      rw [hf] at hsound
      rcases Stage.posts hsound with hnone | ⟨text,hworker,hposts,ht⟩
      · exact .inl hnone
      · exact .inr ⟨f,text,rfl,hworker,hposts,ht⟩
  changes i f m hf := by
    obtain ⟨f',hf',hmoved⟩ := moved (p := p) hf m
    exact ⟨f',hf',hmoved.future⟩
  settled i f later hf hsettled := moves_of_settled hf hsettled later
  comes i f hf hwaiting := exists_answered hf hwaiting
  stalled i f x later hf hlater := moves_withWorker hf later hlater

/-- Two queries for the shop, with a change of its status between their requests, and a third that is
cancelled when its answer is posted. -/
def shopMoves : List (Move Shelf) :=
  [.start "shop",.start "shop",.start "shop",.work 0,.work 2,.work 2,
    .write ⟨Shelf.stocked (Shelf.shop Shelf.probeSpec
      [("components",Shelf.parts (.text "degraded") .null)]),[]⟩,
    .work 1,.work 1,.work 0,.cancel 2,.deliver,.deliver,.deliver]

def shopOpen : Shelf :=
  ⟨Shelf.stocked (Shelf.shop Shelf.probeSpec [("components",Shelf.parts .null .null)]),[]⟩

theorem queries_keep_apart_shop :
    let d := moves Shelf.platform (empty shopOpen) shopMoves
    d.flights.map Flight.future = [.answered "healthy",.answered "unhealthy",.cancelled] ∧
    (∃ before after, shopMoves = before++.work 1::after ∧
      (run Shelf.platform (evaluate "shop") (moves Shelf.platform (empty shopOpen) before).state).result =
        .ok "unhealthy") ∧
    ∀ later, ∃ f, (moves Shelf.platform d later).flights[2]? = some f ∧ f.future = .cancelled := by
  intro d
  have hapart := queries_keep_apart Shelf.platform shopOpen shopMoves
  have hsecond : d.flights[1]? = some ⟨"shop",none,.answered "unhealthy"⟩ := rfl
  have hthird : d.flights[2]? = some ⟨"shop",none,.cancelled⟩ := rfl
  refine ⟨rfl,?_,fun later => hapart.settled 2 _ later hthird (by simp)⟩
  obtain ⟨before,after,hms,-,hr⟩ := hapart.answered 1 _ "unhealthy" hsecond rfl
  exact ⟨before,after,hms,hr⟩

end InFlight
end HealthRollup
