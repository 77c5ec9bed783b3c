import HealthRollup.Proofs.WriteBack
import HealthRollup.Pass

/-! The turns of a pass. The scopes of the listing have their turns one after the other, each in the state
that the one before left, and a pass does nothing to the objects but write back in a turn. -/
namespace HealthRollup
namespace Pass
open Program Aggregation

theorem item_of_read {standard raw : Value} {scope : Scope} (h : Scope.ofValue raw = .ok scope) :
    item standard raw = ofScope standard scope := by
  rw [item,h]
  rfl

theorem item_of_unread {standard raw : Value} {f : Fault} (h : Scope.ofValue raw = .error f) :
    item standard raw = .fail f := by
  rw [item,h]
  rfl

section Pass
variable {σ : Type} {p : Platform σ} {standard : Value}

def after (p : Platform σ) (standard : Value) : List Value → σ → σ
  | [], s => s
  | raw::rest, s => after p standard rest (run p (item standard raw) s).state

theorem after_append (raws rest : List Value) (s : σ) :
    after p standard (raws++rest) s = after p standard rest (after p standard raws s) := by
  induction raws generalizing s with
  | nil => rfl
  | cons raw raws ih => exact ih _

/-- The items of a pass, each with the state in which it has its turn. -/
def turns (p : Platform σ) (standard : Value) : List Value → σ → List (Value × σ)
  | [], _ => []
  | raw::rest, s => (raw,s)::turns p standard rest (run p (item standard raw) s).state

def outcome (p : Platform σ) (standard : Value) (t : Value × σ) : Outcome σ Aggregation :=
  run p (item standard t.1) t.2

theorem map_fst_turns (raws : List Value) (s : σ) : (turns p standard raws s).map Prod.fst = raws := by
  induction raws generalizing s with
  | nil => rfl
  | cons raw raws ih => exact congrArg (raw::·) (ih _)

/-- The turns of a pass, counted, with their requests and notices one after the other. -/
theorem run_items (r : Report) (raws : List Value) (s : σ) :
    run p (items standard r raws) s =
      ⟨.ok ((turns p standard raws s).foldl (fun r t => r.count (outcome p standard t).result) r),
        after p standard raws s,
        (turns p standard raws s).flatMap fun t => (outcome p standard t).calls,
        (turns p standard raws s).flatMap fun t =>
          (outcome p standard t).notices++complaint (outcome p standard t).result⟩ := by
  induction raws generalizing r s with
  | nil => rfl
  | cons raw raws ih =>
    simp only [items,bind_eq,run_andThen,run_attempt,run_report,ih,turns,after,outcome,Outcome.after,
      List.foldl_cons,List.flatMap_cons,List.nil_append,List.append_assoc]

theorem run_items_state (r : Report) (raws : List Value) (s : σ) :
    (run p (items standard r raws) s).state = after p standard raws s := by
  rw [run_items]

theorem events_items_cons (r : Report) (raw : Value) (raws : List Value) (s : σ) :
    events p (items standard r (raw::raws)) s = events p (item standard raw) s++
      ((complaint (run p (item standard raw) s).result).map .said++
        events p (items standard (r.count (run p (item standard raw) s).result) raws)
          (run p (item standard raw) s).state) := by
  simp only [items,bind_eq,events_andThen,run_attempt,events_attempt,run_report,events_report]

/-- Whatever happens in the turns and is no notice happens in the turn of some scope. -/
theorem exists_of_mem_events_items {e : Event} {r : Report} {raws : List Value} {s : σ}
    (h : e ∈ events p (items standard r raws) s) : (∃ n, e = .said n) ∨
      ∃ before raw rest, raws = before++raw::rest ∧
        e ∈ events p (item standard raw) (after p standard before s) := by
  induction raws generalizing r s with
  | nil => cases h
  | cons raw raws ih =>
    rw [events_items_cons,List.mem_append,List.mem_append] at h
    rcases h with h | h | h
    · exact .inr ⟨[],raw,raws,rfl,h⟩
    · obtain ⟨n,-,rfl⟩ := List.mem_map.mp h
      exact .inl ⟨n,rfl⟩
    · rcases ih h with hsaid | ⟨before,raw',rest,rfl,he⟩
      · exact .inl hsaid
      · exact .inr ⟨raw::before,raw',rest,rfl,he⟩

theorem mem_events_items {e : Event} {r : Report} {before rest : List Value} {raw : Value} {s : σ}
    (h : e ∈ events p (item standard raw) (after p standard before s)) :
    e ∈ events p (items standard r (before++raw::rest)) s := by
  induction before generalizing r s with
  | nil =>
    rw [List.nil_append,events_items_cons]
    exact List.mem_append_left _ h
  | cons b before ih =>
    rw [List.cons_append,events_items_cons]
    exact List.mem_append_right _ (List.mem_append_right _ (ih h))

/-- In the pass that begins in `st` the scope has its turn in state `s`. -/
structure Turn (p : Platform σ) (standard : Value) (st : σ) (raw : Value) (s : σ) : Prop where
  listed : ∃ before rest, (p.answer (.list .scopes) st).1 = .ok (before++raw::rest) ∧
    s = after p standard before (p.answer (.list .scopes) st).2

theorem events_once {st : σ} {raws : List Value} (h : (p.answer (.list .scopes) st).1 = .ok raws) :
    events p (once standard) st = .asked (.list .scopes) (.ok raws)::
      events p (items standard .empty raws) (p.answer (.list .scopes) st).2 := by
  simp [once,bind_eq,events_andThen,Program.list,events,run,run_attempt,h]

theorem events_once_of_error {st : σ} {f : Fault} (h : (p.answer (.list .scopes) st).1 = .error f) :
    events p (once standard) st = .asked (.list .scopes) (.error f)::
      if f.isRequest then [.said (.listFailed f)] else [] := by
  have hrun : run p (Program.list .scopes) st = ⟨.error f,(p.answer (.list .scopes) st).2,[.list .scopes],[]⟩ := by
    rw [run_list,h]
  have hevents : events p (Program.list .scopes) st = [.asked (.list .scopes) (.error f)] := by
    simp [Program.list,events,h]
  cases hf : f.isRequest with
  | true => simp [once,bind_eq,events_andThen,run_attempt,hrun,hevents,hf,note,events,pure_eq,run]
  | false => simp [once,bind_eq,events_andThen,run_attempt,hrun,hevents,hf,events]

theorem run_once_state {st : σ} {raws : List Value}
    (h : (p.answer (.list .scopes) st).1 = .ok raws) :
    (run p (once standard) st).state = after p standard raws (p.answer (.list .scopes) st).2 := by
  simp [once,bind_eq,run_andThen,run_attempt,h,run_items_state]

theorem run_once_of_ok {st : σ} {raws : List Value} (h : (p.answer (.list .scopes) st).1 = .ok raws) :
    run p (once standard) st =
      (run p (items standard .empty raws) (p.answer (.list .scopes) st).2).after [.list .scopes] [] := by
  simp [once,bind_eq,run_andThen,run_attempt,h]

theorem run_once_of_error {st : σ} {f : Fault} (h : (p.answer (.list .scopes) st).1 = .error f) :
    run p (once standard) st =
      if f.isRequest then ⟨.ok { Report.empty with listFailed := true },(p.answer (.list .scopes) st).2,
        [.list .scopes],[.listFailed f]⟩
      else ⟨.error f,(p.answer (.list .scopes) st).2,[.list .scopes],[]⟩ := by
  cases hf : f.isRequest <;>
    simp [once,bind_eq,run_andThen,run_attempt,h,hf,Outcome.after,pure_eq]

theorem exists_turn_of_isPatched {st : σ} {e : Event} (h : e ∈ events p (once standard) st)
    (he : e.IsPatched) : ∃ raw s, Turn p standard st raw s ∧ e ∈ events p (item standard raw) s := by
  cases hlist : (p.answer (.list .scopes) st).1 with
  | error f =>
    rw [events_once_of_error hlist] at h
    rcases List.mem_cons.mp h with rfl | h
    · exact he.elim
    · split at h
      · have hsaid : e = .said (.listFailed f) := List.mem_singleton.mp h
        subst hsaid
        exact he.elim
      · cases h
  | ok raws =>
    rw [events_once hlist] at h
    rcases List.mem_cons.mp h with rfl | h
    · exact he.elim
    · rcases exists_of_mem_events_items h with ⟨n,rfl⟩ | ⟨before,raw,rest,rfl,hm⟩
      · exact he.elim
      · exact ⟨raw,_,⟨before,rest,hlist,rfl⟩,hm⟩

theorem Turn.mem_events {st s : σ} {raw : Value} (h : Turn p standard st raw s) {e : Event}
    (he : e ∈ events p (item standard raw) s) : e ∈ events p (once standard) st := by
  obtain ⟨before,rest,hlist,rfl⟩ := h.listed
  rw [events_once hlist]
  exact List.mem_cons_of_mem _ (mem_events_items he)

theorem patched_of_item {raw : Value} {s : σ} {e : Event} (h : e ∈ events p (item standard raw) s)
    (he : e.IsPatched) : ∃ scope status w, Scope.ofValue raw = .ok scope ∧
      e = .asked (patchOf scope status) (.ok w) ∧
      (run p (item standard raw) s).result = .ok (.written (updated scope status)) := by
  cases hread : Scope.ofValue raw with
  | error f =>
    rw [item_of_unread hread] at h
    cases h
  | ok scope =>
    rw [item_of_read hread] at h ⊢
    obtain ⟨status,w,hw,hr⟩ := (course_of_run p standard scope s).patched h he
    exact ⟨scope,status,w,rfl,hw,hr⟩

section View
variable {view : σ → Objects} {moves : Objects → Objects → Prop} (hp : p.Faithful view moves)
include hp

theorem lists_of_answer {st : σ} {raws : List Value}
    (h : (p.answer (.list .scopes) st).1 = .ok raws) :
    moves (view st) (view (p.answer (.list .scopes) st).2) ∧
      (view (p.answer (.list .scopes) st).2).Lists .scopes raws := by
  obtain ⟨o,ho,hm⟩ := hp.answer (.list .scopes) st
  rw [h] at hm
  obtain ⟨he,hl⟩ := hm
  rw [he]
  exact ⟨ho,hl⟩

theorem after_keeps {I : Objects → Prop} (hmove : ∀ o o', moves o o' → I o → I o') (raws : List Value)
    (hevent : ∀ raw ∈ raws, ∀ s, ∀ e ∈ events p (item standard raw) s, ∀ o o', o.Meets e o' → I o → I o')
    (s : σ) (h : I (view s)) : I (view (after p standard raws s)) := by
  induction raws generalizing s with
  | nil => exact h
  | cons raw raws ih =>
    refine ih (fun raw hm => hevent raw (List.mem_cons_of_mem _ hm)) _ ?_
    exact (follows_run hp (item standard raw) s).keeps hmove (hevent raw List.mem_cons_self s) h

end View

end Pass

end Pass
end HealthRollup
