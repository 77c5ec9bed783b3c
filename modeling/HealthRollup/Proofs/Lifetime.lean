import HealthRollup.Loop
import HealthRollup.Proofs.Accounting
import HealthRollup.Rehearsal.World

/-! The life of a loop. It is told to stop and made to run again any number of times; all the while it
makes passes and nothing else, whatever becomes of them, and its count, which is never above nine, tells
when ten more have been made. -/
namespace HealthRollup

namespace Notice

/-- What the loop says of itself, as against what it says of a pass. -/
def isMark : Notice → Bool
  | .passBroke _ | .loopStarted _ | .loopStopped | .heartbeat => true
  | _ => false

/-- The fault that ended a pass, where that is what is reported. -/
def brokenBy? : Notice → Option Fault
  | .passBroke f => some f
  | _ => none

def isHeartbeat : Notice → Bool
  | .heartbeat => true
  | _ => false

theorem isMark_of_source {n : Notice} (h : n.source ≠ .loop) : n.isMark = false := by
  cases n <;> first | rfl | exact absurd rfl h

theorem brokenBy?_of_not_isMark {n : Notice} (h : n.isMark = false) : n.brokenBy? = none := by
  cases n <;> first | rfl | cases h

theorem isHeartbeat_of_not_isMark {n : Notice} (h : n.isMark = false) : n.isHeartbeat = false := by
  cases n <;> first | rfl | cases h

end Notice

def Call.isListing : Call → Bool
  | .list _ => true
  | _ => false

def Outcome.fault? {σ α : Type} (o : Outcome σ α) : Option Fault :=
  match o.result with
  | .ok _ => none
  | .error f => some f

namespace Pass
open Program Aggregation
variable {σ : Type} {p : Platform σ} {standard : Value}

theorem isMark_complaint (r : Except Fault Aggregation) : ∀ n ∈ complaint r, n.isMark = false := by
  cases r with
  | ok a => simp [complaint]
  | error f =>
    intro n hn
    rw [complaint] at hn
    split at hn
    · rw [List.mem_singleton.mp hn]
      rfl
    · rw [List.mem_singleton.mp hn]
      rfl

theorem isMark_outcome (t : Value × σ) : ∀ n ∈ (outcome p standard t).notices, n.isMark = false := by
  obtain ⟨raw,s⟩ := t
  intro n hn
  cases hread : Scope.ofValue raw with
  | error f => simp [outcome,item_of_unread hread] at hn
  | ok scope =>
    rw [outcome,item_of_read hread] at hn
    have hsaid := said_of_mem_notices hn
    exact Notice.isMark_of_source ((course_of_run p standard scope s).source hsaid)

theorem isMark_once (s : σ) : ∀ n ∈ (run p (once standard) s).notices, n.isMark = false := by
  intro n hn
  cases hlist : (p.answer (.list .scopes) s).1 with
  | error f =>
    rw [run_once_of_error hlist] at hn
    split at hn
    · rw [List.mem_singleton.mp hn]
      rfl
    · cases hn
  | ok raws =>
    rw [run_once_of_ok hlist,run_items] at hn
    simp only [Outcome.after_notices,List.nil_append,List.mem_flatMap,List.mem_append] at hn
    obtain ⟨t,-,hn | hn⟩ := hn
    · exact isMark_outcome t n hn
    · exact isMark_complaint _ n hn

theorem isListing_outcome (t : Value × σ) : ∀ c ∈ (outcome p standard t).calls, c.isListing = false := by
  intro c hc
  rcases own_calls p standard t with hnil | ⟨scope,-,names,-,hcalls | ⟨status,hcalls⟩⟩
  · rw [hnil] at hc
    cases hc
  · rw [hcalls] at hc
    obtain ⟨n,-,rfl⟩ := List.mem_map.mp hc
    rfl
  · rw [hcalls] at hc
    rcases List.mem_append.mp hc with hc | hc
    · obtain ⟨n,-,rfl⟩ := List.mem_map.mp hc
      rfl
    · rw [List.mem_singleton.mp hc]
      rfl

theorem listings_once (s : σ) : (run p (once standard) s).calls.countP Call.isListing = 1 := by
  cases hlist : (p.answer (.list .scopes) s).1 with
  | error f =>
    rw [run_once_of_error hlist]
    split <;> rfl
  | ok raws =>
    rw [run_once_of_ok hlist,run_items,Outcome.after_calls,List.singleton_append,List.countP_cons]
    have hrest : ((turns p standard raws (p.answer (.list .scopes) s).2).flatMap fun t =>
        (outcome p standard t).calls).countP Call.isListing = 0 := by
      rw [List.countP_eq_zero]
      intro c hc
      obtain ⟨t,-,hc⟩ := List.mem_flatMap.mp hc
      simp [isListing_outcome t c hc]
    rw [hrest]
    rfl

end Pass

namespace Loop
open Program

section Passes
variable {σ : Type} (p : Platform σ) (standard : Value)

/-- Passes one after the other, each in the state that the one before left, broken off or not. -/
def passes : Nat → σ → List (Outcome σ Report)
  | 0, _ => []
  | n+1, s => run p (Pass.once standard) s::passes n (run p (Pass.once standard) s).state

def after : Nat → σ → σ
  | 0, s => s
  | n+1, s => after n (run p (Pass.once standard) s).state

/-- The stop signal is first set during the pass of this number, or is set already where it is zero. -/
structure StopsIn (n : Nat) (s : σ) : Prop where
  going : ∀ k < n, p.isStopping (after p standard k s) = false
  stopped : p.isStopping (after p standard n s) = true

def broken (o : Outcome σ Report) : List Notice := (o.fault?.map .passBroke).toList

/-- A heartbeat follows every tenth pass. -/
def beat (k : Nat) : List Notice := if heartbeatEvery ∣ k then [.heartbeat] else []

/-- All that is reported on passes before which so many have been made. -/
def reports : List (Outcome σ Report) → Nat → List Notice
  | [], _ => []
  | o::os, made => o.notices++broken o++beat (made+1)++reports os (made+1)

variable {p standard} {s : σ}

theorem stopsIn_zero_iff : StopsIn p standard 0 s ↔ p.isStopping s = true :=
  ⟨fun h => h.stopped,fun h => ⟨fun _ hk => absurd hk (Nat.not_lt_zero _),h⟩⟩

theorem StopsIn.first {n : Nat} (h : StopsIn p standard (n+1) s) : p.isStopping s = false :=
  h.going 0 (Nat.succ_pos n)

theorem StopsIn.rest {n : Nat} (h : StopsIn p standard (n+1) s) :
    StopsIn p standard n (run p (Pass.once standard) s).state :=
  ⟨fun k hk => h.going (k+1) (Nat.succ_lt_succ hk),h.stopped⟩

theorem length_passes (n : Nat) (s : σ) : (passes p standard n s).length = n := by
  induction n generalizing s with
  | zero => rfl
  | succ n ih => exact congrArg Nat.succ (ih _)

theorem exists_of_mem_passes {n : Nat} {o : Outcome σ Report} (h : o ∈ passes p standard n s) :
    ∃ t, o = run p (Pass.once standard) t := by
  induction n generalizing s with
  | zero => cases h
  | succ n ih =>
    rcases List.mem_cons.mp h with rfl | h
    · exact ⟨s,rfl⟩
    · exact ih h

/-- The count that is kept is the number of passes made, up to ten. -/
theorem run_turn (made : Nat) (s : σ) : run p (turn standard (made%heartbeatEvery)) s =
    ⟨.ok ((made+1)%heartbeatEvery),(run p (Pass.once standard) s).state,
      (run p (Pass.once standard) s).calls,
      (run p (Pass.once standard) s).notices++broken (run p (Pass.once standard) s)++beat (made+1)⟩ := by
  have hcount : (made%heartbeatEvery+1)%heartbeatEvery = (made+1)%heartbeatEvery :=
    Nat.mod_add_mod made heartbeatEvery 1
  have hbeat : beat (made+1) = if (made+1)%heartbeatEvery = 0 then [.heartbeat] else [] := by
    simp only [beat,Nat.dvd_iff_mod_eq_zero]
  rw [hbeat]
  generalize ho : run p (Pass.once standard) s = o
  cases hr : o.result <;> by_cases hc : (made+1)%heartbeatEvery = 0 <;>
    simp [turn,bind_eq,run_andThen,run_attempt,ho,hr,hcount,hc,broken,Outcome.fault?,pure_eq,Outcome.after]

theorem run_turns {n limit : Nat} (made : Nat) (h : StopsIn p standard n s) (hl : n ≤ limit) :
    run p (turns standard limit (made%heartbeatEvery)) s =
      ⟨.ok (some ((made+n)%heartbeatEvery)),after p standard n s,
        (passes p standard n s).flatMap Outcome.calls,reports (passes p standard n s) made⟩ := by
  induction n generalizing limit made s with
  | zero =>
    have hstop := stopsIn_zero_iff.mp h
    cases limit <;> simp [turns,bind_eq,run_andThen,hstop,pure_eq,passes,after,reports,Outcome.after]
  | succ n ih =>
    obtain ⟨limit,rfl⟩ : ∃ l, limit = l+1 := ⟨limit-1,by omega⟩
    have hrest := ih (made+1) h.rest (Nat.le_of_succ_le_succ hl)
    have hsum : made+1+n = made+(n+1) := by omega
    rw [hsum] at hrest
    simp [turns,bind_eq,run_andThen,h.first,run_turn,hrest,passes,after,reports,Outcome.after]

theorem run_forever {n limit : Nat} (space : String) (made : Nat) (h : StopsIn p standard n s)
    (hl : n ≤ limit) : run p (forever space standard limit (made%heartbeatEvery)) s =
      ⟨.ok (some ((made+n)%heartbeatEvery)),after p standard n s,
        (passes p standard n s).flatMap Outcome.calls,
        .loopStarted space::(reports (passes p standard n s) made++[.loopStopped])⟩ := by
  simp [forever,bind_eq,run_andThen,run_turns made h hl,pure_eq,Outcome.after]

theorem listings_passes (n : Nat) (s : σ) :
    ((passes p standard n s).flatMap Outcome.calls).countP Call.isListing = n := by
  induction n generalizing s with
  | zero => rfl
  | succ n ih =>
    rw [passes,List.flatMap_cons,List.countP_append,Pass.listings_once,ih,Nat.add_comm]

variable {os : List (Outcome σ Report)}

/-- Where the passes say nothing of the loop, the faults that are reported are the ones that ended them. -/
theorem brokenBy?_reports (h : ∀ o ∈ os, ∀ m ∈ o.notices, m.isMark = false) (made : Nat) :
    (reports os made).filterMap Notice.brokenBy? = os.filterMap Outcome.fault? := by
  induction os generalizing made with
  | nil => rfl
  | cons o os ih =>
    have hown : o.notices.filterMap Notice.brokenBy? = [] := by
      rw [List.filterMap_eq_nil_iff]
      exact fun m hm => Notice.brokenBy?_of_not_isMark (h o List.mem_cons_self m hm)
    have hbeat : (beat (made+1)).filterMap Notice.brokenBy? = [] := by
      rw [beat]
      split <;> rfl
    have hrest := ih (fun o ho => h o (List.mem_cons_of_mem _ ho)) (made+1)
    rw [reports,List.filterMap_append,List.filterMap_append,List.filterMap_append,hown,hbeat,hrest,broken]
    cases hf : o.fault? <;> simp [hf,Notice.brokenBy?]

theorem heartbeats_reports (h : ∀ o ∈ os, ∀ m ∈ o.notices, m.isMark = false) (made : Nat) :
    made/heartbeatEvery+(reports os made).countP Notice.isHeartbeat =
      (made+os.length)/heartbeatEvery := by
  induction os generalizing made with
  | nil => rfl
  | cons o os ih =>
    have hown : o.notices.countP Notice.isHeartbeat = 0 := by
      rw [List.countP_eq_zero]
      intro m hm
      simp [Notice.isHeartbeat_of_not_isMark (h o List.mem_cons_self m hm)]
    have hbroken : (broken o).countP Notice.isHeartbeat = 0 := by
      rw [broken]
      cases o.fault? <;> rfl
    have hbeat : made/heartbeatEvery+(beat (made+1)).countP Notice.isHeartbeat =
        (made+1)/heartbeatEvery := by
      rw [Nat.succ_div]
      by_cases hk : heartbeatEvery ∣ made+1 <;> simp [beat,hk,Notice.isHeartbeat]
    have hrest := ih (fun o ho => h o (List.mem_cons_of_mem _ ho)) (made+1)
    rw [reports,List.countP_append,List.countP_append,List.countP_append,hown,hbroken,Nat.zero_add,
      ← Nat.add_assoc,hbeat,hrest,List.length_cons,Nat.add_assoc,Nat.add_comm 1]

end Passes

section Life
variable {σ : Type} (p : Platform σ) (standard : Value) (space : String)

/-- What one call of the loop comes to that makes `n` passes, when `made` have been made before. -/
structure Ran (n made : Nat) (s : σ) (o : Outcome σ (Option Nat)) : Prop where
  returned : o.result = .ok (some ((made+n)%heartbeatEvery))
  state : o.state = after p standard n s
  calls : o.calls = (passes p standard n s).flatMap Outcome.calls
  listings : o.calls.countP Call.isListing = n
  notices : o.notices = .loopStarted space::(reports (passes p standard n s) made++[.loopStopped])
  silent : ∀ pass ∈ passes p standard n s, ∀ m ∈ pass.notices, m.isMark = false
  faults : o.notices.filterMap Notice.brokenBy? = (passes p standard n s).filterMap Outcome.fault?
  heartbeats : made/heartbeatEvery+o.notices.countP Notice.isHeartbeat = (made+n)/heartbeatEvery

variable {p standard}

theorem ran {n limit : Nat} {s : σ} (made : Nat) (h : StopsIn p standard n s) (hl : n ≤ limit) :
    Ran p standard space n made s (run p (forever space standard limit (made%heartbeatEvery)) s) := by
  have hsilent : ∀ pass ∈ passes p standard n s, ∀ m ∈ pass.notices, m.isMark = false := by
    intro pass hpass
    obtain ⟨t,rfl⟩ := exists_of_mem_passes hpass
    exact Pass.isMark_once t
  have hfaults := brokenBy?_reports hsilent made
  have hbeats := heartbeats_reports hsilent made
  rw [length_passes] at hbeats
  rw [run_forever space made h hl]
  exact {
    returned := rfl
    state := rfl
    calls := rfl
    listings := listings_passes n s
    notices := rfl
    silent := hsilent
    faults := by
      rw [List.filterMap_cons_none rfl,List.filterMap_append,hfaults]
      exact List.append_nil _
    heartbeats := by simp [Notice.isHeartbeat,List.countP_append,← hbeats] }

/-- One call of the loop: what happens before it, and the number of the pass in which it is told to
stop. The limit is not reached. -/
structure Spell (σ : Type) where
  before : σ → σ
  passes : Nat
  limit : Nat

def countAfter (count : Nat) : Except Fault (Option Nat) → Nat
  | .ok (some n) => n
  | _ => count

variable (p standard)

/-- One call of the loop after another, each with the count that the one before left. -/
def lifetime : List (Spell σ) → Nat → σ → List (Outcome σ (Option Nat))
  | [], _, _ => []
  | c::cs, count, s =>
    let o := run p (forever space standard c.limit count) (c.before s)
    o::lifetime cs (countAfter count o.result) o.state

/-- Every call is told to stop in the pass of its number. -/
inductive Stops : List (Spell σ) → σ → Prop
  | nil (s : σ) : Stops [] s
  | cons (c : Spell σ) (cs : List (Spell σ)) (s : σ) (hl : c.passes ≤ c.limit)
      (hs : StopsIn p standard c.passes (c.before s))
      (rest : Stops cs (after p standard c.passes (c.before s))) : Stops (c::cs) s

/-- What a life comes to in which so many passes have been made before. -/
inductive Lived : List (Spell σ) → Nat → σ → List (Outcome σ (Option Nat)) → Prop
  | nil (made : Nat) (s : σ) : Lived [] made s []
  | cons (c : Spell σ) (cs : List (Spell σ)) (made : Nat) (s : σ) (o : Outcome σ (Option Nat))
      (os : List (Outcome σ (Option Nat))) (h : Ran p standard space c.passes made (c.before s) o)
      (rest : Lived cs (made+c.passes) o.state os) : Lived (c::cs) made s (o::os)

variable {p standard}

theorem lived {cs : List (Spell σ)} {s : σ} (h : Stops p standard cs s) (made : Nat) :
    Lived p standard space cs made s (lifetime p standard space cs (made%heartbeatEvery) s) := by
  induction h generalizing made with
  | nil s => exact .nil made s
  | cons c cs s hl hs rest ih =>
    have hran := ran space made hs hl
    refine .cons c cs made s _ _ hran ?_
    rw [hran.returned,hran.state]
    exact ih (made+c.passes)

end Life

/-- Over its whole life the loop is nothing but passes: each call makes as many as it is let, one after
the other, whatever becomes of them, reports each that broke off and sends a heartbeat after every tenth
of them all. -/
theorem forever_is_passes {σ : Type} (p : Platform σ) (standard : Value) (space : String)
    (cs : List (Spell σ)) (s : σ) (h : Stops p standard cs s) :
    Lived p standard space cs 0 s (lifetime p standard space cs 0 s) :=
  lived space h 0

def quietWorld : World where
  store := []
  mishaps := [⟨.list,.scopes,none,.runtime "socket closed",true,some 1⟩]
  listing := none
  clock := Shelf.noon
  tick := 0
  countdown := none
  requests := []

def spellOf (listings passes : Nat) : Spell World :=
  ⟨fun w => { w with countdown := some listings },passes,9⟩

/-- The pass that breaks off counts, so the tenth is the only one of the second call. -/
theorem forever_is_passes_quiet : ∃ first second,
    lifetime (World.platform "default") (.int 30) "default" [spellOf 8 9,spellOf 1 1] 0 quietWorld =
      [first,second] ∧
    first.calls.countP Call.isListing = 9 ∧
    first.notices.filterMap Notice.brokenBy? = [.failure (.runtime "socket closed")] ∧
    first.notices.countP Notice.isHeartbeat = 0 ∧
    second.notices = [.loopStarted "default",.heartbeat,.loopStopped] := by
  have hstops : Stops (World.platform "default") (.int 30) [spellOf 8 9,spellOf 1 1] quietWorld := by
    refine .cons _ _ _ (by decide) ⟨?_,?_⟩ (.cons _ _ _ (by decide) ⟨?_,?_⟩ (.nil _))
    all_goals decide +kernel
  have h := forever_is_passes (World.platform "default") (.int 30) "default" _ quietWorld hstops
  generalize hos : lifetime (World.platform "default") (.int 30) "default" [spellOf 8 9,spellOf 1 1] 0
    quietWorld = os at h
  cases h with
  | cons c cs made s first os hfirst hrest =>
    cases hrest with
    | cons c cs made s second os hsecond hrest =>
      cases hrest
      have hbeats := hfirst.heartbeats
      refine ⟨first,second,rfl,hfirst.listings,hfirst.faults.trans rfl,?_,?_⟩
      · simpa [spellOf,heartbeatEvery] using hbeats
      · rw [hsecond.notices,hfirst.state]
        rfl

end Loop
end HealthRollup
