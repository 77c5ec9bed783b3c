import HealthRollup.Controller
import HealthRollup.Proofs.Shifts
import Mathlib.Data.List.Nodup

/-! Starts and stops in balance. When every start but the first comes after a stop, the servers started are, in
their order, those stopped and then the one that is still held, and no server is started twice. What the next
stop does follows from this, however far the start came. -/
namespace HealthRollup
namespace Controller
variable {settings : Fields} {c c' : Controller} {m : Move} {ms : List Move} {t : Transition}
  {e : Entry} {log before after : List Entry} {ready : Bool}

inductive Server
  | liveness | runner
  deriving DecidableEq, Repr

def held : Server → Controller → Option Nat
  | .liveness, c => c.liveness
  | .runner, c => c.runner

namespace Event

def started? : Server → Event → Option Nat
  | .liveness, .livenessStarted n => some n
  | .runner, .served n _ => some n
  | _, _ => none

def stopped? : Server → Event → Option Nat
  | .liveness, .livenessStopped n => some n
  | .runner, .cleanedUp n => some n
  | _, _ => none

end Event

def started (server : Server) (log : List Entry) : List Nat := (events log).filterMap (Event.started? server)

def stopped (server : Server) (log : List Entry) : List Nat := (events log).filterMap (Event.stopped? server)

def Entry.isStop (e : Entry) : Bool :=
  match e.move with
  | .stop _ => true
  | _ => false

/-- The first start comes to a fresh controller, any other after a stop. -/
def orderly : Bool → List Move → Bool
  | _, [] => true
  | ready, .start _::ms => ready && orderly false ms
  | _, .stop _::ms => orderly true ms
  | ready, .work _::ms => orderly ready ms

/-- What a start does before it meets its obstacle, if there is any. -/
def upTo (settings : Fields) (obstacle : Option Obstacle) (n : Nat) : List Event :=
  let all : List Event :=
    [.livenessOpened n (Settings.livenessIn settings),.livenessStarted n,.loopStarted,
      .served n (Settings.endpointIn settings)]
  match obstacle with
  | some .opening => []
  | some .serving => all.take 3
  | none => all

/-- All that a move can do. -/
inductive Moved (settings : Fields) (c : Controller) : Move → Transition → Prop
  | started (obstacle : Option Obstacle) :
      Moved settings c (.start obstacle) (c.start settings obstacle)
  | stopped (meanwhile : List Nat) (loop : Workers)
      (hloop : c.loop.moves? (Workers.wholeStop meanwhile) = some loop) :
      Moved settings c (.stop meanwhile) ⟨true,{ c with liveness := none, loop := loop, runner := none },
        c.runner.toList.map .cleanedUp++[.loopStopped]++c.liveness.toList.map .livenessStopped⟩
  | worked (i : Nat) (loop : Workers) (hloop : c.loop.move? (.work i) = some loop) :
      Moved settings c (.work i) ⟨true,{ c with loop := loop },[]⟩

theorem moved (h : c.move? settings m = some t) : c.Moved settings m t := by
  cases m with
  | start obstacle =>
    cases h
    exact .started obstacle
  | stop meanwhile =>
    obtain ⟨loop,hloop,h⟩ := Option.map_eq_some_iff.mp h
    cases h
    exact .stopped meanwhile loop hloop
  | work i =>
    obtain ⟨loop,hloop,h⟩ := Option.map_eq_some_iff.mp h
    cases h
    exact .worked i loop hloop

@[simp] theorem moves?_nil (settings : Fields) (c : Controller) : c.moves? settings [] = some (c,[]) := rfl
@[simp] theorem moves?_cons (settings : Fields) (c : Controller) (m : Move) (ms : List Move) :
    c.moves? settings (m::ms) = (c.move? settings m).bind fun t =>
      (t.after.moves? settings ms).map fun r => (r.1,⟨m,t⟩::r.2) := rfl

/-- The run behind a log, from its first entry on. -/
theorem moves?_entry (h : c.moves? settings ms = some (c',e::log)) :
    ∃ rest, ms = e.move::rest ∧ c.move? settings e.move = some e.transition ∧
      e.transition.after.moves? settings rest = some (c',log) := by
  cases ms with
  | nil => cases h
  | cons m rest =>
    rw [moves?_cons,Option.bind_eq_some_iff] at h
    obtain ⟨t,hm,h⟩ := h
    obtain ⟨r,hrest,h⟩ := Option.map_eq_some_iff.mp h
    cases h
    exact ⟨rest,rfl,hm,hrest⟩

@[simp] theorem started_append (server : Server) (before after : List Entry) :
    started server (before++after) = started server before++started server after := by simp [started,events]
@[simp] theorem stopped_append (server : Server) (before after : List Entry) :
    stopped server (before++after) = stopped server before++stopped server after := by simp [stopped,events]
theorem started_cons (server : Server) (e : Entry) (log : List Entry) :
    started server (e::log) = started server [e]++started server log := started_append server [e] log
theorem stopped_cons (server : Server) (e : Entry) (log : List Entry) :
    stopped server (e::log) = stopped server [e]++stopped server log := stopped_append server [e] log

theorem started_concat {server : Server} (h : started server [e] = []) (log : List Entry) :
    started server (log++[e]) = started server log := by
  rw [started_append,h,List.append_nil]

/-! What one move starts and stops. -/

theorem started_stop {meanwhile : List Nat} (server : Server) (h : c.move? settings (.stop meanwhile) = some t) :
    started server [⟨.stop meanwhile,t⟩] = [] ∧
    stopped server [⟨.stop meanwhile,t⟩] = (c.held server).toList ∧ t.after.held server = none := by
  obtain ⟨starts,liveness,loop,runner⟩ := c
  cases moved h with
  | stopped _ loop hloop => cases server <;> cases liveness <;> cases runner <;> exact ⟨rfl,rfl,rfl⟩

theorem started_work {i : Nat} (server : Server) (h : c.move? settings (.work i) = some t) :
    started server [⟨.work i,t⟩] = [] ∧ stopped server [⟨.work i,t⟩] = [] ∧
    t.after.held server = c.held server := by
  cases moved h with
  | worked _ loop hloop => cases server <;> exact ⟨rfl,rfl,rfl⟩

theorem started_start (settings : Fields) (server : Server) (obstacle : Option Obstacle)
    (hfree : c.held server = none) :
    started server [⟨.start obstacle,c.start settings obstacle⟩] =
      ((c.start settings obstacle).after.held server).toList ∧
    ∀ n, (c.start settings obstacle).after.held server = some n → n = c.starts := by
  obtain ⟨starts,liveness,loop,runner⟩ := c
  cases server <;> cases hfree <;> rcases obstacle with _ | _ | _
  all_goals
    refine ⟨rfl,fun n hn => ?_⟩
    cases hn <;> rfl

theorem stopped_start (settings : Fields) (c : Controller) (server : Server) (obstacle : Option Obstacle) :
    stopped server [⟨.start obstacle,c.start settings obstacle⟩] = [] := by
  cases server <;> rcases obstacle with _ | _ | _ <;> rfl

theorem started_of_isStop (server : Server) (h : c.move? settings e.move = some e.transition)
    (hstop : e.isStop = true) : started server [e] = [] ∧ stopped server [e] = (c.held server).toList := by
  obtain ⟨m,t⟩ := e
  cases m with
  | start obstacle => cases hstop
  | work i => cases hstop
  | stop meanwhile => exact ⟨(started_stop server h).1,(started_stop server h).2.1⟩

theorem stopped_eq_nil (server : Server) (h : c.moves? settings ms = some (c',before++after))
    (hbefore : ∀ e ∈ before, e.isStop = false) : stopped server before = [] := by
  induction before generalizing c ms with
  | nil => rfl
  | cons e before ih =>
    obtain ⟨rest,-,hm,hrest⟩ := moves?_entry h
    have he : stopped server [e] = [] := by
      obtain ⟨m,t⟩ := e
      cases m with
      | start obstacle =>
        cases hm
        exact stopped_start settings c server obstacle
      | stop meanwhile => cases hbefore _ List.mem_cons_self
      | work i => exact (started_work server hm).2.1
    rw [stopped_cons,he,ih hrest fun e he => hbefore e (List.mem_cons_of_mem _ he),List.append_nil]

/-! What a run keeps. -/

/-- The servers started are those stopped and the one that is held. Before a start nothing is held. -/
structure Kept (ready : Bool) (c : Controller) (log : List Entry) : Prop where
  started_eq : ∀ server, started server log = stopped server log++(c.held server).toList
  nodup : ∀ server, (started server log).Nodup
  lt_starts : ∀ server, ∀ n ∈ started server log, n < c.starts
  watched : c.loop.Watched []
  stopping : c.loop.stopping = false
  free : ready = true → (∀ server, c.held server = none) ∧ c.loop.held = none
  ready_of_last : (∀ e ∈ log.getLast?, e.isStop = true) → ready = true

theorem kept_fresh : Kept true fresh [] where
  started_eq server := by cases server <;> rfl
  nodup server := List.nodup_nil
  lt_starts server n hn := by cases hn
  watched := Workers.watched_idle
  stopping := rfl
  free _ := ⟨fun server => by cases server <;> rfl,rfl⟩
  ready_of_last _ := rfl

theorem Kept.stop {meanwhile : List Nat} (hk : Kept ready c log)
    (h : c.move? settings (.stop meanwhile) = some t) : Kept true t.after (log++[⟨.stop meanwhile,t⟩]) := by
  have hserver := fun server => started_stop server h
  have hstarted := fun server => started_concat (hserver server).1 log
  cases moved h with
  | stopped _ loop hloop =>
    have hfree := Workers.free_of_stop hloop
    refine ⟨fun server => ?_,fun server => ?_,fun server n hn => ?_,?_,hfree.2,fun _ => ⟨?_,hfree.1⟩,fun _ => rfl⟩
    · rw [hstarted,hk.started_eq,stopped_append,(hserver server).2.1,(hserver server).2.2]
      simp
    · exact hstarted server ▸ hk.nodup server
    · exact hk.lt_starts server n (hstarted server ▸ hn)
    · have hw := hk.watched.moves hloop
      rwa [Workers.abandoned_eq_nil (by simp [Workers.wholeStop])] at hw
    · exact fun server => (hserver server).2.2

theorem Kept.work {i : Nat} (hk : Kept ready c log)
    (h : c.move? settings (.work i) = some t) : Kept ready t.after (log++[⟨.work i,t⟩]) := by
  have hserver := fun server => started_work server h
  have hstarted := fun server => started_concat (hserver server).1 log
  cases moved h with
  | worked _ loop hloop =>
    have hw := hk.watched.move hloop
    refine ⟨fun server => ?_,fun server => ?_,fun server n hn => ?_,hw,?_,fun hr => ?_,fun hlast => ?_⟩
    · rw [hstarted,hk.started_eq,stopped_append,(hserver server).2.1,(hserver server).2.2]
      simp
    · exact hstarted server ▸ hk.nodup server
    · exact hk.lt_starts server n (hstarted server ▸ hn)
    · cases Workers.moved hloop with
      | worked => exact hk.stopping
    · cases Workers.moved hloop with
      | worked => exact ⟨fun server => (hserver server).2.2.trans ((hk.free hr).1 server),(hk.free hr).2⟩
    · simp [Entry.isStop] at hlast

theorem start_starts (settings : Fields) (obstacle : Option Obstacle) (c : Controller) :
    (c.start settings obstacle).after.starts = c.starts+1 := by
  rcases obstacle with _ | _ | _ <;> rfl

theorem start_loop (settings : Fields) (obstacle : Option Obstacle) (c : Controller) :
    (c.start settings obstacle).after.loop = if obstacle = some .opening then c.loop else c.loop.start := by
  rcases obstacle with _ | _ | _ <;> rfl

theorem started_concat_start (settings : Fields) (server : Server) (obstacle : Option Obstacle)
    (hfree : c.held server = none) (log : List Entry) :
    started server (log++[⟨.start obstacle,c.start settings obstacle⟩]) = started server log ∨
    started server (log++[⟨.start obstacle,c.start settings obstacle⟩]) = started server log++[c.starts] := by
  obtain ⟨hstarted,hnew⟩ := started_start settings server obstacle hfree
  rw [started_append,hstarted]
  cases hheld : (c.start settings obstacle).after.held server with
  | none => exact .inl (List.append_nil _)
  | some n => exact .inr (by rw [hnew n hheld]; rfl)

theorem Kept.start (hk : Kept true c log) (settings : Fields) (obstacle : Option Obstacle) :
    Kept false (c.start settings obstacle).after (log++[⟨.start obstacle,c.start settings obstacle⟩]) := by
  obtain ⟨hfree,-⟩ := hk.free rfl
  have hnew := fun server => started_concat_start settings server obstacle (hfree server) log
  have hmove : c.loop.move? .start = some c.loop.start := by simp [Workers.move?,hk.stopping]
  refine ⟨fun server => ?_,fun server => ?_,fun server n hn => ?_,?_,?_,by simp,fun hlast => ?_⟩
  · rw [started_append,stopped_append,(started_start settings server obstacle (hfree server)).1,stopped_start,
      hk.started_eq,hfree]
    simp
  · rcases hnew server with h | h
    · exact h ▸ hk.nodup server
    · refine h ▸ List.nodup_append.mpr ⟨hk.nodup server,by simp,fun n hn k hk' => ?_⟩
      rw [List.mem_singleton.mp hk']
      exact Nat.ne_of_lt (hk.lt_starts server n hn)
  · rw [start_starts]
    rcases hnew server with h | h
    · exact Nat.lt_succ_of_lt (hk.lt_starts server n (h ▸ hn))
    · rcases List.mem_append.mp (h ▸ hn) with hn | hn
      · exact Nat.lt_succ_of_lt (hk.lt_starts server n hn)
      · exact List.mem_singleton.mp hn ▸ Nat.lt_succ_self c.starts
  · rw [start_loop]
    split
    · exact hk.watched
    · exact hk.watched.move hmove
  · rw [start_loop]
    split
    · exact hk.stopping
    · rw [Workers.start_stopping,hk.stopping]
  · simp [Entry.isStop] at hlast

/-- A cut through a log cuts the run. -/
theorem Kept.cut (hk : Kept ready c log) (h : c.moves? settings ms = some (c',before++after))
    (hms : orderly ready ms = true) :
    ∃ r c₁ rest, Kept r c₁ (log++before) ∧ c₁.moves? settings rest = some (c',after) ∧ orderly r rest = true := by
  induction before generalizing ready c ms log with
  | nil => exact ⟨ready,c,ms,by simpa using hk,h,hms⟩
  | cons e before ih =>
    obtain ⟨rest,rfl,hm,hrest⟩ := moves?_entry h
    rw [List.append_cons]
    obtain ⟨m,t⟩ := e
    cases m with
    | start obstacle =>
      cases hm
      obtain ⟨rfl,hms⟩ := (Bool.and_eq_true _ _).mp hms
      exact ih (hk.start settings obstacle) hrest hms
    | stop meanwhile => exact ih (hk.stop hm) hrest hms
    | work i => exact ih (hk.work hm) hrest hms

theorem kept (h : fresh.moves? settings ms = some (c,log)) (hms : orderly true ms = true) :
    ∃ ready, Kept ready c log := by
  rw [← List.append_nil log] at h
  obtain ⟨ready,c₁,rest,hk,hrest,-⟩ := kept_fresh.cut h hms
  cases rest with
  | nil =>
    cases hrest
    exact ⟨ready,by simpa using hk⟩
  | cons m rest => simp [Option.bind_eq_some_iff] at hrest

/-- Starts and stops of a log. The servers are numbered by the start that made them. -/
structure Balanced (settings : Fields) (log : List Entry) : Prop where
  /-- A start goes as far as it can, and one worker goes on, if the loop is started. -/
  starts : ∀ before e after obstacle, log = before++e::after → e.move = .start obstacle →
    (∃ n, e.transition.events = upTo settings obstacle n ∧ ∀ server, n ∉ started server before) ∧
    (e.transition.succeeded = true ↔ obstacle = none) ∧
    ∃ worker, ∀ i, e.transition.after.loop.CanBegin i ↔ obstacle ≠ some .opening ∧ i = worker
  /-- A stop takes down what was started since the last one, and leaves no worker on its way. -/
  stops : ∀ before between e after, log = before++(between++e::after) → e.isStop = true →
    (∀ e ∈ before.getLast?, e.isStop = true) → (∀ e ∈ between, e.isStop = false) →
    e.transition.events = (started .runner between).map .cleanedUp++[.loopStopped]++
      (started .liveness between).map .livenessStopped ∧
    ∀ phase ∈ e.transition.after.loop.phases, phase = .ended
  /-- No server is started twice, and the next stop alone stops it. -/
  once : ∀ server n before start between stop after, log = before++start::(between++stop::after) →
    n ∈ started server [start] → stop.isStop = true → (∀ e ∈ between, e.isStop = false) →
    (started server log).count n = 1 ∧ stopped server [stop] = [n] ∧ n ∉ stopped server (before++start::between) ∧
    n ∉ stopped server after

theorem start_events (settings : Fields) (obstacle : Option Obstacle) (c : Controller) :
    (c.start settings obstacle).events = upTo settings obstacle c.starts := by
  rcases obstacle with _ | _ | _ <;> rfl

theorem start_succeeded (settings : Fields) (obstacle : Option Obstacle) (c : Controller) :
    (c.start settings obstacle).succeeded = true ↔ obstacle = none := by
  rcases obstacle with _ | _ | _ <;> simp [start]

/-- No worker is on its way when a start comes, so the new one goes on alone. -/
theorem Kept.canBegin_start (hk : Kept true c log) (settings : Fields) (obstacle : Option Obstacle) (i : Nat) :
    (c.start settings obstacle).after.loop.CanBegin i ↔ obstacle ≠ some .opening ∧ i = c.loop.phases.length := by
  have hheld := (hk.free rfl).2
  have hnobody : ¬ c.loop.IsLive i := hk.watched.not_isLive hheld
  rw [start_loop]
  split
  · rename_i hopening
    have hold : ¬ c.loop.CanBegin i := fun h => hnobody (Workers.mayPass_iff.mp (Workers.canBegin_iff.mp h)).2
    exact iff_of_false hold (by simp [hopening])
  · rename_i hopening
    simp [Workers.canBegin_start hheld,hnobody,hopening]

theorem Kept.stopped_nodup (hk : Kept ready c log) (server : Server) : (stopped server log).Nodup :=
  (List.nodup_append.mp (hk.started_eq server ▸ hk.nodup server)).1

theorem Kept.started_of_stopped (hk : Kept ready c log) {server : Server} {n : Nat} (hn : n ∈ stopped server log) :
    n ∈ started server log :=
  hk.started_eq server ▸ List.mem_append_left _ hn

section

variable (h : fresh.moves? settings ms = some (c,log)) (hms : orderly true ms = true)
include h hms

theorem balanced_starts {obstacle : Option Obstacle} (hlog : log = before++e::after)
    (hstart : e.move = .start obstacle) :
    (∃ n, e.transition.events = upTo settings obstacle n ∧ ∀ server, n ∉ started server before) ∧
    (e.transition.succeeded = true ↔ obstacle = none) ∧
    ∃ worker, ∀ i, e.transition.after.loop.CanBegin i ↔ obstacle ≠ some .opening ∧ i = worker := by
  subst hlog
  obtain ⟨ready,c₁,rest,hk,hrest,hready⟩ := kept_fresh.cut h hms
  obtain ⟨rest,rfl,hm,-⟩ := moves?_entry hrest
  rw [hstart] at hm hready
  obtain ⟨rfl,-⟩ := (Bool.and_eq_true _ _).mp hready
  have ht := Option.some.inj hm
  rw [← ht]
  refine ⟨⟨c₁.starts,start_events settings obstacle c₁,fun server hn => ?_⟩,start_succeeded settings obstacle c₁,
    c₁.loop.phases.length,hk.canBegin_start settings obstacle⟩
  exact Nat.lt_irrefl _ (hk.lt_starts server c₁.starts hn)

theorem balanced_stops {between : List Entry} (hlog : log = before++(between++e::after)) (hstop : e.isStop = true)
    (hbefore : ∀ e ∈ before.getLast?, e.isStop = true) (hbetween : ∀ e ∈ between, e.isStop = false) :
    e.transition.events = (started .runner between).map .cleanedUp++[.loopStopped]++
      (started .liveness between).map .livenessStopped ∧
    ∀ phase ∈ e.transition.after.loop.phases, phase = .ended := by
  subst hlog
  obtain ⟨ready,c₁,rest,hk₁,hrest,hready⟩ := kept_fresh.cut h hms
  obtain rfl := hk₁.ready_of_last hbefore
  obtain ⟨hfree,-⟩ := hk₁.free rfl
  obtain ⟨ready,c₂,rest₂,hk₂,hrest₂,-⟩ := hk₁.cut hrest hready
  have hheld (server : Server) : (c₂.held server).toList = started server between := by
    have hsum := hk₂.started_eq server
    rw [started_append,stopped_append,hk₁.started_eq,hfree,stopped_eq_nil server hrest hbetween] at hsum
    simpa using hsum.symm
  obtain ⟨rest₃,-,hm,-⟩ := moves?_entry hrest₂
  obtain ⟨m,t⟩ := e
  cases m with
  | start obstacle => cases hstop
  | work i => cases hstop
  | stop meanwhile =>
    have hk₃ := hk₂.stop hm
    refine ⟨?_,hk₃.watched.ended (hk₃.free rfl).2⟩
    rw [← hheld,← hheld]
    cases moved hm with
    | stopped => rfl

theorem balanced_once {n : Nat} {server : Server} {start stop : Entry} {between : List Entry}
    (hlog : log = before++start::(between++stop::after)) (hn : n ∈ started server [start])
    (hstop : stop.isStop = true) (hbetween : ∀ e ∈ between, e.isStop = false) :
    (started server log).count n = 1 ∧ stopped server [stop] = [n] ∧ n ∉ stopped server (before++start::between) ∧
    n ∉ stopped server after := by
  have hcut : log = before++(start::between)++stop::after := by simp [hlog]
  obtain ⟨_,hwhole⟩ := kept h hms
  obtain ⟨_,c₁,_,hk₁,hrest₁,-⟩ := kept_fresh.cut (hlog ▸ h) hms
  obtain ⟨_,c₂,_,hk₂,hrest₂,-⟩ := kept_fresh.cut (hcut ▸ h) hms
  obtain ⟨_,-,hm₁,-⟩ := moves?_entry hrest₁
  obtain ⟨_,-,hm₂,-⟩ := moves?_entry hrest₂
  rw [List.nil_append] at hk₁ hk₂
  have hstart : start.isStop = false := by
    by_contra hstart
    rw [(started_of_isStop server hm₁ (by simpa using hstart)).1] at hn
    cases hn
  have hold : n ∉ started server before := fun hold => by
    have hnodup := hwhole.nodup server
    rw [hlog,started_append,started_cons] at hnodup
    exact (List.nodup_append.mp hnodup).2.2 n hold n (List.mem_append_left _ hn) rfl
  have hpre : n ∉ stopped server (before++start::between) := by
    rw [stopped_append,stopped_eq_nil server hrest₁ (List.forall_mem_cons.mpr ⟨hstart,hbetween⟩),List.append_nil]
    exact fun hmem => hold (hk₁.started_of_stopped hmem)
  have hmem : n ∈ started server (before++start::between) := by
    rw [started_append,started_cons]
    exact List.mem_append_right _ (List.mem_append_left _ hn)
  have hstopped : stopped server [stop] = [n] := by
    have hheld := (List.mem_append.mp (hk₂.started_eq server ▸ hmem)).resolve_left hpre
    rw [(started_of_isStop server hm₂ hstop).2,Option.mem_toList.mp hheld]
    rfl
  refine ⟨?_,hstopped,hpre,fun hlater => ?_⟩
  · refine List.count_eq_one_of_mem (hwhole.nodup server) ?_
    rw [hcut,started_append]
    exact List.mem_append_left _ hmem
  · have hnodup := hwhole.stopped_nodup server
    rw [hcut,stopped_append,stopped_cons,hstopped] at hnodup
    exact (List.nodup_append.mp (List.nodup_append.mp hnodup).2.1).2.2 n (by simp) n hlater rfl

/-- A stop comes to its end, if the workers go on with their steps. -/
theorem exists_stop : ∃ meanwhile t, c.move? settings (.stop meanwhile) = some t := by
  obtain ⟨_,hk⟩ := kept h hms
  obtain ⟨meanwhile,loop,hloop⟩ := Workers.exists_stop hk.watched hk.stopping
  exact ⟨meanwhile,_,by rw [move?,stop?,hloop]; rfl⟩

theorem starts_and_stops_balance :
    Balanced settings log ∧ ∃ meanwhile t, c.move? settings (.stop meanwhile) = some t := by
  refine ⟨⟨?_,?_,?_⟩,exists_stop h hms⟩
  · exact fun before e after obstacle hlog hstart => balanced_starts h hms hlog hstart
  · exact fun before between e after hlog hstop hbefore hbetween =>
      balanced_stops h hms hlog hstop hbefore hbetween
  · exact fun server n before start between stop after hlog hn hstop hbetween =>
      balanced_once h hms hlog hn hstop hbetween

end

/-- A start that fails at the query server, a stop into a pass, a stop of nothing, and all over again. -/
def retry : List Move := [.start (some .serving),.work 0,.stop [0,0,0],.stop [],.start none,.stop [1]]

theorem starts_and_stops_balance_retry : ∃ c log, fresh.moves? [] retry = some (c,log) ∧
    (Balanced [] log ∧ ∃ meanwhile t, c.move? [] (.stop meanwhile) = some t) ∧
    log.map (fun e => e.transition.events) =
      [[.livenessOpened 0 (Settings.livenessIn []),.livenessStarted 0,.loopStarted],[],
        [.loopStopped,.livenessStopped 0],[.loopStopped],
        [.livenessOpened 1 (Settings.livenessIn []),.livenessStarted 1,.loopStarted,.served 1 (Settings.endpointIn [])],
        [.cleanedUp 1,.loopStopped,.livenessStopped 1]] := by
  have h : orderly true retry = true := rfl
  exact ⟨_,_,rfl,starts_and_stops_balance rfl h,rfl⟩

end Controller
end HealthRollup
