import HealthRollup.Loop.Workers
import Mathlib.Data.List.Induction

/-! Workers in shifts. A worker goes on to further passes only while the signal is down, and only a start takes
it down. A worker that has not ended is held, unless a stop has given it up before its end. Such a worker ends
when it finds the signal up; a start that comes before that puts a second worker beside it. -/
namespace HealthRollup
namespace Workers
variable {w w' : Workers} {m : Move} {ms : List Move} {i j : Nat} {given : List Nat}

def Begins (w : Workers) (i : Nat) : Prop := w.signal = false ∧ w.phases[i]? = some .looking

/-- It can come to begin a pass with no start in between. -/
def CanBegin (w : Workers) (i : Nat) : Prop :=
  ∃ ms w', .start ∉ ms ∧ w.moves? ms = some w' ∧ w'.Begins i

/-- Put on its way and not at its end. -/
def IsLive (w : Workers) (i : Nat) : Prop := i < w.phases.length ∧ w.hasEnded i = false

def givenUp? (w : Workers) : Move → Option Nat
  | .release _ => w.held.filter fun i => !w.hasEnded i
  | _ => none

def abandoned (w : Workers) : List Move → List Nat
  | [] => []
  | m::ms =>
    match w.move? m with
    | none => []
    | some w' => (w.givenUp? m).toList++w'.abandoned ms

/-- A start comes while a worker that was given up is still on its way. -/
def Overlaps (ms : List Move) : Prop :=
  ∃ ms₁ ms₂ w i, ms = ms₁++.start::ms₂ ∧ idle.moves? ms₁ = some w ∧ i ∈ idle.abandoned ms₁ ∧ w.IsLive i

/-- All that a move can do. -/
inductive Moved (w : Workers) : Move → Workers → Prop
  | kept (hs : w.stopping = false) (i : Nat) (hheld : w.held = some i) (hlive : w.hasEnded i = false) :
      Moved w .start w
  | started (hs : w.stopping = false) (hended : ∀ i, w.held = some i → w.hasEnded i = true) :
      Moved w .start { w with signal := false, held := some w.phases.length, phases := w.phases++[.looking] }
  | stopped (hs : w.stopping = false) : Moved w .stop { w with signal := true, stopping := true }
  | released (early : Bool) (hs : w.stopping = true)
      (hended : early = false → ∀ i, w.held = some i → w.hasEnded i = true) :
      Moved w (.release early) { w with held := none, stopping := false }
  | worked (i : Nat) (hi : i < w.phases.length) :
      Moved w (.work i) { w with phases := w.phases.modify i (Phase.next w.signal) }

theorem moved (h : w.move? m = some w') : w.Moved m w' := by
  cases m with
  | start =>
    simp only [move?,Option.ite_none_left_eq_some,Bool.not_eq_true] at h
    obtain ⟨hs,h⟩ := h
    cases h
    rw [start]
    cases hheld : w.held with
    | none => simpa using Moved.started hs (by simp [hheld])
    | some i =>
      cases hi : w.hasEnded i with
      | false => simpa [hi] using Moved.kept hs i hheld hi
      | true => simpa [hi] using Moved.started hs (by simp [hheld,hi])
  | stop =>
    simp only [move?,Option.ite_none_left_eq_some,Bool.not_eq_true] at h
    obtain ⟨hs,h⟩ := h
    cases h
    exact .stopped hs
  | release early =>
    simp only [move?,Option.ite_none_right_eq_some,Bool.and_eq_true,Bool.or_eq_true] at h
    obtain ⟨⟨hs,hended⟩,h⟩ := h
    cases h
    refine .released early hs fun he i hheld => ?_
    simpa [he,hheld] using hended
  | work i =>
    simp only [move?,Option.ite_none_right_eq_some] at h
    obtain ⟨hi,h⟩ := h
    cases h
    exact .worked i hi

theorem moves?_append (w : Workers) (ms ms' : List Move) :
    w.moves? (ms++ms') = (w.moves? ms).bind fun w => w.moves? ms' := by
  induction ms generalizing w with
  | nil => rfl
  | cons m ms ih =>
    rw [List.cons_append,moves?_cons,moves?_cons]
    cases w.move? m with
    | none => rfl
    | some w => simpa using ih w

theorem moves?_concat (h : w.moves? (ms++[m]) = some w') :
    ∃ w₁, w.moves? ms = some w₁ ∧ w₁.move? m = some w' := by
  rw [moves?_append,Option.bind_eq_some_iff] at h
  obtain ⟨w₁,hms,h⟩ := h
  exact ⟨w₁,hms,by simpa using h⟩

theorem abandoned_concat {w₁ : Workers} (hms : w.moves? ms = some w₁) (hm : w₁.move? m = some w') :
    w.abandoned (ms++[m]) = w.abandoned ms++(w₁.givenUp? m).toList := by
  induction ms generalizing w with
  | nil =>
    cases hms
    simp [abandoned,hm]
  | cons m₀ ms ih =>
    rw [moves?_cons,Option.bind_eq_some_iff] at hms
    obtain ⟨w₂,h₂,hms⟩ := hms
    simp [abandoned,h₂,ih hms]

/-! What stays without a start. -/

theorem IsLive.before (hlive : w'.IsLive i) (h : w.move? m = some w') (hi : i < w.phases.length) :
    w.IsLive i := by
  refine ⟨hi,?_⟩
  have hlive := hlive.2
  cases moved h with
  | kept | stopped | released => exact hlive
  | started => simpa [hasEnded,List.getElem?_append_left hi] using hlive
  | worked k hk =>
    by_contra hended
    have hphase : w.phases[i]? = some .ended := by simpa [hasEnded] using hended
    simp [hasEnded,List.getElem?_modify,hphase] at hlive

theorem length_of_move (h : w.move? m = some w') (hm : m ≠ .start) :
    w'.phases.length = w.phases.length := by
  cases moved h with
  | kept | started => exact absurd rfl hm
  | stopped | released => rfl
  | worked k hk => simp

theorem signal_of_move (h : w.move? m = some w') (hm : m ≠ .start) (hup : w.signal = true) :
    w'.signal = true := by
  cases moved h with
  | kept | started => exact absurd rfl hm
  | stopped => rfl
  | released | worked => exact hup

theorem mayPass_iff : w.mayPass i = true ↔ w.signal = false ∧ w.IsLive i := by
  unfold mayPass IsLive hasEnded
  cases hp : w.phases[i]? with
  | none => simp [List.getElem?_eq_none_iff.mp hp]
  | some p =>
    have hi : i < w.phases.length := (List.getElem?_eq_some_iff.mp hp).1
    cases p <;> simp [hi]

theorem mayPass_of_moves (h : w.moves? ms = some w') (hms : .start ∉ ms) (hpass : w'.mayPass i = true) :
    w.mayPass i = true := by
  induction ms generalizing w with
  | nil =>
    cases h
    exact hpass
  | cons m ms ih =>
    rw [moves?_cons,Option.bind_eq_some_iff] at h
    obtain ⟨w₁,hm,h⟩ := h
    have hstart : m ≠ .start := fun he => hms (he ▸ List.mem_cons_self)
    obtain ⟨hdown,hlive⟩ := mayPass_iff.mp (ih h fun hmem => hms (List.mem_cons_of_mem m hmem))
    refine mayPass_iff.mpr ⟨?_,hlive.before hm (length_of_move hm hstart ▸ hlive.1)⟩
    by_contra hup
    have hup := signal_of_move hm hstart (by simpa using hup)
    rw [hdown] at hup
    cases hup

theorem canBegin_of_work (hi : i < w.phases.length)
    (h : { w with phases := w.phases.modify i (Phase.next w.signal) }.CanBegin i) : w.CanBegin i := by
  obtain ⟨ms,w',hms,h,hbegins⟩ := h
  refine ⟨.work i::ms,w',by simpa using hms,?_,hbegins⟩
  rw [moves?_cons,move?,if_pos hi]
  exact h

theorem canBegin_iff : w.CanBegin i ↔ w.mayPass i = true := by
  constructor
  · rintro ⟨ms,w',hms,h,hdown,hlooking⟩
    exact mayPass_of_moves h hms (by simp [mayPass,hlooking,hdown])
  · intro hpass
    obtain ⟨hdown,hi,hended⟩ := mayPass_iff.mp hpass
    have hlooks {w : Workers} (hdown : w.signal = false) (hp : w.phases[i]? = some .looking) : w.CanBegin i :=
      ⟨[],w,by simp,rfl,hdown,hp⟩
    cases hp : w.phases[i] with
    | looking => exact hlooks hdown (by simp [hi,hp])
    | waiting => exact canBegin_of_work hi (hlooks hdown (by simp [hi,hp,Phase.next]))
    | passing =>
      refine canBegin_of_work hi (canBegin_of_work (by simpa using hi) (hlooks hdown ?_))
      simp [hi,hp,Phase.next]
    | ended => simp [hasEnded,hi,hp] at hended

/-! What a run keeps. -/

/-- A worker that has not ended is held or was given up. Between stops a held worker finds the signal down,
within a stop every worker finds it up. -/
structure Watched (w : Workers) (given : List Nat) : Prop where
  held_of_live : ∀ i, w.IsLive i → w.held = some i ∨ i ∈ given
  held_lt : ∀ i, w.held = some i → i < w.phases.length
  of_given : ∀ i ∈ given, i < w.phases.length ∧ w.held ≠ some i
  down_of_held : ∀ i, w.held = some i → w.stopping = false → w.signal = false
  up_of_stopping : w.stopping = true → w.signal = true

theorem watched_idle : idle.Watched [] where
  held_of_live i hlive := absurd hlive.1 (Nat.not_lt_zero i)
  held_lt i h := by cases h
  of_given i h := by cases h
  down_of_held i h := by cases h
  up_of_stopping h := by cases h

theorem isLive_started {w₁ : Workers} (hphases : w₁.phases = w.phases++[.looking]) :
    w₁.IsLive i ↔ w.IsLive i ∨ i = w.phases.length := by
  rcases Nat.lt_trichotomy i w.phases.length with hlt | rfl | hgt
  · simp [IsLive,hasEnded,hphases,hlt,Nat.ne_of_lt hlt,Nat.lt_succ_of_lt hlt]
  · simp [IsLive,hasEnded,hphases]
  · have hnot : ¬ i < w.phases.length+1 := by omega
    simp [IsLive,hphases,hnot,Nat.ne_of_gt hgt,Nat.lt_asymm hgt]

theorem mem_givenUp? {early : Bool} :
    i ∈ (w.givenUp? (.release early)).toList ↔ w.held = some i ∧ w.hasEnded i = false := by
  simp [givenUp?,Option.filter_eq_some_iff]

theorem Watched.move (hw : w.Watched given) (h : w.move? m = some w') :
    w'.Watched (given++(w.givenUp? m).toList) := by
  cases moved h with
  | kept => simpa [givenUp?] using hw
  | started hs hended =>
    simp only [givenUp?,Option.toList_none,List.append_nil]
    refine ⟨fun i hlive => ?_,fun i hheld => ?_,fun i hi => ?_,fun i hheld _ => rfl,fun hs' => ?_⟩
    · rcases (isLive_started rfl).mp hlive with hlive | rfl
      · refine .inr ((hw.held_of_live i hlive).resolve_left fun hheld => ?_)
        simpa [hlive.2] using hended i hheld
      · exact .inl rfl
    · cases hheld
      simp
    · have hlt := (hw.of_given i hi).1
      simp [Nat.lt_succ_of_lt hlt,Nat.ne_of_gt hlt]
    · rw [hs] at hs'
      cases hs'
  | stopped hs =>
    simpa [givenUp?] using ⟨hw.held_of_live,hw.held_lt,hw.of_given,by simp,by simp⟩
  | released early hs hended =>
    refine ⟨fun i hlive => ?_,by simp,fun i hi => ⟨?_,by simp⟩,by simp,by simp⟩
    · rcases hw.held_of_live i hlive with hheld | hi
      · exact .inr (List.mem_append_right given (mem_givenUp?.mpr ⟨hheld,hlive.2⟩))
      · exact .inr (List.mem_append_left _ hi)
    · rcases List.mem_append.mp hi with hi | hi
      · exact (hw.of_given i hi).1
      · exact hw.held_lt i (mem_givenUp?.mp hi).1
  | worked k hk =>
    have hlength := length_of_move h (by simp)
    simp only [givenUp?,Option.toList_none,List.append_nil]
    refine ⟨fun i hlive => ?_,fun i hheld => ?_,fun i hi => ?_,hw.down_of_held,hw.up_of_stopping⟩
    · exact hw.held_of_live i (hlive.before h (hlength ▸ hlive.1))
    · exact hlength ▸ hw.held_lt i hheld
    · exact hlength ▸ hw.of_given i hi

theorem Watched.moves (hw : w.Watched given) (h : w.moves? ms = some w') :
    w'.Watched (given++w.abandoned ms) := by
  induction ms generalizing w given with
  | nil =>
    cases h
    simpa [abandoned] using hw
  | cons m ms ih =>
    rw [moves?_cons,Option.bind_eq_some_iff] at h
    obtain ⟨w₁,hm,h⟩ := h
    simpa [abandoned,hm] using ih (hw.move hm) h

theorem watched (h : idle.moves? ms = some w) : w.Watched (idle.abandoned ms) := watched_idle.moves h

theorem abandoned_eq_nil (hms : .release true ∉ ms) : w.abandoned ms = [] := by
  induction ms generalizing w with
  | nil => rfl
  | cons m ms ih =>
    simp only [List.mem_cons,not_or] at hms
    rw [abandoned]
    cases hm : w.move? m with
    | none => rfl
    | some w' =>
      have hnone : w.givenUp? m = none := by
        cases moved hm with
        | released early hs hended =>
          cases early with
          | true => exact absurd rfl hms.1
          | false =>
            refine Option.filter_eq_none_iff.mpr fun i hheld => ?_
            simp [hended rfl i hheld]
        | kept | started | stopped | worked => rfl
      simp [hnone,ih hms.2]

theorem not_overlaps (hms : .release true ∉ ms) : ¬ Overlaps ms := by
  rintro ⟨before,after,w,i,rfl,-,hi,-⟩
  rw [abandoned_eq_nil fun h => hms (List.mem_append_left _ h)] at hi
  cases hi

/-- As long as no start comes too early, a worker that was given up has ended or finds the signal up. -/
theorem up_of_abandoned (h : idle.moves? ms = some w) (hms : ¬ Overlaps ms) (hi : i ∈ idle.abandoned ms)
    (hlive : w.IsLive i) : w.signal = true := by
  -- from the last move back: a start would overlap, and any other move leaves up what a stop has put up
  induction ms using List.reverseRecOn generalizing w with
  | nil => cases hi
  | append_singleton ms m ih =>
    obtain ⟨w₁,hms₁,hm⟩ := moves?_concat h
    have hw := watched hms₁
    have hearlier : ¬ Overlaps ms := by
      rintro ⟨ms₁,ms₂,w₂,k,rfl,hk⟩
      exact hms ⟨ms₁,ms₂++[m],w₂,k,by simp,hk⟩
    rw [abandoned_concat hms₁ hm,List.mem_append] at hi
    by_cases hstart : m = .start
    · subst hstart
      have hi : i ∈ idle.abandoned ms := by simpa [givenUp?] using hi
      exact absurd ⟨ms,[],w₁,i,rfl,hms₁,hi,hlive.before hm (hw.of_given i hi).1⟩ hms
    · have hlive₁ := hlive.before hm (length_of_move hm hstart ▸ hlive.1)
      refine signal_of_move hm hstart ?_
      rcases hi with hi | hi
      · exact ih hms₁ hearlier hi hlive₁
      · cases moved hm with
        | released early hs => exact hw.up_of_stopping hs
        | kept | started | stopped | worked => simp [givenUp?] at hi

/-- Right after a start that comes too early two workers go on. -/
theorem two_of_overlap (h : idle.moves? ms = some w) (hi : i ∈ idle.abandoned ms) (hlive : w.IsLive i)
    (hm : w.move? .start = some w') : ∃ j, j ≠ i ∧ w'.CanBegin i ∧ w'.CanBegin j := by
  have hw := watched h
  simp only [canBegin_iff,mayPass_iff]
  cases moved hm with
  | kept hs j hheld hended =>
    have hdown := hw.down_of_held j hheld hs
    have hne : j ≠ i := fun he => (hw.of_given i hi).2 (he ▸ hheld)
    exact ⟨j,hne,⟨hdown,hlive⟩,hdown,hw.held_lt j hheld,hended⟩
  | started hs hended =>
    exact ⟨w.phases.length,Nat.ne_of_gt hlive.1,⟨rfl,(isLive_started rfl).mpr (.inl hlive)⟩,rfl,
      (isLive_started rfl).mpr (.inr rfl)⟩

theorem not_canBegin_of_stopped {early : Bool} {before after : List Move}
    (h : idle.moves? (before++.release early::after) = some w) (hafter : .start ∉ after) : ¬ w.CanBegin i := by
  rw [moves?_append,Option.bind_eq_some_iff] at h
  obtain ⟨w₁,hbefore,h⟩ := h
  rw [moves?_cons,Option.bind_eq_some_iff] at h
  obtain ⟨w₂,hrelease,h⟩ := h
  intro hi
  have hdown := (mayPass_iff.mp (mayPass_of_moves h hafter (canBegin_iff.mp hi))).1
  cases moved hrelease with
  | released early hs =>
    have hup : w₁.signal = true := (watched hbefore).up_of_stopping hs
    simp [hup] at hdown

/-! A stop that waits to the end. -/

/-- By its own steps alone the worker comes to its end. -/
def Ends (w : Workers) (i : Nat) : Prop :=
  ∃ k w', w.moves? (List.replicate k (.work i)) = some w' ∧ w'.hasEnded i = true ∧ w'.held = w.held ∧
    w'.stopping = w.stopping

theorem ends_of_hasEnded (h : w.hasEnded i = true) : w.Ends i := ⟨0,w,rfl,h,rfl,rfl⟩

theorem ends_of_work (hi : i < w.phases.length)
    (h : { w with phases := w.phases.modify i (Phase.next w.signal) }.Ends i) : w.Ends i := by
  obtain ⟨k,w',h,hended⟩ := h
  refine ⟨k+1,w',?_,hended⟩
  rw [List.replicate_succ,moves?_cons,move?,if_pos hi]
  exact h

theorem ends (hup : w.signal = true) (hi : i < w.phases.length) : w.Ends i := by
  cases hp : w.phases[i] with
  | ended => exact ends_of_hasEnded (by simp [hasEnded,hi,hp])
  | looking => exact ends_of_work hi (ends_of_hasEnded (by simp [hasEnded,hi,hp,hup]))
  | waiting =>
    refine ends_of_work hi (ends_of_work (by simpa using hi) (ends_of_hasEnded ?_))
    simp [hasEnded,hi,hp,hup,Phase.next]
  | passing =>
    refine ends_of_work hi (ends_of_work (by simpa using hi) (ends_of_work (by simpa using hi) (ends_of_hasEnded ?_)))
    simp [hasEnded,hi,hp,hup,Phase.next]

theorem exists_stop (hw : w.Watched given) (hs : w.stopping = false) :
    ∃ meanwhile w', w.moves? (wholeStop meanwhile) = some w' := by
  let up : Workers := { w with signal := true, stopping := true }
  have hup : w.move? .stop = some up := by simp [move?,hs,up]
  cases hheld : w.held with
  | none =>
    refine ⟨[],{ up with held := none, stopping := false },?_⟩
    have hrelease : up.move? (.release false) = some { up with held := none, stopping := false } := by
      simp [move?,up,hheld]
    simp [wholeStop,hup,hrelease]
  | some i =>
    obtain ⟨k,w',h,hended,hheld',hs'⟩ := ends (w := up) rfl (hw.held_lt i hheld)
    refine ⟨List.replicate k i,{ w' with held := none, stopping := false },?_⟩
    have hrelease : w'.move? (.release false) = some { w' with held := none, stopping := false } := by
      simp [move?,hs',hheld',up,hheld,hended]
    rw [wholeStop,moves?_cons,hup,List.map_replicate,Option.bind_some,moves?_append,h]
    simp [hrelease]

theorem free_of_stop {meanwhile : List Nat} (h : w.moves? (wholeStop meanwhile) = some w') :
    w'.held = none ∧ w'.stopping = false := by
  rw [wholeStop,← List.cons_append] at h
  obtain ⟨w₁,-,h⟩ := moves?_concat h
  cases moved h with
  | released => exact ⟨rfl,rfl⟩

theorem Watched.not_isLive (hw : w.Watched []) (hheld : w.held = none) : ¬ w.IsLive i := fun hlive => by
  simpa [hheld] using hw.held_of_live i hlive

theorem Watched.ended (hw : w.Watched []) (hheld : w.held = none) : ∀ phase ∈ w.phases, phase = .ended := by
  intro phase hphase
  obtain ⟨i,hi,rfl⟩ := List.mem_iff_getElem.mp hphase
  by_contra hne
  exact hw.not_isLive hheld ⟨hi,by simpa [hasEnded,hi] using hne⟩

theorem canBegin_start (hheld : w.held = none) : w.start.CanBegin i ↔ w.IsLive i ∨ i = w.phases.length := by
  have hstart : w.start = { w with signal := false, held := some w.phases.length, phases := w.phases++[.looking] } := by
    simp [start,hheld]
  rw [hstart,canBegin_iff,mayPass_iff,isLive_started rfl]
  simp

theorem at_most_one_goes_on (h : idle.moves? ms = some w) :
    (¬ Overlaps ms → ∀ i j, w.CanBegin i → w.CanBegin j → i = j) ∧
    (∀ before early after, ms = before++.release early::after → .start ∉ after → ∀ i, ¬ w.CanBegin i) ∧
    (∀ i ∈ idle.abandoned ms, w.IsLive i → ∀ w', w.move? .start = some w' →
      ∃ j, j ≠ i ∧ w'.CanBegin i ∧ w'.CanBegin j) := by
  refine ⟨fun hms i j hi hj => ?_,?_,fun i hi hlive w' hm => two_of_overlap h hi hlive hm⟩
  · have held {i : Nat} (hi : w.CanBegin i) : w.held = some i := by
      obtain ⟨hdown,hlive⟩ := mayPass_iff.mp (canBegin_iff.mp hi)
      refine ((watched h).held_of_live i hlive).resolve_right fun hgiven => ?_
      simp [up_of_abandoned h hms hgiven hlive] at hdown
    exact Option.some.inj ((held hi).symm.trans (held hj))
  · rintro before early after rfl hafter i
    exact not_canBegin_of_stopped h hafter

theorem at_most_one_goes_on_twice :
    idle.moves? [.start,.work 0,.stop,.work 0,.work 0,.work 0,.release false,.start] =
      some ⟨false,some 1,false,[.ended,.looking]⟩ ∧
    (∀ i j, CanBegin ⟨false,some 1,false,[.ended,.looking]⟩ i →
      CanBegin ⟨false,some 1,false,[.ended,.looking]⟩ j → i = j) ∧
    CanBegin ⟨false,some 1,false,[.ended,.looking]⟩ 1 ∧
    idle.moves? [.start,.work 0,.stop,.release true] = some ⟨true,none,false,[.passing]⟩ ∧
    ∀ i, ¬ CanBegin ⟨true,none,false,[.passing]⟩ i := by
  have hwaited : idle.moves? [.start,.work 0,.stop,.work 0,.work 0,.work 0,.release false,.start] =
      some ⟨false,some 1,false,[.ended,.looking]⟩ := by decide
  have hcut : idle.moves? [.start,.work 0,.stop,.release true] = some ⟨true,none,false,[.passing]⟩ := by decide
  exact ⟨hwaited,(at_most_one_goes_on hwaited).1 (not_overlaps (by decide)),canBegin_iff.mpr rfl,hcut,
    (at_most_one_goes_on hcut).2.1 [.start,.work 0,.stop] true [] rfl (by decide)⟩

theorem two_go_on : ∃ w,
    idle.moves? [.start,.work 0,.stop,.release true,.start] = some w ∧ w.CanBegin 0 ∧ w.CanBegin 1 ∧
    w.moves? [.work 0,.work 0,.work 0,.work 1] = some ⟨false,some 1,false,[.passing,.passing]⟩ :=
  ⟨⟨false,some 1,false,[.passing,.looking]⟩,by decide,canBegin_iff.mpr rfl,canBegin_iff.mpr rfl,by decide⟩

end Workers
end HealthRollup
