import HealthRollup.Proofs.Elapsed
import HealthRollup.Proofs.Timestamps
import HealthRollup.Proofs.Turns

/-! The rate limit over whole runs. The time that a pass writes with a scope stays with it until a pass
writes it again, the gate of a later pass reads it back as it was, and compares it exactly. -/
namespace HealthRollup

namespace Objects
open Aggregation Fields

def stampOf (n : String) (o : Objects) : Option Value :=
  ((o .scopes n).bind (Value.field? "status")).bind (Value.field? "lastAggregateTimestamp")

/-- What others may do: all but touch the recorded time or give the scope's name to another object. -/
structure Others (n : String) (o o' : Objects) : Prop where
  stamp : stampOf n o' = stampOf n o
  titled : o.Titled n → o'.Titled n

/-- The scope has this time recorded, and no other object has its name. -/
structure Bears (n : String) (v : Value) (o : Objects) : Prop where
  titled : o.Titled n
  stamp : stampOf n o = some v

theorem Bears.others {n : String} {v : Value} {o o' : Objects} (h : Bears n v o)
    (ho : Others n o o') : Bears n v o' :=
  ⟨ho.titled h.titled,ho.stamp.trans h.stamp⟩

theorem stampOf_of_meets {n : String} {e : Event} {o o' : Objects} (hm : o.Meets e o')
    (hq : ¬ e.Writes n) : stampOf n o' = stampOf n o := by
  by_cases hp : e.IsPatched
  · match e, hp with
    | .asked (.patch k m b) (.ok w), _ =>
      obtain ⟨v,-,rfl⟩ := hm
      have hne : ¬ (Kind.scopes = k ∧ n = m) := by
        rintro ⟨rfl,rfl⟩
        exact hq rfl
      simp only [stampOf,put_of_ne _ _ _ _ _ _ hne]
  · rw [Event.meets_of_not_isPatched hp hm]

/-- After a write-back the recorded time is that of the new block, whatever was there before. -/
theorem stampOf_of_written {scope : Scope} {status : ScopeStatus} {stamp : String} {w : Value}
    {o o' : Objects} (hat : status.aggregatedAt = .text stamp)
    (hm : o.Meets (.asked (patchOf scope status) (.ok w)) o') :
    stampOf scope.name o' = some (.text stamp) := by
  obtain ⟨v,-,rfl⟩ := hm
  have hget : get? "lastAggregateTimestamp" status.toFields = some (.text stamp) := by
    simp [ScopeStatus.get?_stamp_toFields,hat]
  have hkey : "lastAggregateTimestamp" ∈ keys status.toFields :=
    (mem_keys_iff _ _).mpr (by simp [hget])
  simp only [stampOf,put_self,replacement,Value.merge_field,Option.bind_some,Value.field?_record,
    get?_put,if_true,get?_patchedBlock _ _ _ _ _ hat,if_pos hkey,hget]

/-- A patch that succeeds is a write-back of a scope. -/
def OnlyBack (e : Event) : Prop :=
  e.IsPatched → ∃ scope status w, e = .asked (patchOf scope status) (.ok w)

theorem Titled.of_meets {n : String} {e : Event} {o o' : Objects} (ht : o.Titled n)
    (hm : o.Meets e o') (hb : OnlyBack e) : o'.Titled n := by
  by_cases hp : e.IsPatched
  · obtain ⟨scope,status,w,rfl⟩ := hb hp
    obtain ⟨v,hv,rfl⟩ := hm
    exact ht.put hv
  · rw [Event.meets_of_not_isPatched hp hm]
    exact ht

theorem Bears.of_meets {n : String} {x : Value} {e : Event} {o o' : Objects} (h : Bears n x o)
    (hm : o.Meets e o') (hb : OnlyBack e) (hq : ¬ e.Writes n) : Bears n x o' :=
  ⟨h.titled.of_meets hm hb,(stampOf_of_meets hm hq).trans h.stamp⟩

end Objects

theorem Scope.aggregatedAt_of_ofValue {raw v : Value} {scope : Scope} (h : ofValue raw = .ok scope)
    (hv : (raw.field? "status").bind (Value.field? "lastAggregateTimestamp") = some v) :
    ∃ status, scope.status = some status ∧ status.aggregatedAt = v := by
  obtain ⟨-,fs,rfl,hfs⟩ := (ofValue_eq_ok_iff raw scope).mp h
  obtain ⟨_,_,-,-,-,-,-,-,hstatus,-⟩ := (ofFields_eq_ok_iff fs scope).mp hfs
  obtain ⟨w,hw,hget⟩ := Option.bind_eq_some_iff.mp hv
  rw [Value.field?_record] at hw
  rw [hw] at hstatus
  cases w with
  | record bs =>
    cases hbs : ScopeStatus.ofFields bs with
    | error f => simp [ScopeStatus.ofValue?,hbs,Except.map] at hstatus
    | ok status =>
      have hs : some status = scope.status := by
        simpa [ScopeStatus.ofValue?,hbs,Except.map] using hstatus
      have ht := ((ScopeStatus.ofFields_eq_ok_iff bs status).mp hbs).2
      refine ⟨status,hs.symm,?_⟩
      rw [Value.field?_record] at hget
      simp [← ht,Fields.value,hget]
  | null | bool | num | text | list => simp [Value.field?] at hget

namespace Pass
open Program Aggregation Objects

section Turns
variable {σ : Type} {p : Platform σ} {standard : Value} {view : σ → Objects} {n : String}

theorem onlyBack_of_item {raw : Value} {s : σ} {e : Event}
    (h : e ∈ events p (item standard raw) s) : OnlyBack e := by
  intro he
  obtain ⟨scope,status,w,-,hw,-⟩ := patched_of_item h he
  exact ⟨scope,status,w,hw⟩

theorem onlyBack_of_once {st : σ} {e : Event} (h : e ∈ events p (once standard) st) : OnlyBack e := by
  intro he
  obtain ⟨raw,s,-,hm⟩ := exists_turn_of_isPatched h he
  exact onlyBack_of_item hm he

theorem named_of_writes {raw : Value} {s : σ} {e : Event} (h : e ∈ events p (item standard raw) s)
    (he : e.Writes n) : Scope.nameShown raw = some (.text n) := by
  obtain ⟨scope,status,w,hread,rfl,-⟩ := patched_of_item h he.isPatched
  have hn : scope.name = n := he
  rw [← hn]
  exact Scope.nameShown_of_ofValue hread

variable (hp : p.Faithful view (Others n))
include hp

theorem titled_after (raws : List Value) (s : σ) (ht : (view s).Titled n) :
    (view (after p standard raws s)).Titled n :=
  after_keeps hp (fun _ _ ho h => ho.titled h) raws
    (fun _ _ _ _ he _ _ hm h => h.of_meets hm (onlyBack_of_item he)) s ht

theorem bears_of_pass {st : σ} {v : Value} (h : Bears n v (view st))
    (hq : ∀ e ∈ events p (once standard) st, ¬ e.Writes n) :
    Bears n v (view (run p (once standard) st).state) :=
  (follows_run hp (once standard) st).keeps (fun _ _ ho h => h.others ho)
    (fun e he _ _ hm h => h.of_meets hm (onlyBack_of_once he) (hq e he)) h

theorem Turn.unique {st s s' : σ} {raw raw' : Value} (ht : (view st).Titled n)
    (h : Turn p standard st raw s) (h' : Turn p standard st raw' s')
    (hn : Scope.nameShown raw = some (.text n)) (hn' : Scope.nameShown raw' = some (.text n)) :
    raw = raw' ∧ s = s' := by
  obtain ⟨before,rest,hlist,rfl⟩ := h.listed
  obtain ⟨before',rest',hlist',rfl⟩ := h'.listed
  obtain ⟨ho,hl⟩ := lists_of_answer hp hlist
  have hsame : before++raw::rest = before'++raw'::rest' := Except.ok.inj (hlist.symm.trans hlist')
  have hi : (before++raw::rest)[before.length]? = some raw := by simp
  have hj : (before++raw::rest)[before'.length]? = some raw' := by simp [hsame]
  have hlength := (ho.titled ht).unique hl hi hj hn hn'
  obtain ⟨hb,hrest⟩ := List.append_inj hsame hlength
  subst hb
  exact ⟨(List.cons.inj hrest).1,rfl⟩

theorem Turn.mem_of_writes {st s : σ} {raw : Value} (h : Turn p standard st raw s)
    (ht : (view st).Titled n) (hn : Scope.nameShown raw = some (.text n)) {e : Event}
    (he : e ∈ events p (once standard) st) (hw : e.Writes n) :
    e ∈ events p (item standard raw) s := by
  obtain ⟨raw',s',turn,hm⟩ := exists_turn_of_isPatched he hw.isPatched
  obtain ⟨rfl,rfl⟩ := Turn.unique hp ht h turn hn (named_of_writes hm hw)
  exact hm

theorem bears_of_written {s : σ} {scope scope' : Scope} {gateAt t : Moment}
    (ht : (view s).Titled n) (hname : scope.name = n)
    (hw : (run p (ofScope standard scope) s).result = .ok (.written scope'))
    (hclock : (events p (ofScope standard scope) s).filterMap Event.reading? =
      [.ok gateAt,.ok t]) :
    ∃ stamp, t.timestamp? = some stamp ∧
      Bears n (.text stamp) (view (run p (ofScope standard scope) s).state) := by
  have hc := course_of_run p standard scope s
  rw [hw] at hc
  obtain ⟨gateAt',stampedAt,reads,before,status,w,hready,he,-⟩ := hc.of_written
  obtain ⟨stamp,hstamp,hat⟩ := hready.stamped
  have hlast : stampedAt = t := by
    rw [he,List.filterMap_append,hready.readings] at hclock
    have hreading : Event.reading? (.asked (patchOf scope status) (.ok w)) = none := rfl
    simp only [List.filterMap_cons,hreading,List.filterMap_nil,List.append_nil,List.cons.injEq,
      Except.ok.injEq,and_true] at hclock
    exact hclock.2
  rw [hlast] at hstamp
  refine ⟨stamp,timestamp_eq_ok_iff.mp hstamp,?_⟩
  have hf := follows_run hp (ofScope standard scope) s
  rw [he,follows_append_iff] at hf
  obtain ⟨o,hbefore,hpatch⟩ := hf
  have hto : o.Titled n := hbefore.keeps (fun _ _ ho h => ho.titled h)
    (fun e hm _ _ hmeets h => h.of_meets hmeets fun hpatched =>
      absurd hpatched (hready.isPreparing e hm).not_isPatched) ht
  cases hpatch with
  | cons _ o₁ o₂ _ _ _ hm hmeets hrest =>
    cases hrest
    refine ⟨(hm.titled hto).of_meets hmeets fun _ => ⟨scope,status,w,rfl⟩,?_⟩
    rw [← hname]
    exact stampOf_of_written hat hmeets

theorem bears_of_turn {st s : σ} {raw : Value} {scope scope' : Scope} {gateAt t : Moment}
    (ht : (view st).Titled n) (turn : Turn p standard st raw s)
    (hread : Scope.ofValue raw = .ok scope) (hname : scope.name = n)
    (hw : (run p (item standard raw) s).result = .ok (.written scope'))
    (hclock : (events p (item standard raw) s).filterMap Event.reading? = [.ok gateAt,.ok t]) :
    ∃ stamp, t.timestamp? = some stamp ∧
      Bears n (.text stamp) (view (run p (once standard) st).state) := by
  obtain ⟨before,rest,hlist,rfl⟩ := turn.listed
  obtain ⟨ho,hl⟩ := lists_of_answer hp hlist
  have htl := ho.titled ht
  have hts : (view (after p standard before (p.answer (.list .scopes) st).2)).Titled n :=
    titled_after hp before _ htl
  have hitem : item standard raw = ofScope standard scope := item_of_read hread
  rw [hitem] at hw hclock
  obtain ⟨stamp,hstamp,hbears⟩ := bears_of_written hp hts hname hw hclock
  refine ⟨stamp,hstamp,?_⟩
  rw [run_once_state hlist,after_append,after,hitem]
  refine after_keeps hp (fun _ _ ho h => h.others ho) rest ?_ _ hbears
  intro raw' hm s e he o o' hmeets h
  refine h.of_meets hmeets (onlyBack_of_item he) fun hwrites => ?_
  obtain ⟨k,hk⟩ := List.getElem?_of_mem hm
  have hi : (before++raw::rest)[before.length]? = some raw := by simp
  have hj : (before++raw::rest)[before.length+(k+1)]? = some raw' := by
    rw [List.getElem?_append_right (by omega),Nat.add_sub_cancel_left,List.getElem?_cons_succ,hk]
  have hnamed : Scope.nameShown raw = some (.text n) := by
    rw [← hname]
    exact Scope.nameShown_of_ofValue hread
  have hsame := htl.unique hl hi hj hnamed (named_of_writes he hwrites)
  omega

theorem aggregatedAt_of_turn {st s : σ} {raw v : Value} {scope : Scope} (h : Bears n v (view st))
    (turn : Turn p standard st raw s) (hread : Scope.ofValue raw = .ok scope)
    (hname : scope.name = n) : ∃ status, scope.status = some status ∧ status.aggregatedAt = v := by
  obtain ⟨before,rest,hlist,rfl⟩ := turn.listed
  obtain ⟨ho,hl⟩ := lists_of_answer hp hlist
  have hb := h.others ho
  have hnamed : Scope.nameShown raw = some (.text n) := by
    rw [← hname]
    exact Scope.nameShown_of_ofValue hread
  obtain ⟨m,hm⟩ := hl.stored (v:=raw) (by simp)
  have hmn : m = n := hb.titled m raw hm hnamed
  subst hmn
  refine Scope.aggregatedAt_of_ofValue hread ?_
  have hstamp := hb.stamp
  rwa [stampOf,hm,Option.bind_some] at hstamp

end Turns

/-- Passes one after the other. Before each of them others may have moved the objects. -/
structure Rounds {σ : Type} (p : Platform σ) (view : σ → Objects) (n : String) where
  standard : Nat → Value
  state : Nat → σ
  others : ∀ k, Others n (view (run p (once (standard k)) (state k)).state) (view (state (k+1)))

/-- The recorded time stays over passes that do not write the scope. -/
theorem Rounds.bears {σ : Type} {p : Platform σ} {view : σ → Objects} {n : String}
    (hp : p.Faithful view (Others n)) (r : Rounds p view n) {v : Value} {a b : Nat} (hab : a < b)
    (h : Bears n v (view (run p (once (r.standard a)) (r.state a)).state))
    (hq : ∀ c, a < c → c < b → ∀ e ∈ events p (once (r.standard c)) (r.state c), ¬ e.Writes n) :
    Bears n v (view (r.state b)) := by
  induction b with
  | zero => omega
  | succ b ih =>
    refine Bears.others ?_ (r.others b)
    by_cases hlast : a = b
    · subst hlast
      exact h
    · have hb := ih (by omega) fun c h₁ h₂ => hq c h₁ (by omega)
      exact bears_of_pass hp hb (hq b (by omega) (by omega))

/-- The passes of one process, with nobody else around. -/
def Rounds.alone {σ : Type} (p : Platform σ) (view : σ → Objects) (n : String) (standard : Value)
    (st : σ) : Rounds p view n where
  standard _ := standard
  state k := k.rec st fun _ s => (run p (once standard) s).state
  others _ := ⟨rfl,id⟩

/-- Two moments of the years 1 to 9999 are not too far apart for the gate. -/
theorem natAbs_sub_lt {m m' u u' : Moment} (h : m.utc? = some u) (h' : m'.utc? = some u') :
    (m'.instant-m.instant).natAbs < 2^60 := by
  obtain ⟨-,-,-,-,hlo,hhi⟩ := Moment.utc?_spec h
  obtain ⟨-,-,-,-,hlo',hhi'⟩ := Moment.utc?_spec h'
  simp only [Date.lastOrdinal,TimeOfDay.dayLength] at hhi hhi'
  omega

/-- The gate of a scope whose recorded time was written as `t`. -/
theorem passes_iff_of_recorded {scope : Scope} {status : ScopeStatus} {standard : Value}
    {stamp : String} {t g : Moment} {x : Number} {i : Int} (hs : scope.status = some status)
    (hat : status.aggregatedAt = .text stamp) (hstamp : t.timestamp? = some stamp)
    (hg : g.utc?.isSome) (hx : scope.interval.orElse standard = .num x) (hi : x.IsInteger i)
    (h1 : 1 ≤ i) (h34 : i ≤ 2^34) :
    (∃ d, Passes standard scope g d) ↔ i*1000000 ≤ g.instant-t.instant := by
  have hcheck : Gate.check scope.status (scope.interval.orElse standard) g =
      .ok ⟨decide (i*1000000 ≤ g.instant-t.instant),[]⟩ := by
    obtain ⟨u,hu,hread⟩ := Timestamp.read_timestamp hstamp
    obtain ⟨-,-,-,hinstant,-⟩ := Moment.utc?_spec hu
    obtain ⟨ug,hug⟩ := Option.isSome_iff_exists.mp hg
    have hb := natAbs_sub_lt hu hug
    rw [← hinstant] at hb ⊢
    rw [hs,hx]
    exact Gate.check_of_stamped hat hread hi h1 h34 hb
  constructor
  · rintro ⟨d,hdecided,hdue⟩
    rw [hcheck,Except.ok.injEq] at hdecided
    rw [← hdecided] at hdue
    exact of_decide_eq_true hdue
  · intro hdue
    exact ⟨_,hcheck,decide_eq_true hdue⟩

/-- Over any run of passes, a pass writes a scope again only when its interval has gone by, to the
microsecond, between the time that the last pass to write it recorded and the clock reading at its
gate; and when it has gone by, the pass does write the scope unless something goes wrong. -/
theorem rate_limit {σ : Type} (p : Platform σ) (view : σ → Objects) (n : String)
    (hp : p.Faithful view (Others n)) (r : Rounds p view n) (a b : Nat) (hab : a < b)
    (ht : (view (r.state a)).Titled n)
    (rawA : Value) (sA : σ) (turnA : Turn p (r.standard a) (r.state a) rawA sA)
    (scopeA scopeA' : Scope) (hreadA : Scope.ofValue rawA = .ok scopeA) (hnA : scopeA.name = n)
    (hwA : (run p (item (r.standard a) rawA) sA).result = .ok (.written scopeA'))
    (gA t : Moment) (hclock : (events p (item (r.standard a) rawA) sA).filterMap Event.reading? =
      [.ok gA,.ok t])
    (hq : ∀ c, a < c → c < b → ∀ e ∈ events p (once (r.standard c)) (r.state c), ¬ e.Writes n)
    (rawB : Value) (sB : σ) (turnB : Turn p (r.standard b) (r.state b) rawB sB)
    (scopeB : Scope) (hreadB : Scope.ofValue rawB = .ok scopeB) (hnB : scopeB.name = n)
    (g : Moment) (hg : (p.clock sB).1 = .ok g) (hutc : g.utc?.isSome)
    (x : Number) (hx : scopeB.interval.orElse (r.standard b) = .num x)
    (i : Int) (hi : x.IsInteger i) (h1 : 1 ≤ i) (h34 : i ≤ 2^34) :
    ((∃ e ∈ events p (once (r.standard b)) (r.state b), e.Writes n) →
      i*1000000 ≤ g.instant-t.instant) ∧
    (i*1000000 ≤ g.instant-t.instant → scopeB.isSupported = true →
      (∀ e ∈ events p (item (r.standard b) rawB) sB, e.IsRegular ∧ ¬ e.IsRefused) →
      ∃ e ∈ events p (once (r.standard b)) (r.state b), e.Writes n) := by
  obtain ⟨stamp,hstamp,hbears⟩ := bears_of_turn hp ht turnA hreadA hnA hwA hclock
  have hb := r.bears hp hab hbears hq
  obtain ⟨status,hs,hat⟩ := aggregatedAt_of_turn hp hb turnB hreadB hnB
  have hpasses := passes_iff_of_recorded hs hat hstamp hutc hx hi h1 h34
  have hcourse := course_of_run p (r.standard b) scopeB sB
  have hhead := events_head? p (r.standard b) scopeB sB
  rw [hg] at hhead
  have hitem : item (r.standard b) rawB = ofScope (r.standard b) scopeB := item_of_read hreadB
  constructor
  · rintro ⟨e,he,hwrites⟩
    have hm := turnB.mem_of_writes hp hb.titled (hnB ▸ Scope.nameShown_of_ofValue hreadB) he hwrites
    rw [hitem] at hm
    exact hpasses.mp (hcourse.passed hhead hm hwrites.isPatched)
  · intro hdue hsupported hevents
    rw [hitem] at hevents
    obtain ⟨status',w,hm⟩ := hcourse.accepted hhead (hpasses.mpr hdue) hsupported hevents
    rw [← hitem] at hm
    exact ⟨_,turnB.mem_events hm,hnB⟩

def recorded : ScopeStatus :=
  ⟨some [Shelf.part "db" (.text "healthy"),Shelf.part "web" (.text "unhealthy")],
    .text "2024-05-01T12:00:00.000000+00:00"⟩

def rewritten : Scope :=
  { loaded with status := some recorded, statusKeys := Fields.keys recorded.toFields }

def shopRounds (later : Moment) : Rounds Shelf.platform Shelf.view "shop" :=
  .alone Shelf.platform Shelf.view "shop" (.int 30)
    ⟨Shelf.stocked early,[Shelf.noon,Shelf.noon,later,later]⟩

theorem shopRounds_state (later : Moment) : (shopRounds later).state 1 =
    ⟨Shelf.stocked (Shelf.shop Shelf.probeSpec recorded.toFields),[later,later]⟩ := rfl

/-- The second pass writes the shop half a minute after the first, and no microsecond before. -/
theorem rate_limit_shop :
    (∃ e ∈ events Shelf.platform (once (.int 30))
      ((shopRounds ⟨Shelf.noon.date,⟨12,0,30,0⟩,0⟩).state 1), e.Writes "shop") ∧
    ¬ ∃ e ∈ events Shelf.platform (once (.int 30))
      ((shopRounds ⟨Shelf.noon.date,⟨12,0,29,999999⟩,0⟩).state 1), e.Writes "shop" := by
  have hp : Shelf.platform.Faithful Shelf.view (Others "shop") :=
    Shelf.platform_faithful.of_eq fun _ => ⟨rfl,id⟩
  have turnA (later : Moment) : Turn Shelf.platform (.int 30) ((shopRounds later).state 0)
      (.record early) ((shopRounds later).state 0) := ⟨[],[],rfl,rfl⟩
  have turnB (later : Moment) : Turn Shelf.platform (.int 30) ((shopRounds later).state 1)
      (.record (Shelf.shop Shelf.probeSpec recorded.toFields)) ((shopRounds later).state 1) := by
    rw [shopRounds_state]
    exact ⟨[],[],rfl,rfl⟩
  have clockB (later : Moment) :
      (Shelf.platform.clock ((shopRounds later).state 1)).1 = .ok later := by
    rw [shopRounds_state]
    rfl
  have h (later : Moment) (hutc : later.utc?.isSome) :=
    rate_limit Shelf.platform Shelf.view "shop" hp (shopRounds later) 0 1 (by decide)
      (Shelf.titled_stocked early _) _ _ (turnA later) loaded rewritten rfl rfl rfl
      Shelf.noon Shelf.noon rfl (fun c h₁ h₂ => by omega) _ _ (turnB later) rewritten rfl rfl
      later (clockB later) hutc (.int 30) rfl 30 rfl (by decide) (by decide)
  constructor
  · have hlimit := h ⟨Shelf.noon.date,⟨12,0,30,0⟩,0⟩ (by decide +kernel)
    exact hlimit.2 (by decide +kernel) rfl (by decide +kernel)
  · intro hwrites
    have hlimit := h ⟨Shelf.noon.date,⟨12,0,29,999999⟩,0⟩ (by decide +kernel)
    exact absurd (hlimit.1 hwrites) (by decide +kernel)

end Pass
end HealthRollup
