import HealthRollup.Proofs.Accounting

/-! Isolation. All that a turn changes is the status block of its own scope, and all that it learns comes
from the clock, from components' objects and from its own scope's. Two runs that see the same of these go
the same way. So it makes no difference to a scope which other items have their turns before it or after
it, in what order, or how those turns end, unless the platform answers for it by the block of another. -/
namespace HealthRollup

theorem Fields.remove_put (k : String) (v : Value) (fs : Fields) : remove k (put k v fs) = remove k fs := by
  induction fs with
  | nil => simp [put,remove]
  | cons f fs ih =>
    obtain ⟨a,w⟩ := f
    by_cases ha : a = k
    · simp [put,remove,ha]
    · by_cases hlt : k < a
      · simp [put,remove,ha,hlt]
      · simpa [put,remove,ha,hlt] using ih

/-- An object without its status block. -/
def Value.bare (v : Value) : Fields := Fields.remove "status" v.base

theorem Value.bare_merge (v : Value) (scope : Scope) (status : ScopeStatus) :
    (v.merge (Aggregation.replacement scope status)).bare = v.bare := by
  rw [Aggregation.replacement,merge_field,bare,base_record,Fields.remove_put]
  rfl

/-- The request is about the scope of this name. -/
def Call.Names (c : Call) (n : String) : Prop := c.kind = .scopes ∧ c.name = n

namespace Objects
open Aggregation

/-- The same components, the same scopes of these names, and the same other scopes up to their blocks. -/
structure Alike (own : String → Prop) (o o' : Objects) : Prop where
  components : o .components = o' .components
  own : ∀ n, own n → o .scopes n = o' .scopes n
  others : ∀ n, (o .scopes n).map Value.bare = (o' .scopes n).map Value.bare

namespace Alike
variable {own wider : String → Prop} {o o' o'' : Objects}

theorem refl (own : String → Prop) (o : Objects) : Alike own o o := ⟨rfl,fun _ _ => rfl,fun _ => rfl⟩

theorem trans (h : Alike own o o') (h' : Alike own o' o'') : Alike own o o'' :=
  ⟨h.components.trans h'.components,fun n hn => (h.own n hn).trans (h'.own n hn),
    fun n => (h.others n).trans (h'.others n)⟩

theorem mono (h : Alike wider o o') (hn : ∀ n, own n → wider n) : Alike own o o' :=
  ⟨h.components,fun n ho => h.own n (hn n ho),h.others⟩

theorem put (h : Alike own o o') (k : Kind) (n : String) (v : Value) :
    Alike own (o.put k n v) (o'.put k n v) := by
  refine ⟨funext fun m => ?_,fun m hm => ?_,fun m => ?_⟩
  · simp only [Objects.put,h.components]
  · simp only [Objects.put,h.own m hm]
  · by_cases hp : Kind.scopes = k ∧ m = n
    · simp only [Objects.put,if_pos hp]
    · simpa only [Objects.put,if_neg hp] using h.others m

theorem at_call (h : Alike own o o') {c : Call} (hc : ∀ n, c.Names n → own n) :
    o c.kind c.name = o' c.kind c.name := by
  cases hk : c.kind with
  | components => rw [h.components]
  | scopes => exact h.own c.name (hc c.name ⟨hk,rfl⟩)

theorem of_writeBack {v : Value} {scope : Scope} (status : ScopeStatus)
    (hv : o .scopes scope.name = some v) : Alike (· ≠ scope.name) o
      (o.put .scopes scope.name (v.merge (replacement scope status))) := by
  refine ⟨funext fun m => ?_,fun m hm => ?_,fun m => ?_⟩
  · exact (put_of_ne _ _ _ _ _ _ (by simp)).symm
  · exact (put_of_ne _ _ _ _ _ _ fun h => hm h.2).symm
  · by_cases hm : m = scope.name
    · subst hm
      rw [put_self,hv,Option.map_some,Option.map_some,Value.bare_merge]
    · rw [put_of_ne _ _ _ _ _ _ fun h => hm h.2]

end Alike
end Objects

/-- What requests are answered with, by the objects as they are. -/
abbrev Objects.Rule := (c : Call) → Objects → Except Fault c.Answer

/-- The clock stands still, a patch that succeeds is merged into the object it names, nothing else changes
the objects, and the answer to a request about one object depends on nothing but the request and the objects
as they are. -/
structure Platform.Settled {σ : Type} (p : Platform σ) (view : σ → Objects) (rule : Objects.Rule)
    (t : Except Fault Moment) : Prop extends p.Conserves view where
  still : ∀ s, (p.clock s).1 = t
  patched : ∀ k n b s w, (p.answer (.patch k n b) s).1 = .ok w → ∃ v, view s k n = some v ∧
    view (p.answer (.patch k n b) s).2 = (view s).put k n (v.merge b)
  ruled : ∀ c s, (∀ k, c ≠ .list k) → (p.answer c s).1 = rule c (view s)

/-- The status block of a scope makes no difference to requests about any other object. -/
def Objects.Rule.KeepsApart (rule : Objects.Rule) : Prop :=
  ∀ c o o', (∀ k, c ≠ .list k) → Objects.Alike c.Names o o' → rule c o = rule c o'

def Platform.listing {σ : Type} (raws : List Value) (p : Platform σ) : Platform σ where
  answer
    | .list _, s => (.ok raws,s)
    | .get k n, s => p.answer (.get k n) s
    | .patch k n b, s => p.answer (.patch k n b) s
  clock := p.clock
  isStopping := p.isStopping

/-- A clock reading, a notice, or a request about one component or about one of these scopes. -/
def Event.Within (own : String → Prop) : Event → Prop
  | .asked c _ => (∀ k, c ≠ .list k) ∧ ∀ n, c.Names n → own n
  | .polled _ => False
  | .said _ | .read _ => True

theorem Event.Within.mono {own wider : String → Prop} {e : Event} (h : e.Within own)
    (hn : ∀ n, own n → wider n) : e.Within wider := by
  cases e with
  | asked c r => exact ⟨h.1,fun n hc => hn n (h.2 n hc)⟩
  | said | read | polled => exact h

namespace Program
open Objects
variable {σ α : Type} {p : Platform σ} {view : σ → Objects} {rule : Rule} {t : Except Fault Moment}
  {own : String → Prop}

theorem run_listing (raws : List Value) (x : Program α) (s : σ)
    (hx : ∀ e ∈ events p x s, e.Within own) : run (p.listing raws) x s = run p x s := by
  induction x generalizing s with
  | done a => rfl
  | fail f => rfl
  | say n x ih =>
    have hrest := ih s fun e he => hx e (List.mem_cons_of_mem _ he)
    simp only [run,hrest]
  | clock k ih => exact ih _ _ fun e he => hx e (List.mem_cons_of_mem _ he)
  | poll k ih => exact (hx _ List.mem_cons_self).elim
  | ask c k ih =>
    have hrest := ih (p.answer c s).1 (p.answer c s).2 fun e he => hx e (List.mem_cons_of_mem _ he)
    have hc : Event.Within own (.asked c (p.answer c s).1) := hx _ List.mem_cons_self
    have hsame : (p.listing raws).answer c s = p.answer c s := by
      cases c with
      | list kind => exact absurd rfl (hc.1 kind)
      | get kind n => rfl
      | patch kind n b => rfl
    simp only [run,hsame,hrest]

section Settled
variable (hp : p.Settled view rule t)
include hp

theorem alike_of_writeBacks {n : String} (x : Program α) (s : σ)
    (hx : ∀ e ∈ events p x s, e.IsPatched → ∃ scope status w, scope.name = n ∧
      e = .asked (Aggregation.patchOf scope status) (.ok w)) :
    Alike (· ≠ n) (view s) (view (run p x s).state) := by
  induction x generalizing s with
  | done a => exact .refl _ _
  | fail f => exact .refl _ _
  | say m x ih => exact ih s fun e he => hx e (List.mem_cons_of_mem _ he)
  | clock k ih =>
    have hrest := ih (p.clock s).1 (p.clock s).2 fun e he => hx e (List.mem_cons_of_mem _ he)
    rw [hp.clock s] at hrest
    exact hrest
  | poll k ih => exact ih _ s fun e he => hx e (List.mem_cons_of_mem _ he)
  | ask c k ih =>
    have hrest := ih (p.answer c s).1 (p.answer c s).2 fun e he => hx e (List.mem_cons_of_mem _ he)
    have hnext : Alike (· ≠ n) (view s) (view (p.answer c s).2) := by
      by_cases hq : (Event.asked c (p.answer c s).1).IsPatched
      · obtain ⟨scope,status,w,hn,he⟩ := hx _ List.mem_cons_self hq
        obtain ⟨rfl,hw⟩ := Event.asked.inj he
        obtain ⟨v,hv,hafter⟩ := hp.patched _ _ _ s w (eq_of_heq hw)
        subst hn
        have hback := Alike.of_writeBack status hv
        rw [← hafter] at hback
        exact hback
      · rw [hp.answer c s hq]
        exact .refl _ _
    exact hnext.trans hrest

variable (hrule : rule.KeepsApart)
include hrule

theorem alike_answer {c : Call} (hl : ∀ k, c ≠ .list k) (hc : ∀ n, c.Names n → own n) {s s' : σ}
    (h : Alike own (view s) (view s')) : (p.answer c s').1 = (p.answer c s).1 ∧
      Alike own (view (p.answer c s).2) (view (p.answer c s').2) := by
  have hsame : (p.answer c s').1 = (p.answer c s).1 := by
    rw [hp.ruled c s' hl,hp.ruled c s hl,hrule c _ _ hl (h.mono hc)]
  refine ⟨hsame,?_⟩
  by_cases hq : (Event.asked c (p.answer c s).1).IsPatched
  · cases c with
    | list k => exact absurd rfl (hl k)
    | get k n =>
      cases hr : (p.answer (.get k n) s).1 <;> exact (hr ▸ hq).elim
    | patch k n b =>
      cases hr : (p.answer (.patch k n b) s).1 with
      | error f => simp [hr,Event.IsPatched] at hq
      | ok w =>
        obtain ⟨v,hv,hafter⟩ := hp.patched k n b s w hr
        obtain ⟨v',hv',hafter'⟩ := hp.patched k n b s' w (hsame.trans hr)
        have hfound : view s k n = view s' k n := h.at_call hc
        have hvv : v = v' := Option.some.inj (hv.symm.trans (hfound.trans hv'))
        rw [hafter,hafter',hvv]
        exact h.put k n _
  · have hq' : ¬ (Event.asked c (p.answer c s').1).IsPatched := by rwa [hsame]
    rw [hp.answer c s hq,hp.answer c s' hq']
    exact h

/-- Two runs that see the same go the same way. -/
theorem alike_run (x : Program α) {s s' : σ} (h : Alike own (view s) (view s'))
    (hx : ∀ e ∈ events p x s, e.Within own) : (run p x s').result = (run p x s).result ∧
      Alike own (view (run p x s).state) (view (run p x s').state) := by
  induction x generalizing s s' with
  | done a => exact ⟨rfl,h⟩
  | fail f => exact ⟨rfl,h⟩
  | say n x ih => exact ih h fun e he => hx e (List.mem_cons_of_mem _ he)
  | clock k ih =>
    have hread : (p.clock s').1 = (p.clock s).1 := (hp.still s').trans (hp.still s).symm
    have hnext : Alike own (view (p.clock s).2) (view (p.clock s').2) := by
      rw [hp.clock s,hp.clock s']
      exact h
    have hrest := ih (p.clock s).1 hnext fun e he => hx e (List.mem_cons_of_mem _ he)
    simpa only [run,hread] using hrest
  | poll k ih => exact (hx _ List.mem_cons_self).elim
  | ask c k ih =>
    have hc : Event.Within own (.asked c (p.answer c s).1) := hx _ List.mem_cons_self
    obtain ⟨hsame,hnext⟩ := alike_answer hp hrule hc.1 hc.2 h
    have hrest := ih (p.answer c s).1 hnext fun e he => hx e (List.mem_cons_of_mem _ he)
    simpa only [run,hsame,Outcome.after_result,Outcome.after_state] using hrest

end Settled

end Program

namespace Aggregation
open Program Objects

theorem within_of_isPreparing {e : Event} (h : IsPreparing e) (own : String → Prop) : e.Within own := by
  match e, h with
  | .asked (.get .components n) a, _ => exact ⟨by simp,fun m hm => by cases hm.1⟩
  | .said n, _ => trivial
  | .read t, _ => trivial

theorem Course.within {standard : Value} {scope : Scope} {es : List Event}
    {r : Except Fault Aggregation} (h : Course standard scope es r) :
    ∀ e ∈ es, e.Within (· = scope.name) := by
  rcases h.isPreparing_or_patch with hall | ⟨before,status,a,hall,rfl,-⟩
  · exact fun e he => within_of_isPreparing (hall e he) _
  · intro e he
    rcases List.mem_append.mp he with he | he
    · exact within_of_isPreparing (hall e he) _
    · rw [List.mem_singleton.mp he]
      exact ⟨by simp [patchOf],fun n hn => hn.2.symm⟩

end Aggregation

namespace Report
open Aggregation

theorem foldl_count_perm {as bs : List (Except Fault Aggregation)} (h : as.Perm bs) (r : Report) :
    as.foldl count r = bs.foldl count r := by
  rw [foldl_count,foldl_count,h.length_eq,h.countP_eq,h.countP_eq,h.countP_eq]

end Report

namespace Pass
open Program Aggregation Objects

def nameOf? (raw : Value) : Option String := (Scope.ofValue raw).toOption.map Scope.name

theorem exists_of_nameOf? {raw : Value} {n : String} (h : nameOf? raw = some n) :
    ∃ scope, Scope.ofValue raw = .ok scope ∧ scope.name = n := by
  cases hread : Scope.ofValue raw with
  | error f =>
    rw [nameOf?,hread] at h
    cases h
  | ok scope =>
    rw [nameOf?,hread] at h
    exact ⟨scope,rfl,Option.some.inj h⟩

theorem nameOf?_of_read {raw : Value} {scope : Scope} (h : Scope.ofValue raw = .ok scope) :
    nameOf? raw = some scope.name := by
  rw [nameOf?,h]
  rfl

section Turns
variable {σ : Type} {p : Platform σ} {view : σ → Objects} {rule : Rule} {t : Except Fault Moment}
  {standard : Value}

theorem within_of_item (raw : Value) (s : σ) :
    ∀ e ∈ events p (item standard raw) s, e.Within (nameOf? raw = some ·) := by
  intro e he
  cases hread : Scope.ofValue raw with
  | error f =>
    rw [item_of_unread hread] at he
    cases he
  | ok scope =>
    rw [item_of_read hread] at he
    refine ((course_of_run p standard scope s).within e he).mono fun n hn => ?_
    rw [nameOf?_of_read hread,hn]

theorem within_of_items (r : Report) (raws : List Value) (s : σ) :
    ∀ e ∈ events p (items standard r raws) s, e.Within fun _ => True := by
  intro e he
  rcases exists_of_mem_events_items he with ⟨n,rfl⟩ | ⟨before,raw,rest,-,hm⟩
  · trivial
  · exact (within_of_item raw _ e hm).mono fun _ _ => trivial

theorem run_once_listing (standard : Value) (raws : List Value) (st : σ) :
    run (p.listing raws) (once standard) st =
      (run p (items standard .empty raws) st).after [.list .scopes] [] := by
  have hlist : (p.listing raws).answer (.list .scopes) st = (.ok raws,st) := rfl
  rw [run_once_of_ok (congrArg Prod.fst hlist),hlist,
    run_listing raws _ st (within_of_items .empty raws st)]

/-- The items are not the same scope. -/
def Apart (raw raw' : Value) : Prop := ∀ n, nameOf? raw = some n → nameOf? raw' ≠ some n

theorem nodup_iff_pairwise_apart (raws : List Value) :
    (raws.filterMap nameOf?).Nodup ↔ raws.Pairwise Apart := by
  rw [List.Nodup,List.pairwise_filterMap]
  refine List.Pairwise.iff fun raw raw' => ?_
  constructor
  · intro h n hn hn'
    exact h n hn n hn' rfl
  · rintro h n hn m hm rfl
    exact h n hn hm

section Settled
variable (hp : p.Settled view rule t) (standard : Value)
include hp

/-- A turn shows only in the block of its own scope. -/
theorem alike_item (raw : Value) (s : σ) :
    Alike (nameOf? raw ≠ some ·) (view s) (view (run p (item standard raw) s).state) := by
  cases hread : Scope.ofValue raw with
  | error f =>
    rw [item_of_unread hread]
    exact .refl _ _
  | ok scope =>
    have hframe : Alike (· ≠ scope.name) (view s) (view (run p (item standard raw) s).state) := by
      refine alike_of_writeBacks hp _ s fun e he hpatched => ?_
      rw [item_of_read hread] at he
      obtain ⟨status,w,hw,-⟩ := (course_of_run p standard scope s).patched he hpatched
      exact ⟨scope,status,w,rfl,hw⟩
    refine hframe.mono fun n hn hscope => hn ?_
    rw [nameOf?_of_read hread,hscope]

theorem alike_after {own : String → Prop} (raws : List Value) (s : σ)
    (hn : ∀ raw ∈ raws, ∀ n, own n → nameOf? raw ≠ some n) :
    Alike own (view s) (view (after p standard raws s)) := by
  induction raws generalizing s with
  | nil => exact .refl _ _
  | cons raw raws ih =>
    have hturn := (alike_item hp standard raw s).mono (hn raw List.mem_cons_self)
    exact hturn.trans (ih _ fun raw hm => hn raw (List.mem_cons_of_mem _ hm))

theorem alike_rest {raw : Value} {raws : List Value} {s s' : σ} (hn : ∀ r ∈ raws, Apart raw r)
    (h : ∀ r ∈ raws, Alike (nameOf? r = some ·) (view s) (view s')) :
    ∀ r ∈ raws, Alike (nameOf? r = some ·) (view s) (view (run p (item standard raw) s').state) := by
  intro r hr
  have hturn := alike_item hp standard raw s'
  exact (h r hr).trans (hturn.mono fun n hrn hraw => hn r hr n hraw hrn)

variable (hrule : rule.KeepsApart)
include hrule

theorem alike_turn (raw : Value) {s s' : σ} (h : Alike (nameOf? raw = some ·) (view s) (view s')) :
    (run p (item standard raw) s').result = (run p (item standard raw) s).result ∧
      Alike (nameOf? raw = some ·) (view (run p (item standard raw) s).state)
        (view (run p (item standard raw) s').state) :=
  alike_run hp hrule _ h (within_of_item raw s)

/-- Every turn of a pass ends as if it were the only one. -/
theorem results_turns (raws : List Value) (hn : raws.Pairwise Apart) {s s' : σ}
    (h : ∀ raw ∈ raws, Alike (nameOf? raw = some ·) (view s) (view s')) :
    ((turns p standard raws s').map fun t => (outcome p standard t).result) =
      raws.map fun raw => (run p (item standard raw) s).result := by
  -- the state changes from turn to turn, but not where the items still to come look
  induction raws generalizing s' with
  | nil => rfl
  | cons raw raws ih =>
    obtain ⟨hraw,hraws⟩ := List.pairwise_cons.mp hn
    have hhead := (alike_turn hp standard hrule raw (h raw List.mem_cons_self)).1
    have hrest := alike_rest hp standard hraw fun r hr => h r (List.mem_cons_of_mem _ hr)
    have htail := ih hraws hrest
    simp only [turns,outcome,List.map_cons,hhead]
    exact congrArg _ htail

/-- Every turn of a pass leaves its scope as if it were the only one. -/
theorem alike_alone (raws : List Value) (hn : raws.Pairwise Apart) {s s' : σ}
    (h : ∀ raw ∈ raws, Alike (nameOf? raw = some ·) (view s) (view s')) :
    ∀ raw ∈ raws, Alike (nameOf? raw = some ·) (view (run p (item standard raw) s).state)
      (view (after p standard raws s')) := by
  induction raws generalizing s' with
  | nil => simp
  | cons raw raws ih =>
    obtain ⟨hraw,hraws⟩ := List.pairwise_cons.mp hn
    have hrest := alike_rest hp standard hraw fun r hr => h r (List.mem_cons_of_mem _ hr)
    have htail := ih hraws hrest
    intro r hr
    rcases List.mem_cons.mp hr with rfl | hr
    · have hturn := (alike_turn hp standard hrule r (h r List.mem_cons_self)).2
      exact hturn.trans (alike_after hp standard raws _ fun r' hr' n hrn => hraw r' hr' n hrn)
    · exact htail r hr

theorem view_after (raws : List Value) (hn : raws.Pairwise Apart) (st : σ) :
    (∀ raw ∈ raws, ∀ scope, Scope.ofValue raw = .ok scope →
      view (after p standard raws st) .scopes scope.name =
        view (run p (ofScope standard scope) st).state .scopes scope.name) ∧
    ∀ k n, (k = .scopes → some n ∉ raws.map nameOf?) →
      view (after p standard raws st) k n = view st k n := by
  constructor
  · intro raw hm scope hread
    have halone := alike_alone hp standard hrule raws hn (fun _ _ => .refl _ (view st)) raw hm
    have hown := halone.own scope.name (nameOf?_of_read hread)
    rw [item_of_read hread] at hown
    exact hown.symm
  · intro k n hk
    have hframe : Alike (fun m => some m ∉ raws.map nameOf?) (view st)
        (view (after p standard raws st)) :=
      alike_after hp standard raws st fun raw hm m hnot hname =>
        hnot (hname ▸ List.mem_map_of_mem hm)
    cases k with
    | components => exact congrFun hframe.components.symm n
    | scopes => exact (hframe.own n (hk rfl)).symm

theorem result_once_listing (raws : List Value) (hn : raws.Pairwise Apart) (st : σ) :
    (run (p.listing raws) (once standard) st).result =
      .ok ((raws.map fun raw => (run p (item standard raw) st).result).foldl Report.count .empty) := by
  have hturns := results_turns hp standard hrule raws hn fun _ _ => .refl _ (view st)
  rw [run_once_listing,Outcome.after_result,run_items,← hturns,List.foldl_map]

end Settled
end Turns

/-- Where the block of one scope makes no difference to requests about another, a pass leaves each scope as
if it had been aggregated alone, whatever the other items are and however their turns end, and everything
else as it was. Another order of the items makes no difference, to the objects or to what is counted. -/
theorem order_independent {σ : Type} (p : Platform σ) (view : σ → Objects) (rule : Rule)
    (t : Except Fault Moment) (hp : p.Settled view rule t) (hrule : rule.KeepsApart) (standard : Value)
    (raws : List Value) (hn : (raws.filterMap nameOf?).Nodup) (st : σ) :
    let pass raws := run (p.listing raws) (once standard) st
    (∀ raw ∈ raws, ∀ scope, Scope.ofValue raw = .ok scope →
      view (pass raws).state .scopes scope.name =
        view (run p (ofScope standard scope) st).state .scopes scope.name) ∧
    (∀ k n, (k = .scopes → some n ∉ raws.map nameOf?) → view (pass raws).state k n = view st k n) ∧
    ∀ raws', raws.Perm raws' → view (pass raws').state = view (pass raws).state ∧
      ∃ report, (pass raws).result = .ok report ∧ (pass raws').result = .ok report := by
  intro pass
  have hstate (raws : List Value) : (pass raws).state = after p standard raws st := by
    simp only [pass,run_once_listing,Outcome.after_state,run_items_state]
  simp only [hstate]
  have hapart := (nodup_iff_pairwise_apart raws).mp hn
  obtain ⟨hown,hframe⟩ := view_after hp standard hrule raws hapart st
  refine ⟨hown,hframe,fun raws' hperm => ?_⟩
  have hapart' := (nodup_iff_pairwise_apart raws').mp ((hperm.filterMap nameOf?).nodup_iff.mp hn)
  obtain ⟨hown',hframe'⟩ := view_after hp standard hrule raws' hapart' st
  constructor
  · funext k n
    by_cases hk : k = .scopes → some n ∉ raws.map nameOf?
    · have hk' : k = .scopes → some n ∉ raws'.map nameOf? := fun h hm =>
        hk h ((hperm.map nameOf?).mem_iff.mpr hm)
      rw [hframe k n hk,hframe' k n hk']
    · push Not at hk
      obtain ⟨rfl,hlisted⟩ := hk
      obtain ⟨raw,hm,hname⟩ := List.mem_map.mp hlisted
      obtain ⟨scope,hread,rfl⟩ := exists_of_nameOf? hname
      rw [hown raw hm scope hread,hown' raw (hperm.mem_iff.mp hm) scope hread]
  · refine ⟨_,result_once_listing hp standard hrule raws hapart st,?_⟩
    rw [Report.foldl_count_perm (hperm.map _)]
    exact result_once_listing hp standard hrule raws' hapart' st

end Pass

namespace Shelf
open Objects

def refused (c : Call) : Fault := .request c "default" (.response (some 409) (some "Conflict"))

/-- A shelf whose clock stands at this moment and that refuses the requests it bars. -/
def barring (bars : Call → Objects → Bool) (m : Moment) : Platform Shelf where
  answer c s := if bars c s.view then (.error (refused c),s) else answer c s
  clock s := (.ok m,s)
  isStopping _ := false

def rule (bars : Call → Objects → Bool) : Rule := fun c o =>
  if bars c o then .error (refused c)
  else match c with
    | .list _ => .ok []
    | .get k n => found (.get k n) (o k n)
    | .patch k n b => found (.patch k n b) ((o k n).map (·.merge b))

theorem barring_settled (bars : Call → Objects → Bool) (m : Moment) :
    (barring bars m).Settled view (rule bars) (.ok m) where
  clock s := rfl
  answer c s hq := by
    simp only [barring] at hq ⊢
    by_cases hb : bars c s.view
    · rw [if_pos hb]
    · rw [if_neg hb] at hq ⊢
      exact platform_faithful.conserves.answer c s hq
  still s := rfl
  patched k n b s w hw := by
    simp only [barring] at hw ⊢
    by_cases hb : bars (.patch k n b) s.view
    · simp [hb] at hw
    · rw [if_neg hb] at hw ⊢
      obtain ⟨v,hv⟩ : ∃ v, s.store.find? k n = some v := by
        cases h : s.store.find? k n with
        | none => simp [answer,h] at hw
        | some v => exact ⟨v,rfl⟩
      refine ⟨v,hv,?_⟩
      simp only [answer,hv]
      exact view_put k n (v.merge b) s
  ruled c s hl := by
    simp only [barring,rule]
    by_cases hb : bars c s.view
    · rw [if_pos hb,if_pos hb]
    · rw [if_neg hb,if_neg hb]
      cases c with
      | list k => exact absurd rfl (hl k)
      | get k n => rfl
      | patch k n b =>
        simp only [answer,view]
        cases s.store.find? k n <;> rfl

theorem rule_keepsApart : (rule fun _ _ => false).KeepsApart := by
  intro c o o' hl h
  have hfound : o c.kind c.name = o' c.kind c.name := h.at_call fun _ hn => hn
  cases c with
  | list k => exact absurd rfl (hl k)
  | get k n => exact congrArg (found (.get k n)) hfound
  | patch k n b => exact congrArg (fun v => found (.patch k n b) (Option.map (·.merge b) v)) hfound

end Shelf

namespace Pass
open Program Aggregation

/-- The street, listed from the other end. -/
theorem order_independent_street :
    let p := Shelf.barring (fun _ _ => false) Shelf.noon
    let st : Shelf := ⟨street,[]⟩
    let pass raws := run (p.listing raws) (once (.int 30)) st
    let alone := run p (ofScope (.int 30) loaded) st
    (pass (Shelf.objects .scopes street)).state.view .scopes "shop" = alone.state.view .scopes "shop" ∧
      (pass (Shelf.objects .scopes street).reverse).state.view =
        (pass (Shelf.objects .scopes street)).state.view ∧
      (pass (Shelf.objects .scopes street).reverse).result.toOption = some ⟨4,1,1,2,false⟩ := by
  intro p st pass alone
  obtain ⟨hown,-,horder⟩ := order_independent p Shelf.view _ (.ok Shelf.noon)
    (Shelf.barring_settled _ Shelf.noon) Shelf.rule_keepsApart (.int 30) (Shelf.objects .scopes street)
    (by decide +kernel) st
  obtain ⟨hview,report,hr,hr'⟩ := horder _ (List.reverse_perm _).symm
  have hcounts : (pass (Shelf.objects .scopes street)).result.toOption = some ⟨4,1,1,2,false⟩ := by
    decide +kernel
  refine ⟨hown (.record early) (by decide +kernel) loaded rfl,hview,?_⟩
  rw [hr']
  exact (congrArg Except.toOption hr).symm.trans hcounts

/-- A stall without components that has not been written yet. -/
def stall (name : String) : Value :=
  .record [("metadata",.record [("name",.text name)]),("spec",.record Shelf.probeSpec)]

def market : Store := [⟨.scopes,"bakery",stall "bakery"⟩,⟨.scopes,"dairy",stall "dairy"⟩]

/-- No patch of the dairy once the bakery has a status block. -/
def rivalry : Call → Objects → Bool
  | .patch .scopes "dairy" _, o => ((o .scopes "bakery").bind (·.field? "status")).isSome
  | _, _ => false

/-- Where the block of one scope makes a difference to requests about another, neither holds: in another
order a pass counts otherwise and leaves another object, and one that a turn alone would not leave. -/
theorem order_counts_among_rivals :
    let p := Shelf.barring rivalry Shelf.noon
    let st : Shelf := ⟨market,[]⟩
    let raws := [stall "bakery",stall "dairy"]
    let pass raws := run (p.listing raws) (once (.int 30)) st
    p.Settled Shelf.view (Shelf.rule rivalry) (.ok Shelf.noon) ∧
      raws.filterMap nameOf? = ["bakery","dairy"] ∧
      (∀ n, n ∈ ["bakery","dairy"] → st.view .scopes n = some (stall n)) ∧
      (pass raws).result.toOption = some ⟨2,1,0,1,false⟩ ∧
      (pass raws.reverse).result.toOption = some ⟨2,2,0,0,false⟩ ∧
      (pass raws).state.view .scopes "dairy" ≠ (pass raws.reverse).state.view .scopes "dairy" ∧
      ∃ dairy, Scope.ofValue (stall "dairy") = .ok dairy ∧ (pass raws).state.view .scopes "dairy" ≠
        (run p (ofScope (.int 30) dairy) st).state.view .scopes "dairy" := by
  intro p st raws pass
  refine ⟨Shelf.barring_settled rivalry Shelf.noon,by decide +kernel,?_,by decide +kernel,
    by decide +kernel,by decide +kernel,_,rfl,by decide +kernel⟩
  rintro n hn
  rcases List.mem_pair.mp hn with rfl | rfl <;> rfl

end Pass
end HealthRollup
