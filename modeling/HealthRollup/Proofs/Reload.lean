import HealthRollup.Proofs.Reading
import HealthRollup.Proofs.Requests

/-! A scope that is kept, and the object it was loaded from. As long as nobody else writes the object, what
is kept is what would be read from it: an aggregation that writes changes both in the same way, and one
that does not changes neither. So it makes no difference whether the scope is kept from one aggregation to
the next or loaded anew before each. -/
namespace HealthRollup

/-- Nobody else writes the scope of this name. -/
def Objects.Spares (n : String) (o o' : Objects) : Prop := o' .scopes n = o .scopes n

def Objects.load (n : String) (o : Objects) : Except Fault Scope :=
  match o .scopes n with
  | some v => Scope.ofValue v
  | none => .error (.missing n)

namespace Aggregation
open Program Fields Value

section Rounds
variable {σ : Type} (p : Platform σ) (view : σ → Objects) (standard : Value) (n : String)

/-- One aggregation after another of the scope that is kept, with a move of others before each. -/
def keptRounds : List (σ → σ) → Scope → σ → List (Outcome σ Aggregation)
  | [], _, _ => []
  | g::gs, scope, s =>
    let o := run p (ofScope standard scope) (g s)
    o::keptRounds gs (kept scope o.result) o.state

def keptAfter : List (σ → σ) → Scope → σ → Scope × σ
  | [], scope, s => (scope,s)
  | g::gs, scope, s =>
    let o := run p (ofScope standard scope) (g s)
    keptAfter gs (kept scope o.result) o.state

/-- The same with the scope loaded before each aggregation; a load that fails is the last round. -/
def reloadedRounds : List (σ → σ) → σ → List (Except Fault (Outcome σ Aggregation))
  | [], _ => []
  | g::gs, s =>
    match (view (g s)).load n with
    | .ok scope =>
      let o := run p (ofScope standard scope) (g s)
      .ok o::reloadedRounds gs o.state
    | .error f => [.error f]

end Rounds

/-- The object that is stored is the one the scope was read from, and its block has each field once. -/
structure Stored (n : String) (scope : Scope) (o : Objects) : Prop where
  name : scope.name = n
  object : ∃ fs, o .scopes n = some (.record fs) ∧ Scope.ofValue (.record fs) = .ok scope ∧
    Ordered (blockOf (.record fs))

section Step
variable {σ : Type} {p : Platform σ} {view : σ → Objects} {standard : Value} {n : String}
  {scope : Scope} {s : σ}

theorem Stored.load {o : Objects} (h : Stored n scope o) : o.load n = .ok scope := by
  obtain ⟨fs,hfs,hread,-⟩ := h.object
  simp only [Objects.load,hfs,hread]

theorem Stored.of_spares {o o' : Objects} (h : Stored n scope o) (hs : Objects.Spares n o o') :
    Stored n scope o' := by
  obtain ⟨fs,hfs,hread,hord⟩ := h.object
  exact ⟨h.name,fs,hs.trans hfs,hread,hord⟩

theorem Stored.written {o : Objects} (h : Stored n scope o) {v : Value} (hv : o .scopes n = some v)
    {gateAt stampedAt : Moment} {reads es : List Event} {status : ScopeStatus}
    (hready : Ready standard scope gateAt stampedAt reads es status) :
    Stored n (updated scope status) (o.put .scopes n (merge v (replacement scope status))) := by
  obtain ⟨fs,hfs,hread,hord⟩ := h.object
  have hvalue : .record fs = v := Option.some.inj (hfs.symm.trans hv)
  subst hvalue
  obtain ⟨stamp,-,hat⟩ := hready.stamped
  have hknown := statusKeys_of_ofValue hread
  have hmerge : merge (.record fs) (replacement scope status) =
      .record (put "status" status.toValue fs) :=
    merge_replacement_of_known fs scope status stamp hat hord fun k hk => .inl (hknown ▸ hk)
  refine ⟨h.name,put "status" status.toValue fs,?_,?_,?_⟩
  · rw [Objects.put_self,hmerge]
  · exact Scope.ofValue_put_status hread status.shows_toFields
      (hready.isPlain fun old => Scope.status_isPlain hread)
  · rw [ScopeStatus.toValue,blockOf_put_status]
    exact ScopeStatus.ordered_toFields status

theorem Stored.follows {o o' : Objects} {es : List Event} (h : Stored n scope o)
    (hf : Objects.Follows (Objects.Spares n) o es o') (hq : ∀ e ∈ es, ¬ e.IsPatched) :
    Stored n scope o' := by
  refine hf.keeps (fun _ _ hm ho => ho.of_spares hm) (fun e he o o' hm ho => ?_) h
  rw [Event.meets_of_not_isPatched (hq e he) hm]
  exact ho

/-- After one aggregation the scope that is kept is again the one that is stored. -/
theorem Stored.aggregated (hp : p.Faithful view (Objects.Spares n)) (h : Stored n scope (view s)) :
    Stored n (kept scope (run p (ofScope standard scope) s).result)
      (view (run p (ofScope standard scope) s).state) := by
  have hcourse := course_of_run p standard scope s
  have hfollows := follows_run hp (ofScope standard scope) s
  by_cases hw : ∃ scope', (run p (ofScope standard scope) s).result = .ok (.written scope')
  · obtain ⟨scope',hr⟩ := hw
    rw [hr] at hcourse ⊢
    obtain ⟨gateAt,stampedAt,reads,before,status,w,hready,he,rfl⟩ := hcourse.of_written
    rw [he,Objects.follows_append_iff] at hfollows
    obtain ⟨o,hbefore,hpatch⟩ := hfollows
    have ho : Stored n scope o :=
      h.follows hbefore fun e hm => (hready.isPreparing e hm).not_isPatched
    cases hpatch with
    | cons _ o₁ o₂ _ _ _ hm hmeets hrest =>
      cases hrest
      obtain ⟨v,hv,hput⟩ := hmeets
      have ho₁ := ho.of_spares hm
      rw [h.name] at hv hput
      rw [hput]
      exact ho₁.written hv hready
  · rw [kept_of_not_written fun scope' hr => hw ⟨scope',hr⟩]
    exact h.follows hfollows fun e he hpatched => hw (hcourse.written_iff.mpr ⟨e,he,hpatched⟩)

end Step

section Run
variable {σ : Type} {p : Platform σ} {view : σ → Objects} {standard : Value} {n : String}

theorem Stored.rounds (hp : p.Faithful view (Objects.Spares n)) {gs : List (σ → σ)}
    (hgs : ∀ g ∈ gs, ∀ s, Objects.Spares n (view s) (view (g s))) {scope : Scope} {s : σ}
    (h : Stored n scope (view s)) :
    reloadedRounds p view standard n gs s = (keptRounds p standard gs scope s).map .ok ∧
      Stored n (keptAfter p standard gs scope s).1 (view (keptAfter p standard gs scope s).2) := by
  -- before each round what is kept is what is stored, so both rounds are one
  induction gs generalizing scope s with
  | nil => exact ⟨rfl,h⟩
  | cons g gs ih =>
    have hmoved : Stored n scope (view (g s)) := h.of_spares (hgs g List.mem_cons_self s)
    obtain ⟨hrounds,hafter⟩ := ih (fun g hg => hgs g (List.mem_cons_of_mem _ hg)) (hmoved.aggregated hp)
    refine ⟨?_,hafter⟩
    simp only [reloadedRounds,hmoved.load,keptRounds,List.map_cons,hrounds]

end Run

/-- A scope that is kept goes the same way as one that is loaded anew before every aggregation. -/
theorem kept_as_reloaded {σ : Type} (p : Platform σ) (view : σ → Objects) (standard raw : Value)
    (n : String) (hp : p.Faithful view (Objects.Spares n)) (s : σ)
    (hstored : view s .scopes n = some raw) (hshape : Shape.scope raw = [])
    (hname : Scope.nameShown raw = some (.text n)) (hord : Ordered (blockOf raw))
    (gs : List (σ → σ)) (hgs : ∀ g ∈ gs, ∀ s, Objects.Spares n (view s) (view (g s))) :
    ∃ scope, Scope.ofValue raw = .ok scope ∧
      reloadedRounds p view standard n gs s = (keptRounds p standard gs scope s).map .ok ∧
      (view (keptAfter p standard gs scope s).2).load n = .ok (keptAfter p standard gs scope s).1 := by
  obtain ⟨scope,hrec⟩ := Scope.exists_recorded hshape
  have hread := hrec.read
  obtain ⟨-,fs,rfl,-⟩ := (Scope.ofValue_eq_ok_iff _ _).mp hread
  have hshown : some (Value.text n) = some (.text scope.name) :=
    hname.symm.trans (Scope.nameShown_of_ofValue hread)
  have hsame : n = scope.name := by simpa using hshown
  have h : Stored n scope (view s) := ⟨hsame.symm,fs,hstored,hread,hord⟩
  obtain ⟨hrounds,hafter⟩ := h.rounds hp hgs
  exact ⟨scope,hread,hrounds,hafter.load⟩

def dbDown (s : Shelf) : Shelf :=
  { s with store := s.store.put .components "db-1" (.record [("status",.text "down")]) }

/-- The clock is read twice at noon for the first round, once for the second, which is not due then, and
twice a minute later for the third. -/
def threeRounds : Shelf :=
  ⟨Shelf.stocked early,[Shelf.noon,Shelf.noon,Shelf.noon,⟨⟨2024,5,1⟩,⟨12,1,0,0⟩,0⟩,⟨⟨2024,5,1⟩,⟨12,1,0,0⟩,0⟩]⟩

theorem kept_as_reloaded_shop :
    ((keptRounds Shelf.platform (.int 30) [id,dbDown,id] loaded threeRounds).map fun o =>
      o.result.toOption.map isWritten) = [some true,some false,some true] ∧
    reloadedRounds Shelf.platform Shelf.view (.int 30) "shop" [id,dbDown,id] threeRounds =
      (keptRounds Shelf.platform (.int 30) [id,dbDown,id] loaded threeRounds).map .ok := by
  have hspares (g : Shelf → Shelf) (hg : g ∈ [id,dbDown,id]) (s : Shelf) :
      Objects.Spares "shop" s.view (g s).view := by
    have hcases : g = id ∨ g = dbDown ∨ g = id := by simpa using hg
    rcases hcases with rfl | rfl | rfl
    · rfl
    · rw [dbDown,Shelf.view_put]
      exact Objects.put_of_ne _ _ _ _ _ _ (by decide)
    · rfl
  have hfaithful : Shelf.platform.Faithful Shelf.view (Objects.Spares "shop") :=
    Shelf.platform_faithful.of_eq fun _ => rfl
  obtain ⟨scope,hread,hrounds,-⟩ := kept_as_reloaded Shelf.platform Shelf.view (.int 30)
    (.record early) "shop" hfaithful threeRounds rfl rfl rfl (by decide +kernel) [id,dbDown,id] hspares
  have hscope : loaded = scope := Except.ok.inj hread
  subst hscope
  exact ⟨by decide +kernel,hrounds⟩

end Aggregation
end HealthRollup
