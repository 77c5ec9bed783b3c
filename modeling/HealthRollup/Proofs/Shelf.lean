import HealthRollup.Proofs.Objects
import HealthRollup.Rehearsal.Store
import HealthRollup.Scope.Status
import Mathlib.Data.List.Dedup

/-! A platform that keeps its objects on a shelf and serves every request from there. A listing goes
through the names in the order in which they came, a request for a name that is not there fails, and the
clock shows the times it was given one after the other. -/
namespace HealthRollup

structure Shelf where
  store : Store
  times : List Moment

namespace Shelf

def names (k : Kind) (s : Store) : List String :=
  ((s.filter fun e => e.kind == k).map Stored.name).dedup

def objects (k : Kind) (s : Store) : List Value := (names k s).filterMap fun n => s.find? k n

def absent (c : Call) : Fault := .request c "default" (.response (some 404) (some "Not Found"))

def found (c : Call) (r : Option Value) : Except Fault Value :=
  match r with
  | some v => .ok v
  | none => .error (absent c)

def answer : (c : Call) → Shelf → Except Fault c.Answer × Shelf
  | .list k, s => (.ok (objects k s.store),s)
  | .get k n, s => (found (.get k n) (s.store.find? k n),s)
  | .patch k n b, s =>
    match s.store.find? k n with
    | some v => (.ok (v.merge b),{ s with store := s.store.put k n (v.merge b) })
    | none => (.error (absent (.patch k n b)),s)

def clock (s : Shelf) : Except Fault Moment × Shelf :=
  match s.times with
  | [] => (.error .overflow,s)
  | m::ms => (.ok m,{ s with times := ms })

def platform : Platform Shelf := ⟨answer,clock,fun _ => false⟩

def view (s : Shelf) : Objects := fun k n => s.store.find? k n

theorem mem_names_iff (k : Kind) (n : String) (s : Store) :
    n ∈ names k s ↔ (s.find? k n).isSome := by
  rw [names,List.mem_dedup]
  induction s with
  | nil => simp
  | cons e es ih =>
    rw [Store.find?_cons]
    by_cases he : Store.isAt k n e
    · obtain ⟨hk,hn⟩ := (Store.isAt_eq_true_iff k n e).mp he
      simp [hk,hn,he]
    · rw [if_neg he,← ih]
      have hne : ¬ (e.kind = k ∧ n = e.name) := fun h =>
        he ((Store.isAt_eq_true_iff k n e).mpr ⟨h.1,h.2.symm⟩)
      by_cases hk : e.kind = k
      · have hn : ¬ n = e.name := fun h => hne ⟨hk,h⟩
        simp [hk,hn]
      · simp [hk]

theorem map_eq_of_all_some {α β : Type} (f : α → Option β) (xs : List α)
    (h : ∀ x ∈ xs, (f x).isSome) : xs.map f = (xs.filterMap f).map some := by
  induction xs with
  | nil => rfl
  | cons x xs ih =>
    obtain ⟨y,hy⟩ := Option.isSome_iff_exists.mp (h x List.mem_cons_self)
    have htail := ih fun x hx => h x (List.mem_cons_of_mem _ hx)
    simp [hy,htail]

theorem lists_objects (k : Kind) (s : Shelf) : s.view.Lists k (objects k s.store) :=
  ⟨names k s.store,List.nodup_dedup _,fun n => mem_names_iff k n s.store,
    map_eq_of_all_some _ _ fun n hn => (mem_names_iff k n s.store).mp hn⟩

theorem view_put (k : Kind) (n : String) (v : Value) (s : Shelf) :
    view { s with store := s.store.put k n v } = s.view.put k n v := by
  funext j m
  by_cases h : j = k ∧ m = n
  · obtain ⟨rfl,rfl⟩ := h
    simp [view]
  · rw [Objects.put_of_ne j k m n v _ h]
    exact Store.find?_put_of_ne j k m n v s.store h

theorem platform_faithful : platform.Faithful view Eq where
  still _ := rfl
  answer c s := by
    refine ⟨s.view,rfl,?_⟩
    cases c with
    | list k => exact ⟨rfl,lists_objects k s⟩
    | get k n =>
      change s.view.Meets (.asked (.get k n) (found (.get k n) (s.store.find? k n))) s.view
      cases h : s.store.find? k n with
      | none => exact rfl
      | some v => exact ⟨rfl,h⟩
    | patch k n b =>
      change s.view.Meets (.asked _ (answer (.patch k n b) s).1) (view (answer (.patch k n b) s).2)
      cases h : s.store.find? k n with
      | none =>
        simp only [answer,h]
        exact rfl
      | some v =>
        simp only [answer,h]
        exact ⟨v,h,view_put k n (v.merge b) s⟩
  clock s := by
    change s.view = view (clock s).2
    unfold clock
    split <;> rfl

/-- A shop of a database and a web front, both in their first instance. -/
def shop (spec status : Fields) : Fields :=
  [("metadata",.record [("name",.text "shop")]),("spec",.record spec),("status",.record status)]

def probeSpec : Fields := [("probeEndpoint",.text ".status"),("probeMethod",.text "poll-status")]

def part (name : String) (state : Value) : ComponentRef := ⟨.text name,.text "1",state⟩

def parts (db web : Value) : Value := .list [(part "db" db).toValue,(part "web" web).toValue]

def stocked (scope : Fields) : Store :=
  [⟨.scopes,"shop",.record scope⟩,⟨.components,"db-1",.record [("status",.text "healthy")]⟩]

def noon : Moment := ⟨⟨2024,5,1⟩,⟨12,0,0,0⟩,0⟩

end Shelf
end HealthRollup
