import HealthRollup.Proofs.Calendar
import HealthRollup.Proofs.Rounding

/-! When a scope is due. Every time that is read is a moment of the calendar, and so is the clock's; between
two of these the seconds are few enough that they round correctly and that the gate, which compares them cut
down to whole ones, decides as if it counted the microseconds. -/
namespace HealthRollup

namespace Timestamp

theorem natAbs_lt_of_offset? {negative : Bool} {cs : List Char} {o : Int}
    (h : offset? negative cs = some o) : o.natAbs < TimeOfDay.dayLength := by
  simp only [offset?] at h
  split at h
  · split at h
    · rw [← Option.some.inj h]
      decide
    · split at h
      · rename_i hday
        have hsigned (n : Nat) : (Binary64.signed negative n).natAbs = n := by cases negative <;> simp
        rw [← Option.some.inj h,hsigned]
        exact hday
      · cases h
  · cases h

theorem natAbs_lt_of_zonedTime? {cs : List Char} {t : TimeOfDay} {o : Int}
    (h : zonedTime? cs = some (t,some o)) : o.natAbs < TimeOfDay.dayLength := by
  simp only [zonedTime?,Option.bind_eq_some_iff] at h
  obtain ⟨p,-,h⟩ := h
  split at h
  · split at h <;> cases h
  · split at h
    · split at h
      · cases h
        decide
      · cases h
    · obtain ⟨o',ho,he⟩ := Option.map_eq_some_iff.mp h
      cases he
      exact natAbs_lt_of_offset? ho

theorem natAbs_lt_of_parts? {cs : List Char} {d : Date} {t : TimeOfDay} {o : Int}
    (h : parts? cs = some (d,t,some o)) : o.natAbs < TimeOfDay.dayLength := by
  simp only [parts?,Option.bind_eq_some_iff] at h
  obtain ⟨length,-,date,-,h⟩ := h
  split at h
  · cases h
  · obtain ⟨⟨t',o'⟩,hp,he⟩ := Option.map_eq_some_iff.mp h
    cases he
    exact natAbs_lt_of_zonedTime? hp

theorem isValid_of_read {s : String} {m : Moment} (h : read s = .ok m) : m.IsValid := by
  simp only [read] at h
  split at h
  · rename_i date time offset hparts
    split at h
    · rename_i hvalid
      split at h
      · cases h
        exact ⟨hvalid.1,hvalid.2,natAbs_lt_of_parts? hparts⟩
      · cases h
    · cases h
  · cases h

end Timestamp

namespace Moment

/-- No two moments are further apart than the calendar is long, but for their offsets. -/
theorem natAbs_instant_sub_lt {m m' : Moment} (h : m.IsValid) (h' : m'.IsValid) :
    (m'.instant-m.instant).natAbs < 2^60 := by
  obtain ⟨hd,ht,ho⟩ := h
  obtain ⟨hd',ht',ho'⟩ := h'
  have hreading := reading_bounds hd ht
  have hreading' := reading_bounds hd' ht'
  simp only [instant,Date.lastOrdinal,TimeOfDay.dayLength] at *
  omega

theorem isNearest_secondsFrom {last now : Moment} (hb : (now.instant-last.instant).natAbs < 2^60) :
    (secondsFrom last now).IsNearest ((now.instant-last.instant : Int)/1000000) := by
  simp only [secondsFrom]
  generalize now.instant-last.instant = d at hb
  have hsigned : Binary64.signed (d < 0) d.natAbs = d := by
    by_cases hneg : d < 0 <;> simp only [hneg,decide_true,decide_false,Binary64.signed_true,
      Binary64.signed_false] <;> omega
  have hfinite : Binary64.ofRatio (d < 0) d.natAbs 1000000 ≠ .infinite (d < 0) := by
    apply Binary64.ofRatio_ne_infinite
    intro h0
    exact lt_of_le_of_lt (Binary64.unitExponent_million d.natAbs h0 hb).1 (by decide)
  have hnearest := Binary64.isNearest_ofRatio (d < 0) d.natAbs (by decide) hfinite
  rw [hsigned] at hnearest
  exact_mod_cast hnearest

end Moment

namespace Gate
open Moment

/-- The gate is exact. For every recorded time that can be read and every interval that is an integer up to
`2 ^ 34`, a scope is due exactly when that many million microseconds have gone by, even though the gate looks
at the correctly rounded number of seconds, cut down towards zero. -/
theorem due_iff_microseconds {status : ScopeStatus} {stamp : String} {last now : Moment} {interval : Value}
    {n : Number} {i : Int} (hat : status.aggregatedAt = .text stamp) (hread : Timestamp.read stamp = .ok last)
    (hnow : now.IsValid) (hquantity : interval.quantity? = some n) (hn : n.IsInteger i) (h1 : 1 ≤ i)
    (hi : i ≤ 2^34) :
    (∃ d, check (some status) interval now = .ok d ∧ d.notices = [] ∧
      (d.due = true ↔ i*1000000 ≤ now.instant-last.instant)) ∧
    (secondsFrom last now).IsNearest ((now.instant-last.instant : Int)/1000000) ∧
    elapsed last now = if (secondsFrom last now).value < 0 then ⌈(secondsFrom last now).value⌉
      else ⌊(secondsFrom last now).value⌋ := by
  have hb := natAbs_instant_sub_lt (Timestamp.isValid_of_read hread) hnow
  have hcheck : check (some status) interval now = check (some status) (.num n) now := by
    simp only [check,hquantity,Value.quantity?_num]
  rw [hcheck,check_of_stamped hat hread hn h1 hi hb]
  exact ⟨⟨_,rfl,rfl,decide_eq_true_iff⟩,isNearest_secondsFrom hb,Binary64.truncate_eq _⟩

/-- A time of year 1 that is before the calendar on the clock of UTC. -/
def early : ScopeStatus := ⟨none,.text "0001-01-01T00:30:00+01:00"⟩

def hourly : Value := .num (.real (.finite false (3600*2^41) (-41)))

/-- An hour after its time the scope is due, and not a microsecond before. -/
theorem due_iff_microseconds_early :
    (∃ d, check (some early) hourly ⟨⟨1,1,1⟩,⟨0,30,0,0⟩,0⟩ = .ok d ∧ d.due = true) ∧
    (∃ d, check (some early) hourly ⟨⟨1,1,1⟩,⟨0,29,59,999999⟩,0⟩ = .ok d ∧ d.due = false) := by
  have hread : Timestamp.read "0001-01-01T00:30:00+01:00" =
      .ok ⟨⟨1,1,1⟩,⟨0,30,0,0⟩,3600000000⟩ := by decide +kernel
  have hhour : (Number.real (.finite false (3600*2^41) (-41))).IsInteger 3600 := by
    rw [Number.IsInteger,if_neg (by decide)]
    rfl
  have hat : early.aggregatedAt = .text "0001-01-01T00:30:00+01:00" := rfl
  have hquantity : hourly.quantity? = some (.real (.finite false (3600*2^41) (-41))) := rfl
  have h (now : Moment) (hnow : now.IsValid) :=
    (due_iff_microseconds hat hread hnow hquantity hhour (by decide) (by decide)).1
  constructor
  · obtain ⟨d,hcheck,-,hdue⟩ := h ⟨⟨1,1,1⟩,⟨0,30,0,0⟩,0⟩ (by decide)
    exact ⟨d,hcheck,hdue.mpr (by decide)⟩
  · obtain ⟨d,hcheck,-,hdue⟩ := h ⟨⟨1,1,1⟩,⟨0,29,59,999999⟩,0⟩ (by decide)
    refine ⟨d,hcheck,?_⟩
    rw [← Bool.not_eq_true,hdue]
    decide

/-- One second above the bound the last microsecond is rounded away. -/
example : instant ⟨⟨1544,5,30⟩,⟨1,53,4,999999⟩,0⟩-instant ⟨⟨1000,1,1⟩,⟨0,0,0,0⟩,0⟩ = (2^34+1)*1000000-1 ∧
    elapsed ⟨⟨1000,1,1⟩,⟨0,0,0,0⟩,0⟩ ⟨⟨1544,5,30⟩,⟨1,53,4,999999⟩,0⟩ = 2^34+1 := by decide +kernel

end Gate
end HealthRollup
