import HealthRollup.Proofs.Due

/-! The gate is monotone. Rounding keeps the order of the seconds, and so does cutting them down to whole
ones, even where neither is exact; so what is due at one reading of the clock is due at every later one, and
under every shorter interval. -/
namespace HealthRollup

namespace Binary64

/-- The nearer of two numbers is on this side of the middle. -/
theorem add_le_of_abs_sub_le {x y q : ℚ} (hyx : y < x) (h : |x-q| ≤ |y-q|) : x+y ≤ 2*q := by
  have hsq := sq_le_sq.mpr h
  have hfactor : (x-y)*(x+y-2*q) ≤ 0 := by linarith
  have hneg := nonpos_of_mul_nonpos_right hfactor (sub_pos.mpr hyx)
  linarith

theorem IsNearest.value_le {x y : Binary64} {q r : ℚ} (hx : x.IsNearest q) (hy : y.IsNearest r)
    (hqr : q < r) : x.value ≤ y.value := by
  by_contra hlt
  have hyx := not_le.mp hlt
  have hq := add_le_of_abs_sub_le hyx (hx.nearest y hy.number)
  have hr := add_le_of_abs_sub_le (q := -r) (neg_lt_neg hyx)
    (by simpa only [neg_sub_neg,abs_sub_comm] using hy.nearest x hx.number)
  linarith

theorem truncate_mono {x y : Binary64} (h : x.value ≤ y.value) : x.truncate ≤ y.truncate := by
  rw [truncate_eq,truncate_eq]
  by_cases hx : x.value < 0
  · rw [if_pos hx]
    split
    · exact Int.ceil_mono h
    · rename_i hy
      exact (Int.ceil_le.mpr (by simpa using hx.le)).trans (Int.floor_nonneg.mpr (not_lt.mp hy))
  · rw [if_neg hx,if_neg fun hy => hx (h.trans_lt hy)]
    exact Int.floor_mono h

end Binary64

namespace Moment

theorem elapsed_mono {last now later : Moment} (hlast : last.IsValid) (hnow : now.IsValid)
    (hlater : later.IsValid) (h : now.instant ≤ later.instant) :
    elapsed last now ≤ elapsed last later := by
  rcases h.eq_or_lt with h | h
  · simp only [elapsed,secondsFrom,h,le_refl]
  · have hquotient : ((now.instant-last.instant : Int) : ℚ)/1000000 <
        (later.instant-last.instant : Int)/1000000 := by
      gcongr
    have hsooner := isNearest_secondsFrom (natAbs_instant_sub_lt hlast hnow)
    have hlater := isNearest_secondsFrom (natAbs_instant_sub_lt hlast hlater)
    exact Binary64.truncate_mono (hsooner.value_le hlater hquotient)

end Moment

namespace Gate
open Moment

def last? (status : Option ScopeStatus) : Option Moment :=
  match (status.map ScopeStatus.aggregatedAt).getD .null with
  | .text stamp => (Timestamp.read stamp).toOption
  | _ => none

/-- No time, or a text that may be one. -/
def IsStamped (status : Option ScopeStatus) : Prop :=
  ∀ block, status = some block → block.aggregatedAt = .null ∨ ∃ stamp, block.aggregatedAt = .text stamp

theorem isValid_of_last? {status : Option ScopeStatus} {last : Moment} (h : last? status = some last) :
    last.IsValid := by
  unfold last? at h
  split at h
  · rename_i stamp _
    cases hread : Timestamp.read stamp with
    | error e =>
      rw [hread] at h
      cases h
    | ok m =>
      rw [hread] at h
      cases h
      exact Timestamp.isValid_of_read hread
  · cases h

/-- The gate always decides: a scope is due unless it has an interval and a readable time, and then by the
whole seconds that have gone by. -/
theorem exists_check {status : Option ScopeStatus} {interval : Value} {n : Number} {i : Int}
    (hstatus : IsStamped status) (hquantity : interval.quantity? = some n) (hn : n.IsInteger i)
    (now : Moment) : ∃ d, check status interval now = .ok d ∧
      (d.due = true ↔ i ≤ 0 ∨ ∀ last, last? status = some last → i ≤ elapsed last now) := by
  simp only [check,hquantity,Number.atMost_of_isInteger hn,decide_eq_true_eq]
  by_cases hpos : i ≤ 0
  · rw [if_pos hpos]
    exact ⟨_,rfl,by simp [hpos]⟩
  · rw [if_neg hpos]
    have htime : (status.map ScopeStatus.aggregatedAt).getD .null = .null ∨
        ∃ stamp, (status.map ScopeStatus.aggregatedAt).getD .null = .text stamp := by
      cases status with
      | none => exact .inl rfl
      | some block => exact hstatus block rfl
    rcases htime with htime | ⟨stamp,htime⟩
    · exact ⟨⟨true,[]⟩,by rw [htime]; rfl,by simp [last?,htime]⟩
    · cases hread : Timestamp.read stamp with
      | error e =>
        refine ⟨⟨true,[.badTimestamp e]⟩,?_,by simp [last?,htime,hread,Except.toOption]⟩
        rw [htime]
        simp only [decision,timeOf,hread,Except.mapError]
      | ok last =>
        refine ⟨⟨n.atMost (elapsed last now),[]⟩,?_,?_⟩
        · rw [htime]
          simp only [decision,timeOf,hread,Except.mapError]
        · simp [last?,htime,hread,Except.toOption,Number.atMost_of_isInteger hn,hpos]

/-- A scope that is due stays due: at any later reading of the clock and under any shorter interval, of
whatever sign and size, and with a time of its last aggregation that may be absent, unreadable or outside
the calendar on the clock of UTC. Both decisions are made. -/
theorem stays_due {status : Option ScopeStatus} {now later : Moment} {shorter longer : Value} {n m : Number}
    {i j : Int} (hstatus : IsStamped status) (hnow : now.IsValid) (hlater : later.IsValid)
    (htime : now.instant ≤ later.instant) (hshorter : shorter.quantity? = some n) (hn : n.IsInteger i)
    (hlonger : longer.quantity? = some m) (hm : m.IsInteger j) (hij : i ≤ j) :
    ∃ before after, check status longer now = .ok before ∧ check status shorter later = .ok after ∧
      (before.due = true → after.due = true) := by
  obtain ⟨before,hbefore,hdue⟩ := exists_check hstatus hlonger hm now
  obtain ⟨after,hafter,hdue'⟩ := exists_check hstatus hshorter hn later
  refine ⟨before,after,hbefore,hafter,fun h => hdue'.mpr ?_⟩
  rcases hdue.mp h with hpos | helapsed
  · exact .inl (hij.trans hpos)
  · refine .inr fun last hlast => ?_
    calc i ≤ j := hij
      _ ≤ elapsed last now := helapsed last hlast
      _ ≤ elapsed last later := elapsed_mono (isValid_of_last? hlast) hnow hlater htime

def ancient : ScopeStatus := ⟨none,.text "1000-01-01T00:00:00Z"⟩

/-- One second more than the whole seconds that are exact, in floating point. -/
def centuries : Value := .num (.real (.finite false ((2^34+1)*2^18) (-18)))

/-- A microsecond before that many seconds have gone by. -/
def eve : Moment := ⟨⟨1544,5,30⟩,⟨1,53,4,999999⟩,0⟩

def dawn : Moment := ⟨⟨1544,5,30⟩,⟨3,53,5,0⟩,7200000000⟩

/-- Rounding opens the gate a microsecond early, and then it is open. -/
theorem stays_due_ancient : ∃ before after, check (some ancient) centuries eve = .ok before ∧
    before.due = true ∧ check (some ancient) (.num (.int (2^34))) dawn = .ok after ∧ after.due = true := by
  have hstatus : IsStamped (some ancient) := by
    rintro block hblock
    cases hblock
    exact .inr ⟨_,rfl⟩
  have hwhole : (Number.real (.finite false ((2^34+1)*2^18) (-18))).IsInteger (2^34+1) := by
    rw [Number.IsInteger,if_neg (by decide)]
    rfl
  have hlonger : centuries.quantity? = some (.real (.finite false ((2^34+1)*2^18) (-18))) := rfl
  have hshorter : (Value.num (.int (2^34))).quantity? = some (.int (2^34)) := rfl
  have hinteger : (Number.int (2^34)).IsInteger (2^34) := rfl
  have hnow : eve.IsValid := by decide
  have hlater : dawn.IsValid := by decide
  obtain ⟨before,after,hbefore,hafter,h⟩ :=
    stays_due hstatus hnow hlater (by decide) hshorter hinteger hlonger hwhole (by decide)
  have hdue : before.due = true := by
    obtain ⟨d,hd,hiff⟩ := exists_check hstatus hlonger hwhole eve
    rw [hbefore] at hd
    cases hd
    refine hiff.mpr (.inr fun last hlast => ?_)
    have hread : last? (some ancient) = some ⟨⟨1000,1,1⟩,⟨0,0,0,0⟩,0⟩ := by decide +kernel
    rw [hread] at hlast
    cases hlast
    decide +kernel
  exact ⟨before,after,hbefore,hdue,hafter,h hdue⟩

end Gate
end HealthRollup
