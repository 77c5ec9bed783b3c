import HealthRollup.Proofs.Elapsed
import Mathlib.Algebra.Order.Field.Power
import Mathlib.Algebra.Order.Floor.Semifield
import Mathlib.Data.Rat.Cast.Order
import Mathlib.Data.Rat.Floor
import Mathlib.Tactic.FieldSimp
import Mathlib.Tactic.Linarith
import Mathlib.Tactic.Positivity
import Mathlib.Tactic.Ring

/-! A quotient of naturals is rounded correctly: the result is a number of the format that no other one is
nearer than, and where two are equally near it is the one with the even significand. The units are chosen so
that the numbers with smaller units all lie below the quotient and farther from it than some multiple of the
unit; the other numbers are multiples of the unit, and among these the nearest integer decides. -/
namespace HealthRollup
namespace Binary64

def value : Binary64 → ℚ
  | .finite s m e => signed s m*2^e
  | _ => 0

def significand : Binary64 → Nat
  | .finite _ m _ => m
  | _ => 0

/-- A finite number of the format, in its one normal form. -/
def IsNumber : Binary64 → Prop
  | .finite _ m e => m < 2^53 ∧ (2^52 ≤ m ∨ e = leastExponent) ∧ leastExponent ≤ e ∧ e ≤ greatestExponent
  | _ => False

/-- The number is the correctly rounded value. -/
structure IsNearest (x : Binary64) (q : ℚ) : Prop where
  number : x.IsNumber
  nearest : ∀ y, IsNumber y → |x.value-q| ≤ |y.value-q|
  even : ∀ y, IsNumber y → y.value ≠ x.value → |y.value-q| = |x.value-q| → x.significand%2 = 0

theorem truncate_finite (s : Bool) (m : Nat) (e : Int) :
    truncate (.finite s m e) = signed s ⌊(m : ℚ)*2^e⌋₊ := by
  simp only [truncate,Nat.pow_eq]
  congr 1
  split
  · rename_i he
    obtain ⟨n,rfl⟩ := Int.eq_ofNat_of_zero_le he
    have hwhole : (m : ℚ)*2^(n : Int) = (m*2^n : Nat) := by
      rw [zpow_natCast]
      push_cast
      rfl
    rw [hwhole,Nat.floor_natCast,Int.toNat_natCast]
  · rename_i he
    obtain ⟨n,hn⟩ := Int.eq_ofNat_of_zero_le (show 0 ≤ -e by omega)
    obtain rfl : e = -(n : Int) := by omega
    have hquot : (m : ℚ)*2^(-(n : Int)) = m/(2^n : Nat) := by
      rw [zpow_neg,zpow_natCast,← div_eq_mul_inv]
      push_cast
      rfl
    rw [hquot,Nat.floor_div_eq_div,neg_neg,Int.toNat_natCast]

theorem truncate_eq (x : Binary64) : truncate x = if x.value < 0 then ⌈x.value⌉ else ⌊x.value⌋ := by
  match x with
  | .nan | .infinite _ => simp [truncate,value]
  | .finite s m e =>
    have hnonneg : (0 : ℚ) ≤ m*2^e := by positivity
    have hfloor : ((⌊(m : ℚ)*2^e⌋₊ : Nat) : Int) = ⌊(m : ℚ)*2^e⌋ := Int.natCast_floor_eq_floor hnonneg
    rw [truncate_finite]
    cases s with
    | false =>
      have hvalue : value (.finite false m e) = m*2^e := rfl
      rw [hvalue,if_neg hnonneg.not_gt,signed_false,hfloor]
    | true =>
      have hvalue : value (.finite true m e) = -(m*2^e) := by simp [value]
      rw [hvalue,signed_true,hfloor]
      split
      · rw [Int.ceil_neg]
      · rename_i hneg
        have hzero : (m : ℚ)*2^e = 0 := le_antisymm (by linarith) hnonneg
        rw [hzero,neg_zero,Int.floor_zero,neg_zero]

/-- No multiple of the denominator is nearer to the numerator than the rounded one, and of two that are
equally near the even one is taken. -/
theorem natAbs_roundEven_le (num den : Nat) (hd : 0 < den) (j : Int) :
    ((roundEven num den : Int)*den-num).natAbs ≤ (j*den-num).natAbs ∧
      (j ≠ roundEven num den → (j*den-num).natAbs = ((roundEven num den : Int)*den-num).natAbs →
        roundEven num den%2 = 0) := by
  have hmod := Nat.mod_lt num hd
  have hdiv : (num : Int) = (num/den : Nat)*den+(num%den : Nat) := by
    have h := Nat.div_add_mod num den
    rw [Nat.mul_comm] at h
    exact_mod_cast h.symm
  have hnext : ((num/den+1 : Nat) : Int)*den = (num/den : Nat)*(den : Int)+den := by push_cast; ring
  have hcases : j*den ≤ (num/den : Nat)*(den : Int)-den ∨ j = (num/den : Nat) ∨
      j = (num/den+1 : Nat) ∨ (num/den : Nat)*(den : Int)+2*den ≤ j*den := by
    rcases lt_trichotomy j (num/den : Nat) with hj | hj | hj
    · exact .inl (by nlinarith)
    · exact .inr (.inl hj)
    · rcases eq_or_lt_of_le (Int.add_one_le_iff.mpr hj) with hj | hj
      · exact .inr (.inr (.inl (by rw [← hj]; push_cast; rfl)))
      · exact .inr (.inr (.inr (by nlinarith)))
  unfold roundEven
  split
  · rename_i hc
    simp only [Bool.or_eq_true,Bool.and_eq_true,beq_iff_eq,decide_eq_true_eq] at hc
    rcases hcases with hj | rfl | rfl | hj
    all_goals
      rw [hnext]
      omega
  · rename_i hc
    simp only [Bool.or_eq_true,Bool.and_eq_true,beq_iff_eq,decide_eq_true_eq] at hc
    rcases hcases with hj | rfl | rfl | hj <;> omega

theorem abs_roundEven_le (num den : Nat) (hd : 0 < den) (j : Int) :
    |(roundEven num den : ℚ)-num/den| ≤ |(j : ℚ)-num/den| ∧
      (j ≠ roundEven num den → |(j : ℚ)-num/den| = |(roundEven num den : ℚ)-num/den| →
        roundEven num den%2 = 0) := by
  have hpos : (0 : ℚ) < den := by exact_mod_cast hd
  have hscale (k : Int) : |(k : ℚ)-num/den| = ((k*den-num).natAbs : ℚ)/den := by
    have h : (k : ℚ)-num/den = ((k*den-num : Int) : ℚ)/den := by
      push_cast
      field_simp
    rw [h,abs_div,abs_of_pos hpos,Nat.cast_natAbs,Int.cast_abs]
  have hround := hscale (roundEven num den)
  rw [Int.cast_natCast] at hround
  obtain ⟨hle,heven⟩ := natAbs_roundEven_le num den hd j
  rw [hscale j,hround]
  refine ⟨div_le_div_of_nonneg_right (by exact_mod_cast hle) hpos.le,fun hne heq => heven hne ?_⟩
  have h := (div_left_inj' hpos.ne').mp heq
  exact_mod_cast h

theorem inUnits_pos (num : Nat) {den : Nat} (hd : 0 < den) (e : Int) : 0 < (inUnits num den e).2 := by
  unfold inUnits
  split
  · exact Nat.mul_pos hd (Nat.two_pow_pos _)
  · exact hd

theorem inUnits_div (num den : Nat) (e : Int) :
    ((inUnits num den e).1 : ℚ)/(inUnits num den e).2 = num/den/2^e := by
  unfold inUnits
  split
  · rename_i he
    obtain ⟨n,rfl⟩ := Int.eq_ofNat_of_zero_le he
    simp only [Int.toNat_natCast,Nat.pow_eq,zpow_natCast]
    push_cast
    rw [div_div]
  · rename_i he
    obtain ⟨n,hn⟩ := Int.eq_ofNat_of_zero_le (show 0 ≤ -e by omega)
    obtain rfl : e = -(n : Int) := by omega
    simp only [neg_neg,Int.toNat_natCast,Nat.pow_eq,zpow_neg,zpow_natCast]
    push_cast
    rw [div_inv_eq_mul]
    ring

theorem inUnits_lt_iff (num : Nat) {den : Nat} (hd : 0 < den) (e : Int) (a : Nat) :
    (inUnits num den e).1 < a*(inUnits num den e).2 ↔ (num : ℚ)/den < a*2^e := by
  have hunit : (0 : ℚ) < 2^e := by positivity
  have hpos : (0 : ℚ) < (inUnits num den e).2 := by exact_mod_cast inUnits_pos num hd e
  rw [← div_lt_iff₀ hunit,← inUnits_div,div_lt_iff₀ hpos]
  exact_mod_cast Iff.rfl

/-- The exponents of the powers of two below two naturals tell their quotient up to a factor of four. -/
theorem log2_quotient {num den : Nat} (h0 : num ≠ 0) (hd : 0 < den) {e : Int}
    (he : (num.log2 : Int)-den.log2-52 = e) :
    (2 : ℚ)^52*2^(e-1) ≤ num/den ∧ (num : ℚ)/den < 2^53*2^e := by
  have hpos : (0 : ℚ) < den := by exact_mod_cast hd
  have hnum : (2 : ℚ)^num.log2 ≤ num ∧ (num : ℚ) < 2^(num.log2+1) :=
    ⟨by exact_mod_cast Nat.log2_self_le h0,by exact_mod_cast Nat.lt_log2_self⟩
  have hden : (2 : ℚ)^den.log2 ≤ den ∧ (den : ℚ) < 2^(den.log2+1) :=
    ⟨by exact_mod_cast Nat.log2_self_le hd.ne',by exact_mod_cast Nat.lt_log2_self⟩
  have hpow (a b c : Nat) (k : Int) (h : (a : Int) = b+k+c) : (2 : ℚ)^a = 2^b*2^k*2^c := by
    rw [← zpow_natCast,← zpow_natCast,← zpow_natCast,← zpow_add₀ two_ne_zero,← zpow_add₀ two_ne_zero,h]
  constructor
  · rw [le_div_iff₀ hpos]
    calc (2 : ℚ)^52*2^(e-1)*(den : ℚ) ≤ 2^52*2^(e-1)*2^(den.log2+1) := by gcongr; exact hden.2.le
      _ = 2^num.log2 := (hpow _ _ _ _ (by omega)).symm
      _ ≤ (num : ℚ) := hnum.1
  · rw [div_lt_iff₀ hpos]
    calc (num : ℚ) < 2^(num.log2+1) := hnum.2
      _ = 2^53*2^e*2^den.log2 := hpow _ _ _ _ (by omega)
      _ ≤ 2^53*2^e*den := by gcongr; exact hden.1

/-- In units of the chosen exponent the quotient has at most 53 bits before the point, and exactly 53 unless
there are no smaller units. -/
theorem unitExponent_spec {num den : Nat} (h0 : num ≠ 0) (hd : 0 < den) :
    leastExponent ≤ unitExponent num den ∧ (num : ℚ)/den < 2^53*2^unitExponent num den ∧
      (unitExponent num den ≠ leastExponent → (2 : ℚ)^52*2^unitExponent num den ≤ num/den) := by
  generalize he : (num.log2 : Int)-den.log2-52 = e
  obtain ⟨habove,hbelow⟩ := log2_quotient h0 hd he
  have htest := inUnits_lt_iff num hd e (2^52)
  have hhalf : (2 : ℚ)^53*2^(e-1) = 2^52*2^e := by
    rw [zpow_sub_one₀ two_ne_zero]
    ring
  have hmono (k l : Int) (h : k ≤ l) : (2 : ℚ)^53*2^k ≤ 2^53*2^l := by
    gcongr
    exact one_le_two
  rw [Nat.cast_pow,Nat.cast_ofNat] at htest
  simp only [unitExponent,he,Nat.pow_eq]
  split
  · rename_i h
    rw [htest,← hhalf] at h
    refine ⟨le_max_left _ _,lt_of_lt_of_le h (hmono _ _ (le_max_right _ _)),fun hne => ?_⟩
    rw [max_eq_right (by omega)]
    exact habove
  · rename_i h
    rw [htest,not_lt] at h
    refine ⟨le_max_left _ _,lt_of_lt_of_le hbelow (hmono _ _ (le_max_right _ _)),fun hne => ?_⟩
    rw [max_eq_right (by omega)]
    exact h

def rounded (num den : Nat) : Nat :=
  roundEven (inUnits num den (unitExponent num den)).1 (inUnits num den (unitExponent num den)).2

theorem rounded_bounds {num den : Nat} (h0 : num ≠ 0) (hd : 0 < den) :
    rounded num den ≤ 2^53 ∧ (unitExponent num den ≠ leastExponent → 2^52 ≤ rounded num den) := by
  obtain ⟨-,hhi,hlo⟩ := unitExponent_spec h0 hd
  simp only [rounded]
  generalize unitExponent num den = e at hhi hlo ⊢
  have hpos := inUnits_pos num hd e
  constructor
  · have h : (inUnits num den e).1 < 2^53*(inUnits num den e).2 := by
      rw [inUnits_lt_iff num hd]
      exact_mod_cast hhi
    have hfloor := (Nat.div_lt_iff_lt_mul hpos).mpr h
    have hle := roundEven_le (inUnits num den e).1 (inUnits num den e).2
    omega
  · intro hne
    have h : 2^52*(inUnits num den e).2 ≤ (inUnits num den e).1 := by
      rw [← not_lt,inUnits_lt_iff num hd,not_lt]
      exact_mod_cast hlo hne
    exact le_trans ((Nat.le_div_iff_mul_le hpos).mpr h) (div_le_roundEven _ _)

theorem abs_rounded_le (num : Nat) {den : Nat} (hd : 0 < den) (j : Int) :
    |(rounded num den : ℚ)*2^unitExponent num den-num/den| ≤ |(j : ℚ)*2^unitExponent num den-num/den| ∧
      (j ≠ rounded num den →
        |(j : ℚ)*2^unitExponent num den-num/den| = |(rounded num den : ℚ)*2^unitExponent num den-num/den| →
        rounded num den%2 = 0) := by
  simp only [rounded]
  generalize unitExponent num den = e
  have hunit : (0 : ℚ) < 2^e := by positivity
  have hscale (k : ℚ) : |k*2^e-num/den| =
      |k-(inUnits num den e).1/(inUnits num den e).2| * 2^e := by
    rw [inUnits_div,← abs_of_pos hunit,← abs_mul,abs_of_pos hunit,sub_mul,div_mul_cancel₀ _ hunit.ne']
  obtain ⟨hle,heven⟩ := abs_roundEven_le (inUnits num den e).1 _ (inUnits_pos num hd e) j
  rw [hscale,hscale]
  exact ⟨mul_le_mul_of_nonneg_right hle hunit.le,fun hne heq => heven hne (mul_right_cancel₀ hunit.ne' heq)⟩

theorem abs_rounded_lt {num den : Nat} (h0 : num ≠ 0) (hd : 0 < den) {j e : Int} (hj : j < 2^53)
    (hleast : leastExponent ≤ e) (he : e < unitExponent num den) :
    |(rounded num den : ℚ)*2^unitExponent num den-num/den| < |(j : ℚ)*2^e-num/den| := by
  obtain ⟨-,-,hbig⟩ := unitExponent_spec h0 hd
  have hq := hbig (by omega)
  have hsmall : (j : ℚ)*2^e < 2^52*2^unitExponent num den := by
    have hdouble : (2 : ℚ)^53*2^e = 2^52*2^(e+1) := by
      rw [zpow_add_one₀ two_ne_zero]
      ring
    calc (j : ℚ)*2^e < 2^53*2^e := by gcongr; exact_mod_cast hj
      _ = 2^52*2^(e+1) := hdouble
      _ ≤ 2^52*2^unitExponent num den := by gcongr; exacts [one_le_two,he]
  have hwhole := (abs_rounded_le num hd (2^52)).1
  push_cast at hwhole
  have hnear : |(2 : ℚ)^52*2^unitExponent num den-num/den| < |(j : ℚ)*2^e-num/den| := by
    rw [abs_of_nonpos (by linarith),abs_of_nonpos (by linarith)]
    linarith
  exact lt_of_le_of_lt hwhole hnear

theorem abs_rounded_le_number {num den : Nat} (h0 : num ≠ 0) (hd : 0 < den) {j e : Int} (hj : j < 2^53)
    (hleast : leastExponent ≤ e) :
    |(rounded num den : ℚ)*2^unitExponent num den-num/den| ≤ |(j : ℚ)*2^e-num/den| ∧
      ((j : ℚ)*2^e ≠ rounded num den*2^unitExponent num den →
        |(j : ℚ)*2^e-num/den| = |(rounded num den : ℚ)*2^unitExponent num den-num/den| →
        rounded num den%2 = 0) := by
  by_cases he : e < unitExponent num den
  · have h := abs_rounded_lt h0 hd hj hleast he
    exact ⟨h.le,fun _ heq => absurd heq h.ne'⟩
  · obtain ⟨n,hn⟩ := Int.eq_ofNat_of_zero_le (show 0 ≤ e-unitExponent num den by omega)
    have hmultiple : (j : ℚ)*2^e = ((j*2^n : Int) : ℚ)*2^unitExponent num den := by
      have h : e = n+unitExponent num den := by omega
      rw [h,zpow_add₀ two_ne_zero,zpow_natCast]
      push_cast
      ring
    obtain ⟨hle,heven⟩ := abs_rounded_le num hd (j*2^n)
    rw [hmultiple]
    refine ⟨hle,fun hne heq => heven (fun hsame => hne ?_) heq⟩
    rw [hsame,Int.cast_natCast]

/-- The rounded natural with its unit, except that a carry takes the next greater unit. -/
theorem ofRatio_eq (s : Bool) {num den : Nat} (h0 : num ≠ 0) : ofRatio s num den =
    if rounded num den = 2^53 then
      if greatestExponent < unitExponent num den+1 then .infinite s
      else .finite s (2^52) (unitExponent num den+1)
    else if greatestExponent < unitExponent num den then .infinite s
    else .finite s (rounded num den) (unitExponent num den) := by
  simp only [ofRatio,if_neg h0,Nat.pow_eq]
  rw [← rounded]
  split <;> rfl

theorem exists_ofRatio (s : Bool) {num den : Nat} (h0 : num ≠ 0) (hd : 0 < den)
    (hfinite : ofRatio s num den ≠ .infinite s) :
    ∃ m e, ofRatio s num den = .finite s m e ∧ IsNumber (.finite s m e) ∧
      (m : ℚ)*2^e = rounded num den*2^unitExponent num den ∧ (rounded num den%2 = 0 → m%2 = 0) := by
  obtain ⟨htop,hbottom⟩ := rounded_bounds h0 hd
  obtain ⟨hleast,-,-⟩ := unitExponent_spec h0 hd
  rw [ofRatio_eq s h0] at hfinite ⊢
  by_cases hcarry : rounded num den = 2^53
  · rw [if_pos hcarry] at hfinite ⊢
    by_cases hfits : greatestExponent < unitExponent num den+1
    · exact absurd (if_pos hfits) hfinite
    · refine ⟨_,_,if_neg hfits,⟨by decide,.inl le_rfl,by omega,by omega⟩,?_,fun _ => by decide⟩
      rw [hcarry,zpow_add_one₀ two_ne_zero]
      push_cast
      ring
  · rw [if_neg hcarry] at hfinite ⊢
    by_cases hfits : greatestExponent < unitExponent num den
    · exact absurd (if_pos hfits) hfinite
    · refine ⟨_,_,if_neg hfits,⟨by omega,?_,hleast,by omega⟩,rfl,id⟩
      by_cases hsmallest : unitExponent num den = leastExponent
      · exact .inr hsmallest
      · exact .inl (hbottom hsmallest)

theorem ofRatio_ne_infinite (s : Bool) {num den : Nat}
    (h : num ≠ 0 → unitExponent num den < greatestExponent) : ofRatio s num den ≠ .infinite s := by
  by_cases h0 : num = 0
  · rw [ofRatio,if_pos h0]
    exact Binary64.noConfusion
  · have hunit := h h0
    rw [ofRatio_eq s h0,if_neg (show ¬ greatestExponent < unitExponent num den+1 by omega),
      if_neg (show ¬ greatestExponent < unitExponent num den by omega)]
    split <;> exact Binary64.noConfusion

theorem isNearest_zero (s : Bool) : IsNearest (zero s) 0 where
  number := ⟨by decide,.inr rfl,by decide,by decide⟩
  nearest y _ := by
    have h : value (zero s) = 0 := by cases s <;> simp [value,zero]
    rw [h,sub_self,abs_zero]
    exact abs_nonneg _
  even _ _ _ _ := rfl

/-- A quotient that is not too large is correctly rounded. -/
theorem isNearest_ofRatio (s : Bool) (num : Nat) {den : Nat} (hd : 0 < den)
    (hfinite : ofRatio s num den ≠ .infinite s) :
    IsNearest (ofRatio s num den) ((signed s num : Int)/den) := by
  by_cases h0 : num = 0
  · have hzero : ((signed s num : Int) : ℚ)/den = 0 := by cases s <;> simp [h0]
    rw [hzero,ofRatio,if_pos h0]
    exact isNearest_zero s
  · obtain ⟨m,e,hof,hnumber,hvalue,heven⟩ := exists_ofRatio s h0 hd hfinite
    have hsign (x : ℚ) : |x-(signed s num : Int)/den| = |((signed s 1 : Int) : ℚ)*x-num/den| := by
      cases s
      · simp
      · rw [← abs_neg]
        congr 1
        simp
        ring
    have hown : ((signed s 1 : Int) : ℚ)*value (.finite s m e) = rounded num den*2^unitExponent num den := by
      rw [← hvalue]
      cases s <;> simp [value]
    have hcompare (y : Binary64) (hy : y.IsNumber) :
        |value (.finite s m e)-(signed s num : Int)/den| ≤ |y.value-(signed s num : Int)/den| ∧
          (y.value ≠ value (.finite s m e) →
            |y.value-(signed s num : Int)/den| = |value (.finite s m e)-(signed s num : Int)/den| →
            rounded num den%2 = 0) := by
      cases y with
      | nan | infinite => cases hy
      | finite t k c =>
        obtain ⟨hk,-,hc,-⟩ := hy
        have hj : signed s 1*signed t k < 2^53 := by cases s <;> cases t <;> simp <;> omega
        have hother : ((signed s 1 : Int) : ℚ)*value (.finite t k c) =
            (signed s 1*signed t k : Int)*2^c := by
          simp only [value]
          push_cast
          ring
        rw [hsign,hsign,hown,hother]
        obtain ⟨hle,htie⟩ := abs_rounded_le_number h0 hd hj hc
        refine ⟨hle,fun hne => htie fun hsame => hne ?_⟩
        have hunsigned : ((signed s 1 : Int) : ℚ) ≠ 0 := by cases s <;> simp
        rw [← hother,← hown] at hsame
        exact mul_left_cancel₀ hunsigned hsame
    rw [hof]
    exact ⟨hnumber,fun y hy => (hcompare y hy).1,fun y hy hne heq => heven ((hcompare y hy).2 hne heq)⟩

end Binary64
end HealthRollup
