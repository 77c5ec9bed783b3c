import HealthRollup.Gate
import Mathlib.Tactic.NormNum

/-! The floating-point seconds of the gate are exact where they are compared. Rounding never takes the
seconds below a whole number that they had reached, and up to `2 ^ 34` seconds the units are so small
that it never takes them up to a whole number that was not reached. -/
namespace HealthRollup
namespace Binary64

theorem div_le_roundEven (num den : Nat) : num/den ≤ roundEven num den := by
  unfold roundEven
  split <;> omega

theorem roundEven_le (num den : Nat) : roundEven num den ≤ num/den+1 := by
  unfold roundEven
  split <;> omega

theorem den_le_of_roundEven_eq {num den : Nat} (h : roundEven num den = num/den+1) :
    den ≤ 2*(num%den) := by
  unfold roundEven at h
  split at h
  · rename_i hc
    simp only [Bool.or_eq_true,Bool.and_eq_true,beq_iff_eq,decide_eq_true_eq] at hc
    omega
  · omega

theorem le_roundEven_iff (a num den : Nat) (hd : 0 < den)
    (hgap : num < a*den → 2*num+den < 2*(a*den)) : a ≤ roundEven num den ↔ a*den ≤ num := by
  have hdiv : num = num/den*den+num%den := by
    rw [Nat.mul_comm]
    exact (Nat.div_add_mod num den).symm
  have hmod := Nat.mod_lt num hd
  constructor
  · intro h
    by_contra hlt
    have hlt' : num < a*den := by omega
    have hq : num/den < a := (Nat.div_lt_iff_lt_mul hd).mpr hlt'
    have hle := roundEven_le num den
    have ha : a = num/den+1 := by omega
    have hhalf := den_le_of_roundEven_eq (show roundEven num den = num/den+1 by omega)
    have hprod : a*den = num/den*den+den := by rw [ha,Nat.add_mul,Nat.one_mul]
    have hstrict := hgap hlt'
    omega
  · intro h
    exact le_trans ((Nat.le_div_iff_mul_le hd).mpr h) (div_le_roundEven num den)

theorem log2_million : Nat.log2 1000000 = 19 := by
  rw [Nat.log2_eq_iff (by decide)]
  decide

/-- The unit of a number of seconds is below one, and much smaller up to `2 ^ 34` seconds. -/
theorem unitExponent_million (num : Nat) (h0 : num ≠ 0) (hb : num < 2^60) :
    unitExponent num 1000000 ≤ -12 ∧
      (num < 2^34*1000000 → unitExponent num 1000000 ≤ -19) := by
  have hlog : num.log2 < 60 := (Nat.log2_lt h0).mpr hb
  constructor
  · simp only [unitExponent,log2_million,leastExponent]
    split <;> omega
  · intro hs
    have hlog' : num.log2 < 54 := (Nat.log2_lt h0).mpr (lt_trans hs (by decide))
    by_cases htop : num.log2 = 53
    · have hunits : inUnits num 1000000 (-18) = (num*Nat.pow 2 18,1000000) := rfl
      have hlt : num*Nat.pow 2 18 < Nat.pow 2 52*1000000 := by
        simp only [Nat.pow_eq]
        omega
      have he : ((53 : Nat) : Int)-(19 : Nat)-52 = -18 := rfl
      simp only [unitExponent,log2_million,htop,he,hunits,if_pos hlt]
      decide
    · simp only [unitExponent,log2_million,leastExponent]
      split <;> omega

/-- A number of seconds as a multiple of its unit, which the carry to a greater unit leaves as it is. -/
theorem truncate_ofRatio (s : Bool) (num : Nat) (h0 : num ≠ 0) (hb : num < 2^60) :
    truncate (ofRatio s num 1000000) =
      signed s (roundEven (num*2^(-unitExponent num 1000000).toNat) 1000000/
        2^(-unitExponent num 1000000).toNat) := by
  obtain ⟨he,-⟩ := unitExponent_million num h0 hb
  generalize hx : unitExponent num 1000000 = e at he
  have hunits : inUnits num 1000000 e = (num*2^(-e).toNat,1000000) := by
    simp only [inUnits,if_neg (show ¬ 0 ≤ e by omega),Nat.pow_eq]
  simp only [ofRatio,if_neg h0,hx,hunits,greatestExponent]
  generalize hm : roundEven (num*2^(-e).toNat) 1000000 = m
  by_cases hcarry : m = Nat.pow 2 53
  · have hk : (-e).toNat = (-(e+1)).toNat+1 := by omega
    have hhalf : 2^52/2^(-(e+1)).toNat = 2^53/2^(-e).toNat := by
      have hstep := Nat.mul_div_mul_right (2^52) (2^(-(e+1)).toNat) (show 0 < 2 by decide)
      have htop : 2^53 = 2^52*2 := rfl
      rw [hk,Nat.pow_succ 2 (-(e+1)).toNat,htop,hstep]
    simp only [if_pos hcarry,if_neg (show ¬ 971 < e+1 by omega),truncate,
      if_neg (show ¬ 0 ≤ e+1 by omega)]
    simp only [Nat.pow_eq] at hcarry ⊢
    rw [hcarry,hhalf]
  · simp only [if_neg hcarry,if_neg (show ¬ 971 < e by omega),truncate,
      if_neg (show ¬ 0 ≤ e by omega),Nat.pow_eq]

/-- Whole seconds count exactly, up to `2 ^ 34` of them. -/
theorem le_truncate_ofRatio_iff (i num : Nat) (h1 : 1 ≤ i) (hi : i ≤ 2^34) (hb : num < 2^60) :
    (i : Int) ≤ truncate (ofRatio false num 1000000) ↔ i*1000000 ≤ num := by
  by_cases h0 : num = 0
  · subst h0
    have hz : truncate (ofRatio false 0 1000000) = 0 := by decide +kernel
    rw [hz]
    omega
  · obtain ⟨-,hsmall⟩ := unitExponent_million num h0 hb
    rw [truncate_ofRatio false num h0 hb,signed_false,Nat.cast_le,
      Nat.le_div_iff_mul_le (Nat.two_pow_pos _)]
    generalize hk : (-unitExponent num 1000000).toNat = k
    have hpos : 0 < 2^k := Nat.two_pow_pos k
    have hscale : i*2^k*1000000 = i*1000000*2^k := Nat.mul_right_comm i _ _
    rw [le_roundEven_iff _ _ _ (by decide),hscale,Nat.mul_le_mul_right_iff hpos]
    intro hlt
    rw [hscale,Nat.mul_lt_mul_right hpos] at hlt
    have hk19 : 19 ≤ k := by
      have he := hsmall (lt_of_lt_of_le hlt (Nat.mul_le_mul_right _ hi))
      omega
    have hpow : 2^19 ≤ 2^k := Nat.pow_le_pow_right (by decide) hk19
    have hstep : (num+1)*2^k ≤ i*1000000*2^k := Nat.mul_le_mul_right _ hlt
    rw [Nat.add_mul,Nat.one_mul] at hstep
    rw [hscale]
    omega

end Binary64

namespace Moment

theorem truncate_ofRatio_nonpos (num : Nat) (hb : num < 2^60) :
    Binary64.truncate (Binary64.ofRatio true num 1000000) ≤ 0 := by
  by_cases h0 : num = 0
  · subst h0
    decide +kernel
  · rw [Binary64.truncate_ofRatio true num h0 hb,Binary64.signed_true]
    exact neg_nonpos_of_nonneg (Int.natCast_nonneg _)

theorem le_elapsed_iff (last now : Moment) (i : Int) (h1 : 1 ≤ i) (hi : i ≤ 2^34)
    (hb : (now.instant-last.instant).natAbs < 2^60) :
    i ≤ elapsed last now ↔ i*1000000 ≤ now.instant-last.instant := by
  obtain ⟨n,rfl⟩ := Int.eq_ofNat_of_zero_le (show 0 ≤ i by omega)
  simp only [elapsed,secondsFrom]
  generalize hd : now.instant-last.instant = d at hb
  by_cases hneg : d < 0
  · have h := truncate_ofRatio_nonpos d.natAbs hb
    simp only [hneg,decide_true]
    omega
  · have h := Binary64.le_truncate_ofRatio_iff n d.natAbs (by omega) (by omega) hb
    simp only [hneg,decide_false,h]
    omega

end Moment

namespace Number

/-- The number is this integer, as an integer or in floating point. -/
def IsInteger : Number → Int → Prop
  | .int n, i => n = i
  | .real (.finite s m e), i =>
    if 0 ≤ e then Binary64.signed s (m*2^e.toNat) = i
    else Binary64.signed s m = i*(2^(-e).toNat : Nat)
  | .real _, _ => False

theorem atMost_of_isInteger {n : Number} {i : Int} (h : n.IsInteger i) (k : Int) :
    n.atMost k = decide (i ≤ k) := by
  match n, h with
  | .int n, h =>
    obtain rfl := h
    rfl
  | .real (.finite s m e), h =>
    simp only [IsInteger] at h
    simp only [atMost_real,Binary64.atMost,Nat.pow_eq]
    split at h
    · rename_i he
      simp only [if_pos he,h]
    · rename_i he
      have hp : (0 : Int) < (2^(-e).toNat : Nat) := Int.natCast_pos.mpr (Nat.two_pow_pos _)
      have hiff : i*(2^(-e).toNat : Nat) ≤ k*(2^(-e).toNat : Nat) ↔ i ≤ k := mul_le_mul_iff_left₀ hp
      simp only [if_neg he,h,hiff]

end Number

namespace Gate

theorem check_of_stamped {status : ScopeStatus} {stamp : String} {last now : Moment} {n : Number}
    {i : Int} (hat : status.aggregatedAt = .text stamp) (hread : Timestamp.read stamp = .ok last)
    (hn : n.IsInteger i) (h1 : 1 ≤ i) (hi : i ≤ 2^34)
    (hb : (now.instant-last.instant).natAbs < 2^60) :
    check (some status) (.num n) now =
      .ok ⟨decide (i*1000000 ≤ now.instant-last.instant),[]⟩ := by
  have hpos : n.atMost 0 = false := by
    rw [Number.atMost_of_isInteger hn]
    exact decide_eq_false (by omega)
  have htime : timeOf (.text stamp) = .ok last := by simp [timeOf,hread,Except.mapError]
  simp only [check,Value.quantity?_num,hpos,Bool.false_eq_true,if_false,Option.map_some,
    Option.getD_some,hat,decision,htime,Number.atMost_of_isInteger hn,
    Moment.le_elapsed_iff last now i h1 hi hb]

end Gate
end HealthRollup
