import HealthRollup.Text.Integer

/-! Integers as people spell them. The grammar says which texts spell an integer and which digits they have;
the reader takes these texts and no others, as long as the digits are not too many. -/
namespace HealthRollup
namespace Digit

/-- A digit stands as many places behind the zero of its script as it counts. -/
def Counts (c : Char) (d : Nat) : Prop := d < 10 ∧ ∃ z ∈ zeros, c.toNat = z+d

/-- Of runs that do not overlap, one alone holds a number. -/
theorem find?_run {zs : List Nat} (hzs : zs.Pairwise fun z z' => z+10 ≤ z') {z n : Nat} (hz : z ∈ zs)
    (hle : z ≤ n) (hlt : n < z+10) : zs.find? (fun z => z ≤ n && n < z+10) = some z := by
  induction zs with
  | nil => cases hz
  | cons a zs ih =>
    obtain ⟨ha,hrest⟩ := List.pairwise_cons.mp hzs
    rcases List.mem_cons.mp hz with rfl | hz
    · simp [hle,hlt]
    · have hapart := ha z hz
      have hna : ¬ n < a+10 := by omega
      simpa [hna] using ih hrest hz

theorem value?_eq_some_iff (c : Char) (d : Nat) : value? c = some d ↔ Counts c d := by
  simp only [value?,Option.map_eq_some_iff]
  constructor
  · rintro ⟨z,hz,rfl⟩
    have hrun := List.find?_some hz
    simp only [Bool.and_eq_true,decide_eq_true_eq] at hrun
    exact ⟨by omega,z,List.mem_of_find?_eq_some hz,by omega⟩
  · rintro ⟨hd,z,hz,hc⟩
    have hzeros : zeros.Pairwise fun z z' => z+10 ≤ z' := by decide +kernel
    exact ⟨z,find?_run hzeros hz (by omega) (by omega),by omega⟩

theorem Counts.not_isNumberBlank {c : Char} {d : Nat} (h : Counts c d) :
    Blank.isNumberBlank c = false := by
  obtain ⟨hd,z,hz,hc⟩ := h
  have hruns : ∀ z ∈ zeros, ∀ d < 10, Ranges.covers Blank.runs (z+d) = false := by decide +kernel
  simp [Blank.isNumberBlank,Blank.isBlank,hc,hruns z hz d hd]

theorem not_counts {c : Char} (h : value? c = none) (d : Nat) : ¬ Counts c d := by
  simp [← value?_eq_some_iff,h]

theorem counts_of_isDigit {c : Char} (h : c.isDigit = true) : Counts c (c.toNat-0x30) := by
  simp only [Char.isDigit,Bool.and_eq_true,decide_eq_true_eq] at h
  obtain ⟨hle,hlt⟩ := h
  have h0 : 48 ≤ c.toNat := hle
  have h9 : c.toNat ≤ 57 := hlt
  exact ⟨by omega,0x30,by decide,by omega⟩

end Digit

namespace Integer
open Digit

/-- Digits, with a single underscore between two of them where one is wanted. -/
inductive Numeral : List Char → List Nat → Prop
  | digit (c : Char) (d : Nat) (h : Counts c d) : Numeral [c] [d]
  | next (c : Char) (d : Nat) (cs : List Char) (ds : List Nat) (h : Counts c d)
      (rest : Numeral cs ds) : Numeral (c::cs) (d::ds)
  | apart (c : Char) (d : Nat) (cs : List Char) (ds : List Nat) (h : Counts c d)
      (rest : Numeral cs ds) : Numeral (c:: '_' :: cs) (d::ds)

/-- A numeral with a sign or without one. -/
inductive Signed : List Char → List Nat → Int → Prop
  | bare (cs : List Char) (ds : List Nat) (h : Numeral cs ds) : Signed cs ds (number ds)
  | plus (cs : List Char) (ds : List Nat) (h : Numeral cs ds) : Signed ('+' :: cs) ds (number ds)
  | minus (cs : List Char) (ds : List Nat) (h : Numeral cs ds) :
      Signed ('-' :: cs) ds (-(number ds : Int))

/-- An integer as people spell it, with the values of its digits. -/
inductive Spelled : List Char → List Nat → Int → Prop
  | mk (front cs back : List Char) (ds : List Nat) (n : Int)
      (hfront : ∀ c ∈ front, Blank.isNumberBlank c = true)
      (hback : ∀ c ∈ back, Blank.isNumberBlank c = true) (h : Signed cs ds n) :
      Spelled (front++(cs++back)) ds n

theorem more?_of_digits? {cs : List Char} {ds : List Nat} (h : digits? cs = some ds) :
    more? cs = some ds := by
  cases cs with
  | nil => cases h
  | cons c cs =>
    obtain ⟨d,hd,hrest⟩ := Option.bind_eq_some_iff.mp h
    rw [more?.eq_def]
    simpa only [hd] using hrest

theorem more?_underscore {cs : List Char} {ds : List Nat} (h : digits? cs = some ds) :
    more? ('_' :: cs) = some ds := by
  have hmark : value? '_' = none := by decide +kernel
  cases cs with
  | nil => cases h
  | cons c cs =>
    rw [more?.eq_def]
    simp only [hmark,if_true]
    exact h

theorem Numeral.digits? {cs : List Char} {ds : List Nat} (h : Numeral cs ds) :
    digits? cs = some ds := by
  induction h with
  | digit c d h => simp [Integer.digits?,(value?_eq_some_iff c d).mpr h,more?]
  | next c d cs ds h rest ih =>
    simp [Integer.digits?,(value?_eq_some_iff c d).mpr h,more?_of_digits? ih]
  | apart c d cs ds h rest ih =>
    simp [Integer.digits?,(value?_eq_some_iff c d).mpr h,more?_underscore ih]

theorem numeral_of_more? {cs : List Char} {ds : List Nat} (h : more? cs = some ds) (c : Char) (d : Nat)
    (hc : Counts c d) : Numeral (c::cs) (d::ds) := by
  fun_induction more? cs generalizing ds c d with
  | case1 =>
    cases h
    exact .digit c d hc
  | case2 b cs e he ih =>
    obtain ⟨es,hes,rfl⟩ := Option.map_eq_some_iff.mp h
    exact .next c d _ _ hc (ih hes b e ((value?_eq_some_iff b e).mp he))
  | case3 => cases h
  | case4 b bs hv ih =>
    obtain ⟨e,he,hrest⟩ := Option.bind_eq_some_iff.mp h
    obtain ⟨es,hes,rfl⟩ := Option.map_eq_some_iff.mp hrest
    exact .apart c d _ _ hc (ih hes b e ((value?_eq_some_iff b e).mp he))
  | case5 => cases h

theorem digits?_eq_some_iff (cs : List Char) (ds : List Nat) :
    digits? cs = some ds ↔ Numeral cs ds := by
  refine ⟨fun h => ?_,Numeral.digits?⟩
  cases cs with
  | nil => cases h
  | cons c cs =>
    obtain ⟨d,hd,hrest⟩ := Option.bind_eq_some_iff.mp h
    obtain ⟨es,hes,rfl⟩ := Option.map_eq_some_iff.mp hrest
    exact numeral_of_more? hes c d ((value?_eq_some_iff c d).mp hd)

theorem magnitude?_eq_some_iff (cs : List Char) (n : Nat) :
    magnitude? cs = some n ↔ ∃ ds, Numeral cs ds ∧ ds.length ≤ digitLimit ∧ n = number ds := by
  simp only [magnitude?,Option.bind_eq_some_iff,digits?_eq_some_iff,Option.ite_none_right_eq_some,
    Option.some.injEq]
  exact exists_congr fun ds => and_congr_right fun _ => and_congr_right fun _ => eq_comm

theorem Numeral.head {cs : List Char} {ds : List Nat} (h : Numeral cs ds) :
    ∃ c d rest, cs = c::rest ∧ Counts c d := by
  cases h with
  | digit c d h => exact ⟨c,d,[],rfl,h⟩
  | next c d cs ds h rest => exact ⟨c,d,cs,rfl,h⟩
  | apart c d cs ds h rest => exact ⟨c,d,'_' :: cs,rfl,h⟩

theorem Numeral.last {cs : List Char} {ds : List Nat} (h : Numeral cs ds) :
    ∃ c d front, cs = front++[c] ∧ Counts c d := by
  induction h with
  | digit c d h => exact ⟨c,d,[],rfl,h⟩
  | next c d cs ds h rest ih =>
    obtain ⟨b,e,front,rfl,hb⟩ := ih
    exact ⟨b,e,c::front,rfl,hb⟩
  | apart c d cs ds h rest ih =>
    obtain ⟨b,e,front,rfl,hb⟩ := ih
    exact ⟨b,e,c:: '_' :: front,rfl,hb⟩

theorem counts_ne {c : Char} {d : Nat} (h : Counts c d) : c ≠ '+' ∧ c ≠ '-' := by
  constructor
  · rintro rfl
    exact not_counts (by decide +kernel) d h
  · rintro rfl
    exact not_counts (by decide +kernel) d h

theorem map_magnitude?_eq_some_iff (f : Int → Int) (cs : List Char) (n : Int) :
    ((magnitude? cs).bind fun m => some (m : Int)).map f = some n ↔
      ∃ ds, Numeral cs ds ∧ ds.length ≤ digitLimit ∧ f (number ds) = n := by
  simp only [Option.map_eq_some_iff,Option.bind_eq_some_iff,magnitude?_eq_some_iff,Option.some.injEq]
  constructor
  · rintro ⟨_,⟨_,⟨ds,hds,hlimit,rfl⟩,rfl⟩,rfl⟩
    exact ⟨ds,hds,hlimit,rfl⟩
  · rintro ⟨ds,hds,hlimit,rfl⟩
    exact ⟨_,⟨_,⟨ds,hds,hlimit,rfl⟩,rfl⟩,rfl⟩

theorem Numeral.head_ne {c : Char} {cs : List Char} {ds : List Nat} (h : Numeral (c::cs) ds) :
    c ≠ '+' ∧ c ≠ '-' := by
  obtain ⟨b,d,rest,he,hb⟩ := h.head
  obtain ⟨rfl,rfl⟩ := List.cons.inj he
  exact counts_ne hb

theorem signed?_eq_some_iff (cs : List Char) (n : Int) :
    signed? cs = some n ↔ ∃ ds, Signed cs ds n ∧ ds.length ≤ digitLimit := by
  constructor
  · intro h
    unfold signed? at h
    split at h
    · obtain ⟨ds,hds,hlimit,rfl⟩ := (map_magnitude?_eq_some_iff _ _ n).mp h
      exact ⟨ds,.minus _ ds hds,hlimit⟩
    · obtain ⟨ds,hds,hlimit,rfl⟩ := (map_magnitude?_eq_some_iff _ _ n).mp h
      exact ⟨ds,.plus _ ds hds,hlimit⟩
    · obtain ⟨ds,hds,hlimit,rfl⟩ := (map_magnitude?_eq_some_iff _ _ n).mp h
      exact ⟨ds,.bare _ ds hds,hlimit⟩
  · rintro ⟨ds,h,hlimit⟩
    cases h with
    | bare _ _ hcs =>
      unfold signed?
      split
      · exact absurd rfl hcs.head_ne.2
      · exact absurd rfl hcs.head_ne.1
      · exact (map_magnitude?_eq_some_iff id cs _).mpr ⟨ds,hcs,hlimit,rfl⟩
    | plus cs _ hcs => exact (map_magnitude?_eq_some_iff id cs _).mpr ⟨ds,hcs,hlimit,rfl⟩
    | minus cs _ hcs => exact (map_magnitude?_eq_some_iff (-·) cs _).mpr ⟨ds,hcs,hlimit,rfl⟩

theorem not_isNumberBlank_sign : Blank.isNumberBlank '+' = false ∧ Blank.isNumberBlank '-' = false := by
  decide +kernel

theorem Signed.head {cs : List Char} {ds : List Nat} {n : Int} (h : Signed cs ds n) :
    ∃ c rest, cs = c::rest ∧ Blank.isNumberBlank c = false := by
  cases h with
  | bare _ _ hcs =>
    obtain ⟨c,d,rest,rfl,hc⟩ := hcs.head
    exact ⟨c,rest,rfl,hc.not_isNumberBlank⟩
  | plus cs _ hcs => exact ⟨'+',cs,rfl,not_isNumberBlank_sign.1⟩
  | minus cs _ hcs => exact ⟨'-',cs,rfl,not_isNumberBlank_sign.2⟩

theorem Signed.last {cs : List Char} {ds : List Nat} {n : Int} (h : Signed cs ds n) :
    ∃ c front, cs = front++[c] ∧ Blank.isNumberBlank c = false := by
  have hlast {as : List Char} (has : Numeral as ds) :
      ∃ c front, as = front++[c] ∧ Blank.isNumberBlank c = false := by
    obtain ⟨c,d,front,rfl,hc⟩ := has.last
    exact ⟨c,front,rfl,hc.not_isNumberBlank⟩
  cases h with
  | bare _ _ hcs => exact hlast hcs
  | plus cs _ hcs =>
    obtain ⟨c,front,rfl,hc⟩ := hlast hcs
    exact ⟨c,'+' :: front,rfl,hc⟩
  | minus cs _ hcs =>
    obtain ⟨c,front,rfl,hc⟩ := hlast hcs
    exact ⟨c,'-' :: front,rfl,hc⟩

theorem Signed.trim {cs : List Char} {ds : List Nat} {n : Int} (h : Signed cs ds n)
    {front back : List Char} (hfront : ∀ c ∈ front, Blank.isNumberBlank c = true)
    (hback : ∀ c ∈ back, Blank.isNumberBlank c = true) :
    Blank.trim Blank.isNumberBlank (front++(cs++back)) = cs := by
  obtain ⟨a,as,hhead,ha⟩ := h.head
  obtain ⟨b,bs,hlast,hb⟩ := h.last
  refine Blank.trim_append hfront hback (by simp [hhead]) ?_ ?_
  · rintro c hc
    rw [hhead] at hc
    exact Option.some.inj hc ▸ ha
  · rintro c hc
    rw [hlast,List.getLast?_concat] at hc
    exact Option.some.inj hc ▸ hb

/-- What is read is what is spelled, as long as it has not too many digits. -/
theorem read?_eq_some_iff (cs : List Char) (n : Int) :
    read? cs = some n ↔ ∃ ds, Spelled cs ds n ∧ ds.length ≤ digitLimit := by
  rw [read?,signed?_eq_some_iff]
  constructor
  · rintro ⟨ds,h,hlimit⟩
    obtain ⟨front,back,hcs,hfront,hback⟩ := Blank.exists_trim Blank.isNumberBlank cs
    rw [hcs]
    exact ⟨ds,.mk front _ back ds n hfront hback h,hlimit⟩
  · rintro ⟨ds,h,hlimit⟩
    cases h with
    | mk front cs back _ _ hfront hback h =>
      rw [h.trim hfront hback]
      exact ⟨ds,h,hlimit⟩

theorem numeral_of_isDigit {cs : List Char} (hne : cs ≠ []) (h : ∀ c ∈ cs, c.isDigit = true) :
    Numeral cs (cs.map fun c => c.toNat-0x30) := by
  induction cs with
  | nil => exact absurd rfl hne
  | cons c cs ih =>
    have hc := counts_of_isDigit (h c List.mem_cons_self)
    by_cases hcs : cs = []
    · subst hcs
      exact .digit c _ hc
    · exact .next c _ cs _ hc (ih hcs fun b hb => h b (List.mem_cons_of_mem _ hb))

theorem toList_toString (n : Nat) : (toString n).toList = Nat.toDigits 10 n := by
  rw [Nat.toString_eq_ofList_toDigits,String.toList_ofList]

theorem spelled_toString (n : Nat) : ∃ ds, Spelled (toString n).toList ds n ∧
    ds.length = (Nat.toDigits 10 n).length := by
  have hdigits : ∀ c ∈ Nat.toDigits 10 n, c.isDigit = true := fun c hc =>
    Nat.isDigit_of_mem_toDigits (by decide) (by decide) hc
  have hvalue : number ((Nat.toDigits 10 n).map fun c => c.toNat-0x30) = n := by
    rw [number,List.foldl_map]
    exact Nat.ofDigitChars_eq_foldl.symm.trans Nat.ofDigitChars_ten_toDigits
  have hbare := Signed.bare _ _ (numeral_of_isDigit Nat.toDigits_ne_nil hdigits)
  have hspelled := Spelled.mk [] _ [] _ _ (by simp) (by simp) hbare
  rw [hvalue,List.append_nil,List.nil_append] at hspelled
  rw [toList_toString]
  exact ⟨_,hspelled,List.length_map _⟩

end Integer

end HealthRollup
