import HealthRollup.Time.Moment

/-! Days and their numbers. Every day number up to the end of year 9999 is the number of the date that
it is turned into, so a moment keeps its instant when it is written on the clock of UTC. -/
namespace HealthRollup
namespace Date

theorem foldl_add (ls : List Nat) (n : Nat) : ls.foldl (·+·) n = n+ls.foldl (·+·) 0 := by
  induction ls generalizing n with
  | nil => rfl
  | cons l ls ih =>
    rw [List.foldl_cons,List.foldl_cons,ih,ih (0+l)]
    omega

/-- A count below the sum of the lengths falls into one of them. -/
theorem locate_spec (ls : List Nat) (n : Nat) (h : n < ls.foldl (·+·) 0) :
    (locate ls n).1 < ls.length ∧ (locate ls n).2 < ls.getD (locate ls n).1 0 ∧
      (ls.take (locate ls n).1).foldl (·+·) 0+(locate ls n).2 = n := by
  induction ls generalizing n with
  | nil => simp at h
  | cons l ls ih =>
    by_cases hn : n < l
    · simp [locate,hn]
    · rw [List.foldl_cons,foldl_add] at h
      obtain ⟨h₁,h₂,h₃⟩ := ih (n-l) (by omega)
      simp only [locate,if_neg hn]
      refine ⟨by simpa using h₁,by simpa using h₂,?_⟩
      rw [List.take_succ_cons,List.foldl_cons,foldl_add]
      omega

theorem sum_monthLengths (y : Nat) :
    (monthLengths y).foldl (·+·) 0 = if isLeap y then 366 else 365 := by
  cases h : isLeap y <;> simp [monthLengths,h]

theorem monthLength_le (y m : Nat) : monthLength y m ≤ 31 := by
  have hall : ∀ l ∈ monthLengths y, l ≤ 31 := by
    cases h : isLeap y <;> simp [monthLengths,h]
  rw [monthLength,List.getD_eq_getElem?_getD]
  cases h : (monthLengths y)[m-1]? with
  | none => simp
  | some l => exact hall l (List.mem_of_getElem? h)

/-- A day of a year, counted from nought, is a date of that year. -/
theorem ofDayOfYear_spec (y n : Nat) (hy : 1 ≤ y ∧ y ≤ 9999)
    (h : n < if isLeap y then 366 else 365) :
    (ofDayOfYear y n).IsValid ∧ (ofDayOfYear y n).ordinal = daysBeforeYear y+n+1 := by
  rw [← sum_monthLengths] at h
  obtain ⟨h₁,h₂,h₃⟩ := locate_spec (monthLengths y) n h
  have hlength : (monthLengths y).length = 12 := rfl
  constructor
  · refine ⟨hy,⟨?_,?_⟩,?_,?_⟩
    · change 1 ≤ _+1
      omega
    · change _+1 ≤ 12
      omega
    · change 1 ≤ _+1
      omega
    · change _+1 ≤ (monthLengths y).getD (_+1-1) 0
      rw [Nat.add_sub_cancel]
      omega
  · simp only [ordinal,ofDayOfYear,daysBeforeMonth,Nat.add_sub_cancel]
    omega

theorem daysBeforeYear_eq (a b c d : Nat) (hb : b ≤ 3) (hc : c ≤ 24) (hd : d ≤ 3) :
    daysBeforeYear (400*a+100*b+4*c+d+1) = 146097*a+36524*b+1461*c+365*d := by
  simp only [daysBeforeYear,Nat.add_sub_cancel]
  omega

theorem isLeap_iff (y : Nat) : isLeap y = true ↔ y%4 = 0 ∧ (y%100 ≠ 0 ∨ y%400 = 0) := by
  simp [isLeap]

theorem ofOrdinal_spec (n : Nat) (h1 : 1 ≤ n) (hn : n ≤ lastOrdinal) :
    (ofOrdinal n).IsValid ∧ (ofOrdinal n).ordinal = n := by
  simp only [ofOrdinal]
  have hlast : n ≤ 3652059 := hn
  generalize ha : (n-1)/146097 = a
  generalize hr : (n-1)%146097 = r
  generalize hb : min (r/36524) 3 = b
  generalize hs : r-b*36524 = s
  generalize hc : s/1461 = c
  generalize ht : s%1461 = t
  generalize hd : min (t/365) 3 = d
  have hb3 : b ≤ 3 := by omega
  have hs' : s ≤ 36524 := by omega
  have hc24 : c ≤ 24 := by omega
  have hd3 : d ≤ 3 := by omega
  have hn' : n = 146097*a+36524*b+1461*c+365*d+(t-d*365)+1 := by omega
  have hdays := daysBeforeYear_eq a b c d hb3 hc24 hd3
  have hyear : 400*a+100*b+4*c+d+1 ≤ 9999 := by omega
  have hlength : t-d*365 < if isLeap (400*a+100*b+4*c+d+1) then 366 else 365 := by
    by_cases hx : t-d*365 < 365
    · split <;> omega
    · have hleap : isLeap (400*a+100*b+4*c+d+1) = true := by
        rw [isLeap_iff]
        omega
      rw [if_pos hleap]
      omega
  obtain ⟨hv,ho⟩ := ofDayOfYear_spec _ _ ⟨by omega,hyear⟩ hlength
  refine ⟨hv,?_⟩
  rw [ho,hdays]
  omega

theorem locate_of_take (ls : List Nat) (i r : Nat) (hr : r < ls.getD i 0) :
    locate ls ((ls.take i).foldl (·+·) 0+r) = (i,r) := by
  induction ls generalizing i with
  | nil => cases hr
  | cons l ls ih =>
    cases i with
    | zero =>
      have hl : r < l := hr
      simp [locate,hl]
    | succ i =>
      have hrest := ih i hr
      rw [List.take_succ_cons,List.foldl_cons,foldl_add]
      generalize hn : (ls.take i).foldl (·+·) 0 = n at hrest
      have hsub : 0+l+n+r-l = n+r := by omega
      simp only [locate,if_neg (show ¬ 0+l+n+r < l by omega),hsub,hrest]

theorem take_add_getD_le (ls : List Nat) (i : Nat) :
    (ls.take i).foldl (·+·) 0+ls.getD i 0 ≤ ls.foldl (·+·) 0 := by
  induction ls generalizing i with
  | nil => simp
  | cons l ls ih =>
    cases i with
    | zero =>
      have htotal := foldl_add ls (0+l)
      simp only [List.take_zero,List.foldl_nil,List.getD_cons_zero,List.foldl_cons]
      omega
    | succ i =>
      have hrest := ih i
      rw [List.take_succ_cons,List.foldl_cons,List.foldl_cons,foldl_add,foldl_add ls]
      simp only [List.getD_cons_succ]
      omega

/-- The days of a year, from the last day of the year before to its own last day. -/
theorem ordinal_bounds {d : Date} (h : d.IsValid) :
    daysBeforeYear d.year < d.ordinal ∧
      d.ordinal ≤ daysBeforeYear d.year+if isLeap d.year then 366 else 365 := by
  obtain ⟨-,-,hlo,hhi⟩ := h
  have hpart := take_add_getD_le (monthLengths d.year) (d.month-1)
  rw [sum_monthLengths] at hpart
  have hlength : d.day ≤ (monthLengths d.year).getD (d.month-1) 0 := hhi
  simp only [ordinal,daysBeforeMonth]
  omega

theorem daysBeforeYear_succ (y : Nat) (hy : 1 ≤ y) :
    daysBeforeYear (y+1) = daysBeforeYear y+if isLeap y then 366 else 365 := by
  have hleap := isLeap_iff y
  have h4 : y/4 = (y-1)/4+if y%4 = 0 then 1 else 0 := by split <;> omega
  have h100 : y/100 = (y-1)/100+if y%100 = 0 then 1 else 0 := by split <;> omega
  have h400 : y/400 = (y-1)/400+if y%400 = 0 then 1 else 0 := by split <;> omega
  have hcentury : (y-1)/100 ≤ (y-1)/4 := by omega
  have hfour : y%400 = 0 → y%100 = 0 := by omega
  have hone : y%100 = 0 → y%4 = 0 := by omega
  simp only [daysBeforeYear,Nat.add_sub_cancel,h4,h100,h400]
  grind

theorem daysBeforeYear_le {y z : Nat} (hy : 1 ≤ y) (h : y ≤ z) : daysBeforeYear y ≤ daysBeforeYear z := by
  induction h with
  | refl => exact Nat.le_refl _
  | @step z h ih =>
    have hstep := daysBeforeYear_succ z (Nat.le_trans hy h)
    change _ ≤ daysBeforeYear (z+1)
    omega
theorem ordinal_le_lastOrdinal {d : Date} (h : d.IsValid) : 1 ≤ d.ordinal ∧ d.ordinal ≤ lastOrdinal := by
  obtain ⟨hlo,hhi⟩ := ordinal_bounds h
  obtain ⟨⟨hy,hy'⟩,-⟩ := h
  rw [← daysBeforeYear_succ _ hy] at hhi
  have hlast : daysBeforeYear (d.year+1) ≤ daysBeforeYear 10000 := daysBeforeYear_le (by omega) (by omega)
  have hend : daysBeforeYear 10000 = lastOrdinal := by decide
  omega

theorem ordinal_injective {d d' : Date} (h : d.IsValid) (h' : d'.IsValid) (ho : d.ordinal = d'.ordinal) :
    d = d' := by
  have hyear : d.year = d'.year := by
    obtain ⟨hlo,hhi⟩ := ordinal_bounds h
    obtain ⟨hlo',hhi'⟩ := ordinal_bounds h'
    rw [← daysBeforeYear_succ _ h.1.1] at hhi
    rw [← daysBeforeYear_succ _ h'.1.1] at hhi'
    rcases Nat.lt_trichotomy d.year d'.year with hlt | heq | hgt
    · have hle := daysBeforeYear_le (Nat.le_add_left 1 _) (show d.year+1 ≤ d'.year from hlt)
      omega
    · exact heq
    · have hle := daysBeforeYear_le (Nat.le_add_left 1 _) (show d'.year+1 ≤ d.year from hgt)
      omega
  obtain ⟨y,m,n⟩ := d
  obtain ⟨y',m',n'⟩ := d'
  obtain rfl : y = y' := hyear
  obtain ⟨-,⟨hm,-⟩,hn,hlength⟩ := h
  obtain ⟨-,⟨hm',-⟩,hn',hlength'⟩ := h'
  have hplace : (m-1,n-1) = (m'-1,n'-1) := by
    have hday : n-1 < (monthLengths y).getD (m-1) 0 :=
      Nat.lt_of_lt_of_le (Nat.sub_one_lt_of_lt hn) hlength
    have hday' : n'-1 < (monthLengths y).getD (m'-1) 0 :=
      Nat.lt_of_lt_of_le (Nat.sub_one_lt_of_lt hn') hlength'
    rw [← locate_of_take _ _ _ hday,← locate_of_take _ _ _ hday']
    simp only [ordinal,daysBeforeMonth] at ho
    have hcount : ((monthLengths y).take (m-1)).foldl (·+·) 0+(n-1) =
        ((monthLengths y).take (m'-1)).foldl (·+·) 0+(n'-1) := by
      simp only at hn hn'
      omega
    rw [hcount]
  simp only [Prod.mk.injEq] at hplace hm hm' hn hn'
  obtain rfl : m = m' := by omega
  obtain rfl : n = n' := by omega
  rfl

theorem ofOrdinal_ordinal {d : Date} (h : d.IsValid) : ofOrdinal d.ordinal = d := by
  obtain ⟨hlo,hhi⟩ := ordinal_le_lastOrdinal h
  obtain ⟨hvalid,hord⟩ := ofOrdinal_spec d.ordinal hlo hhi
  exact ordinal_injective hvalid h hord

end Date

namespace TimeOfDay

theorem ofMicros_isValid (n : Nat) (h : n < dayLength) : (ofMicros n).IsValid := by
  simp only [dayLength] at h
  simp only [IsValid,ofMicros]
  omega

theorem micros_lt {t : TimeOfDay} (h : t.IsValid) : t.micros < dayLength := by
  obtain ⟨hh,hm,hs,hu⟩ := h
  simp only [micros,dayLength]
  omega

end TimeOfDay

namespace Moment

/-- On the clock of UTC a moment has a valid date and time, no offset, and the same instant. -/
theorem utc?_spec {m u : Moment} (h : m.utc? = some u) :
    u.date.IsValid ∧ u.time.IsValid ∧ u.offset = 0 ∧ u.instant = m.instant ∧
      0 ≤ m.instant ∧ m.instant < Date.lastOrdinal*TimeOfDay.dayLength := by
  simp only [utc?,ofReading?] at h
  split at h
  · rename_i hc
    simp only [Bool.and_eq_true,decide_eq_true_eq] at hc
    obtain ⟨hlo,hhi⟩ := hc
    obtain rfl := Option.some.inj h
    obtain ⟨n,hn⟩ := Int.eq_ofNat_of_zero_le hlo
    rw [hn] at hhi hlo ⊢
    have hday : 0 < TimeOfDay.dayLength := by decide
    have hlt : n < Date.lastOrdinal*TimeOfDay.dayLength := by exact_mod_cast hhi
    have hd : n/TimeOfDay.dayLength < Date.lastOrdinal := (Nat.div_lt_iff_lt_mul hday).mpr hlt
    obtain ⟨hvalid,hord⟩ := Date.ofOrdinal_spec (n/TimeOfDay.dayLength+1) (Nat.succ_pos _) hd
    refine ⟨hvalid,TimeOfDay.ofMicros_isValid _ (Nat.mod_lt _ hday),rfl,?_,hlo,hhi⟩
    have hdiv := Nat.div_add_mod n TimeOfDay.dayLength
    have hmul := Nat.mul_comm (n/TimeOfDay.dayLength) TimeOfDay.dayLength
    simp only [instant,reading,Int.toNat_natCast,hord,TimeOfDay.micros_ofMicros]
    push_cast
    simp only [TimeOfDay.dayLength] at hdiv ⊢
    omega
  · cases h

theorem reading_bounds {m : Moment} (hd : m.date.IsValid) (ht : m.time.IsValid) :
    0 ≤ m.reading ∧ m.reading < Date.lastOrdinal*TimeOfDay.dayLength := by
  obtain ⟨hlo,hhi⟩ := Date.ordinal_le_lastOrdinal hd
  have hmicros := TimeOfDay.micros_lt ht
  simp only [reading,Date.lastOrdinal,TimeOfDay.dayLength] at hhi hmicros ⊢
  omega

theorem utc?_of_instant {m u : Moment} (hd : u.date.IsValid) (ht : u.time.IsValid) (ho : u.offset = 0)
    (hi : u.instant = m.instant) : m.utc? = some u := by
  obtain ⟨hlo,hhi⟩ := reading_bounds hd ht
  have hday : 0 < TimeOfDay.dayLength := by decide
  have hfirst := (Date.ordinal_le_lastOrdinal hd).1
  have hmicros := TimeOfDay.micros_lt ht
  have hreading : m.instant = u.reading := by rw [← hi,instant,ho,Int.sub_zero]
  have hcount : u.reading = ((u.date.ordinal-1)*TimeOfDay.dayLength+u.time.micros : Nat) := by
    simp only [reading,TimeOfDay.dayLength]
    omega
  have hquot : ((u.date.ordinal-1)*TimeOfDay.dayLength+u.time.micros)/TimeOfDay.dayLength =
      u.date.ordinal-1 := by
    rw [Nat.mul_comm,Nat.mul_add_div hday,Nat.div_eq_of_lt hmicros,Nat.add_zero]
  have hrest : ((u.date.ordinal-1)*TimeOfDay.dayLength+u.time.micros)%TimeOfDay.dayLength =
      u.time.micros := by
    rw [Nat.mul_comm,Nat.mul_add_mod,Nat.mod_eq_of_lt hmicros]
  have hin : (0 ≤ u.reading && u.reading < Date.lastOrdinal*TimeOfDay.dayLength) = true := by
    simp only [Bool.and_eq_true,decide_eq_true_eq]
    exact ⟨hlo,hhi⟩
  rw [utc?,ofReading?,hreading,if_pos hin,hcount,Int.toNat_natCast,hquot,hrest,
    Nat.sub_add_cancel hfirst,Date.ofOrdinal_ordinal hd,TimeOfDay.ofMicros_micros _ ht,← ho]

end Moment
end HealthRollup
