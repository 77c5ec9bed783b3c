import HealthRollup.Proofs.Calendar
import HealthRollup.Time.Timestamp
import Mathlib.Algebra.Group.Nat.Defs
import Mathlib.Data.List.Induction
import Mathlib.Tactic.Ring

/-! Spellings of a timestamp. Blanks stand around it, either case of the two letters will do, the fraction
may be of any length, and the offset is a letter or a sign with hours and minutes. All are brought into one
form first, and then each reader takes from the text just what the writer of the same part puts there. -/
namespace HealthRollup
namespace Digit

theorem forall_ofNat {P : Char → Prop} (h : ∀ d < 10, P (Char.ofNat (0x30+d))) (n : Nat) :
    P (ofNat n) := h _ (Nat.mod_lt n (by decide))

@[simp] theorem isDigit_ofNat (n : Nat) : (ofNat n).isDigit = true :=
  forall_ofNat (P := fun c => c.isDigit = true) (by decide) n
@[simp] theorem isBlank_ofNat (n : Nat) : Blank.isBlank (ofNat n) = false :=
  forall_ofNat (P := fun c => Blank.isBlank c = false) (by decide +kernel) n

@[simp] theorem ascii?_ofNat (n : Nat) : ascii? (ofNat n) = some (n%10) := by
  have h : ∀ d < 10, ascii? (Char.ofNat (0x30+d)) = some d := by decide
  exact h _ (Nat.mod_lt n (by decide))

theorem ofNat_ne (n : Nat) (c : Char) (h : c.isDigit = false) : ofNat n ≠ c := by
  rintro rfl
  rw [isDigit_ofNat] at h
  cases h

theorem exists_of_mem_padded {c : Char} {w n : Nat} (h : c ∈ padded w n) : ∃ m, c = ofNat m := by
  induction w generalizing n with
  | zero => simp at h
  | succ w ih =>
    rw [padded_succ] at h
    rcases List.mem_append.mp h with h | h
    · exact ih h
    · exact ⟨n,List.mem_singleton.mp h⟩

def values : Nat → Nat → List Nat
  | 0, _ => []
  | w+1, n => values w (n/10)++[n%10]

@[simp] theorem length_values (w n : Nat) : (values w n).length = w := by
  induction w generalizing n with
  | zero => rfl
  | succ w ih => simp [values,ih]

theorem lt_of_mem_values {d w n : Nat} (h : d ∈ values w n) : d < 10 := by
  induction w generalizing n with
  | zero => cases h
  | succ w ih =>
    rcases List.mem_append.mp h with h | h
    · exact ih h
    · rw [List.mem_singleton.mp h]
      exact Nat.mod_lt n (by decide)

theorem map_values (w n : Nat) : (values w n).map ofNat = padded w n := by
  induction w generalizing n with
  | zero => rfl
  | succ w ih => simp [values,ih,ofNat]

theorem mapM_padded (w n : Nat) : (padded w n).mapM ascii? = some (values w n) := by
  induction w generalizing n with
  | zero => rfl
  | succ w ih => simp [values,ih]

theorem number_values (w n : Nat) : number (values w n) = n%10^w := by
  induction w generalizing n with
  | zero => exact (Nat.mod_one n).symm
  | succ w ih =>
    rw [values,number_append,ih,Nat.pow_succ',Nat.mod_mul]
    omega

theorem take?_padded (w n : Nat) (rest : List Char) :
    take? w (padded w n++rest) = some (n%10^w,rest) := by
  have htake : (padded w n++rest).take w = padded w n := by
    rw [List.take_append_of_le_length (by simp),List.take_of_length_le (by simp)]
  have hdrop : (padded w n++rest).drop w = rest := by
    rw [List.drop_append_of_le_length (by simp),List.drop_of_length_le (by simp),List.nil_append]
  have hw : w ≤ (padded w n++rest).length := by simp
  simp only [take?,if_pos hw,htake,hdrop,mapM_padded,Option.map_some,number_values]

theorem ofNat_ten_mul_add (n d : Nat) : ofNat (10*n+d) = ofNat d := by
  have hmod : (10*n+d)%10 = d%10 := by omega
  simp only [ofNat,hmod]

theorem number_append_list (ds es : List Nat) :
    number (ds++es) = number ds*10^es.length+number es := by
  induction es using List.reverseRecOn with
  | nil => simp
  | append_singleton es e ih =>
    rw [← List.append_assoc,number_append,number_append,ih,List.length_append,List.length_singleton,
      Nat.pow_succ]
    ring

theorem number_lt {ds : List Nat} (h : ∀ d ∈ ds, d < 10) : number ds < 10^ds.length := by
  induction ds using List.reverseRecOn with
  | nil => decide
  | append_singleton ds d ih =>
    have hd := h d (by simp)
    have hrest := ih fun e he => h e (by simp [he])
    rw [number_append,List.length_append,List.length_singleton,Nat.pow_succ]
    omega

theorem padded_number {ds : List Nat} (h : ∀ d ∈ ds, d < 10) :
    padded ds.length (number ds) = ds.map ofNat := by
  induction ds using List.reverseRecOn with
  | nil => rfl
  | append_singleton ds d ih =>
    have hd := h d (by simp)
    have hrest := ih fun e he => h e (by simp [he])
    have hdiv : (10*number ds+d)/10 = number ds := by omega
    rw [number_append,List.length_append,List.length_singleton,padded_succ,hdiv,hrest,ofNat_ten_mul_add,
      List.map_append,List.map_singleton]

end Digit

namespace Timestamp
open Digit Moment

@[simp] theorem isDigit_ofNat (n : Nat) : isDigit (ofNat n) = true :=
  forall_ofNat (P := fun c => isDigit c = true) (by decide +kernel) n

theorem fields?_colon (k n : Nat) (colons : Option Bool) (hc : colons.getD true = true)
    (rest : List Char) (hr : rest ≠ []) : fields? (k+1) colons (padded 2 n++ ':' ::rest) =
      (fields? k (some true) rest).map fun p => (n%100::p.1,p.2) := by
  obtain ⟨c,rest,rfl⟩ := List.exists_cons_of_ne_nil hr
  simp only [fields?,take?_padded]
  simp [hc]

theorem fields?_point (k n : Nat) (rest : List Char) (hr : rest ≠ []) :
    fields? (k+1) (some true) (padded 2 n++ '.' ::rest) = some ([n%100],.fraction rest) := by
  obtain ⟨c,rest,rfl⟩ := List.exists_cons_of_ne_nil hr
  simp only [fields?,take?_padded]
  simp

theorem fields?_end (k n : Nat) (colons : Option Bool) :
    fields? (k+1) colons (padded 2 n) = some ([n%100],.stop true) := by
  have htake : take? 2 (padded 2 n++[]) = some (n%100,[]) := take?_padded 2 n []
  rw [List.append_nil] at htake
  simp only [fields?,htake]

theorem padded_ne_nil (w n : Nat) (rest : List Char) : padded (w+1) n++rest ≠ [] := by
  simp

theorem fraction?_padded (n : Nat) (h : n ≤ 999999) : fraction? (padded 6 n) = some (n,true) := by
  have hn : n%1000000 = n := Nat.mod_eq_of_lt (by omega)
  have htake : take? 6 (padded 6 n) = some (n%1000000,[]) := by
    rw [← List.append_nil (padded 6 n)]
    exact take?_padded 6 n []
  simp only [fraction?,padded_length,Nat.min_self,htake,hn,Option.map_some]
  simp [ends]

/-- The fields of a time of day, and what follows the seconds. -/
theorem timeText_eq (always : Bool) (t : TimeOfDay) : timeText always t =
    padded 2 t.hour++ ':' ::(padded 2 t.minute++ ':' ::(padded 2 t.second++
      if always || t.micro != 0 then '.' ::padded 6 t.micro else [])) := by
  simp [timeText]

theorem time?_timeText (always : Bool) (t : TimeOfDay) (h : t.IsValid) :
    time? (timeText always t) = some (t,true) := by
  obtain ⟨hh,hm,hs,hu⟩ := h
  have hhour : t.hour%100 = t.hour := Nat.mod_eq_of_lt (by omega)
  have hminute : t.minute%100 = t.minute := Nat.mod_eq_of_lt (by omega)
  have hsecond : t.second%100 = t.second := Nat.mod_eq_of_lt (by omega)
  rw [timeText_eq,time?,fields?_colon 2 _ none rfl _ (padded_ne_nil _ _ _),
    fields?_colon 1 _ (some true) rfl _ (padded_ne_nil _ _ _)]
  cases hf : always || t.micro != 0 with
  | true =>
    have hpoint := fields?_point 0 t.second (padded 6 t.micro) (by simp)
    simp only [if_true,hpoint,hhour,hminute,hsecond,Option.map_some,Option.bind_some,
      fraction?_padded t.micro hu]
    simp
  | false =>
    have hmicro : t.micro = 0 := by simpa using (Bool.or_eq_false_iff.mp hf).2
    have hend := fields?_end 0 t.second (some true)
    have ht : (⟨t.hour,t.minute,t.second,0⟩ : TimeOfDay) = t := by rw [← hmicro]
    simp only [Bool.false_eq_true,if_false,List.append_nil,hend,hhour,hminute,hsecond,Option.map_some,
      Option.bind_some]
    exact congrArg (fun t => some (t,true)) ht

theorem offsetText_zero : offsetText 0 = ['+', '0', '0', ':', '0', '0'] := by decide

theorem isZoneMark_of_isDigit {c : Char} (h : c.isDigit = true) : isZoneMark c = false := by
  have hne (d : Char) (hd : d.isDigit = false) : c ≠ d := by
    rintro rfl
    rw [h] at hd
    cases hd
  simp [isZoneMark,hne '+' (by decide),hne '-' (by decide),hne 'Z' (by decide)]

theorem isZoneMark_of_mem_timeText {c : Char} {always : Bool} {t : TimeOfDay}
    (h : c ∈ timeText always t) : isZoneMark c = false := by
  rw [timeText_eq] at h
  have hp (w n : Nat) (hc : c ∈ padded w n) : isZoneMark c = false := by
    obtain ⟨m,rfl⟩ := exists_of_mem_padded hc
    exact isZoneMark_of_isDigit (Digit.isDigit_ofNat m)
  simp only [List.mem_append,List.mem_cons] at h
  rcases h with h | rfl | h | rfl | h | h
  · exact hp 2 _ h
  · decide
  · exact hp 2 _ h
  · decide
  · exact hp 2 _ h
  · split at h
    · rcases List.mem_cons.mp h with rfl | h
      · decide
      · exact hp 6 _ h
    · cases h

theorem takeWhile_timeText (always : Bool) (t : TimeOfDay) (rest : List Char) :
    (timeText always t++rest).takeWhile (fun c => !isZoneMark c) =
      timeText always t++rest.takeWhile (fun c => !isZoneMark c) ∧
    (timeText always t++rest).dropWhile (fun c => !isZoneMark c) =
      rest.dropWhile (fun c => !isZoneMark c) :=
  ⟨List.takeWhile_append_of_pos fun c hc => by simp [isZoneMark_of_mem_timeText hc],
    List.dropWhile_append_of_pos fun c hc => by simp [isZoneMark_of_mem_timeText hc]⟩

theorem zonedTime?_timeText (always : Bool) (t : TimeOfDay) (h : t.IsValid) :
    zonedTime? (timeText always t) = some (t,none) := by
  obtain ⟨htake,hdrop⟩ := takeWhile_timeText always t []
  rw [List.append_nil] at htake hdrop
  rw [zonedTime?,htake,List.takeWhile_nil,List.append_nil,time?_timeText always t h,hdrop]
  rfl

theorem zonedTime?_sign (always : Bool) (t : TimeOfDay) (h : t.IsValid) {sign : Char}
    (hs : sign = '+' ∨ sign = '-') {rest : List Char} {o : Int} (ho : offset? (sign = '-') rest = some o) :
    zonedTime? (timeText always t++sign::rest) = some (t,some o) := by
  have hmark : isZoneMark sign = true := by rcases hs with rfl | rfl <;> rfl
  have hne : sign ≠ 'Z' := by rcases hs with rfl | rfl <;> decide
  obtain ⟨htake,hdrop⟩ := takeWhile_timeText always t (sign::rest)
  rw [List.takeWhile_cons_of_neg (by simp [hmark]),List.append_nil] at htake
  rw [List.dropWhile_cons_of_neg (by simp [hmark])] at hdrop
  rw [zonedTime?,htake,time?_timeText always t h,hdrop]
  simp [hne,ho]

theorem dateText_eq (d : Date) (rest : List Char) : dateText d++rest =
    padded 4 d.year++ '-' ::(padded 2 d.month++ '-' ::(padded 2 d.day++rest)) := by
  simp [dateText]

theorem date?_dateText (d : Date) (h : d.IsValid) (rest : List Char) :
    date? 10 (dateText d++rest) = some d := by
  obtain ⟨⟨-,hy⟩,⟨-,hm⟩,-,hd⟩ := h
  have hlength := Date.monthLength_le d.year d.month
  have hhead : (padded 2 d.month++ '-' ::(padded 2 d.day++rest)).head? ≠ some 'W' := by
    simp [ofNat_ne _ 'W' (by decide)]
  rw [dateText_eq,date?,take?_padded]
  simp only [Option.bind_some,List.head?_cons,decide_true,if_true,List.drop_one,List.tail_cons,
    if_neg hhead,take?_padded,dash?,Option.map_some,
    Nat.mod_eq_of_lt (show d.year < 10^4 by omega),Nat.mod_eq_of_lt (show d.month < 10^2 by omega),
    Nat.mod_eq_of_lt (show d.day < 10^2 by omega)]

theorem dateLength?_dateText (d : Date) (c : Char) (rest : List Char) :
    dateLength? (dateText d++c::rest) = some 10 := by
  have h5 : charAt (dateText d++c::rest) 5 ≠ 'W' := by
    simp [dateText,charAt,ofNat_ne _ 'W' (by decide)]
  have h4 : charAt (dateText d++c::rest) 4 = '-' := by simp [dateText,charAt]
  have hlength : (dateText d++c::rest).length ≠ 7 := by simp [dateText]
  rw [dateLength?,if_neg hlength,if_pos h4,if_neg h5]

theorem parts?_dateText (d : Date) (h : d.IsValid) (c : Char) {rest : List Char}
    {p : TimeOfDay × Option Int} (hp : zonedTime? rest = some p) :
    parts? (dateText d++c::rest) = some (d,p.1,p.2) := by
  have hdrop : (dateText d++c::rest).drop 10 = c::rest := by simp [dateText]
  rw [parts?,dateLength?_dateText,Option.bind_some,date?_dateText _ h,Option.bind_some,hdrop]
  simp only [hp,Option.map_some]

theorem sixDigits_append (cs rest : List Char) (h : '.' ∉ cs) :
    sixDigits (cs++rest) = cs++sixDigits rest := by
  induction cs with
  | nil => rfl
  | cons c cs ih =>
    obtain ⟨hc,hcs⟩ := not_or.mp (mt List.mem_cons.mpr h)
    simp [sixDigits,Ne.symm hc,ih hcs]

theorem sixDigits_of_not_mem {cs : List Char} (h : '.' ∉ cs) : sixDigits cs = cs := by
  have happend := sixDigits_append cs [] h
  rwa [List.append_nil,sixDigits,List.append_nil] at happend

theorem sixDigits_point {ds rest : List Char} (hds : ds ≠ []) (hall : ∀ c ∈ ds, isDigit c = true)
    (hr : rest.takeWhile isDigit = []) : sixDigits ('.' ::(ds++rest)) =
      '.' ::(ds.take 6++List.replicate (6-ds.length) '0' ++rest) := by
  have htake : (ds++rest).takeWhile isDigit = ds := by
    rw [List.takeWhile_append_of_pos hall,hr,List.append_nil]
  have hdrop : (ds++rest).dropWhile isDigit = rest := by
    have hsplit := List.takeWhile_append_dropWhile (p := isDigit) (l := rest)
    rw [hr,List.nil_append] at hsplit
    rw [List.dropWhile_append_of_pos hall,hsplit]
  have hne : ds.isEmpty = false := by simpa using hds
  simp only [sixDigits,htake,hdrop,hne]
  simp

theorem expandZulu_of_not_mark {cs : List Char} {c : Char} (h : cs.getLast? = some c)
    (hc : c ≠ 'Z' ∧ c ≠ 'z') : expandZulu cs = cs := by
  simp only [expandZulu,h]
  split
  · rename_i he
    exact absurd (Option.some.inj he) hc.1
  · rename_i he
    exact absurd (Option.some.inj he) hc.2
  · rfl

end Timestamp

/-- How an offset is written: as the letter for none, or as a sign with hours and minutes. -/
inductive Zone
  | letter (c : Char) | clock (sign : Char) (hour minute : Nat)

namespace Zone
open Digit Timestamp

def IsValid : Zone → Prop
  | letter c => c = 'Z' ∨ c = 'z'
  | clock sign hour minute => (sign = '+' ∨ sign = '-') ∧ hour ≤ 23 ∧ minute ≤ 59

def chars : Zone → List Char
  | letter c => [c]
  | clock sign hour minute => sign::(padded 2 hour++ ':' ::padded 2 minute)

def offset : Zone → Int
  | letter _ => 0
  | clock sign hour minute =>
    if sign = '-' then -((hour*60+minute)*60000000 : Nat) else ((hour*60+minute)*60000000 : Nat)

def signed : Zone → Zone
  | letter _ => clock '+' 0 0
  | clock sign hour minute => clock sign hour minute

theorem offset?_clock (negative : Bool) {hour minute : Nat} (hh : hour ≤ 23) (hm : minute ≤ 59) :
    offset? negative (padded 2 hour++ ':' ::padded 2 minute) =
      some (Binary64.signed negative ((hour*60+minute)*60000000)) := by
  have hhour : hour%100 = hour := Nat.mod_eq_of_lt (by omega)
  have hminute : minute%100 = minute := Nat.mod_eq_of_lt (by omega)
  have htime : time? (padded 2 hour++ ':' ::padded 2 minute) = some (⟨hour,minute,0,0⟩,true) := by
    have hfield := fields?_colon 2 hour none rfl (padded 2 minute) (by simp)
    rw [time?,hfield,fields?_end 1 minute (some true)]
    simp [hhour,hminute]
  have hmicros : TimeOfDay.micros ⟨hour,minute,0,0⟩ = (hour*60+minute)*60000000 := by
    simp only [TimeOfDay.micros]
    omega
  have hlt : (hour*60+minute)*60000000 < TimeOfDay.dayLength := by
    simp only [TimeOfDay.dayLength]
    omega
  simp only [offset?,htime,hmicros,if_pos hlt]
  split
  · have hzero : (hour*60+minute)*60000000 = 0 := by omega
    cases negative <;> simp [hzero]
  · rfl

theorem getLast?_chars {z : Zone} (h : z.IsValid) (c : Char) (hc : z.chars.getLast? = some c) :
    Blank.isBlank c = false := by
  cases z with
  | letter d =>
    obtain rfl : d = c := Option.some.inj hc
    rcases h with rfl | rfl <;> decide +kernel
  | clock sign hour minute =>
    have hlast : (clock sign hour minute).chars.getLast? = some (ofNat minute) := by simp [chars]
    rw [hlast] at hc
    rw [← Option.some.inj hc,isBlank_ofNat]

/-- A letter at the end becomes the offset that it stands for, and a written offset stays. -/
theorem expandZulu_chars {z : Zone} (h : z.IsValid) (cs : List Char) :
    expandZulu (cs++z.chars) = cs++z.signed.chars := by
  cases z with
  | letter c =>
    have hlast : (cs++[c]).getLast? = some c := List.getLast?_concat
    rcases h with rfl | rfl <;> simp only [chars,signed,expandZulu,hlast,List.dropLast_concat] <;> rfl
  | clock sign hour minute =>
    have hlast : (cs++(clock sign hour minute).chars).getLast? = some (ofNat minute) := by simp [chars]
    exact expandZulu_of_not_mark hlast ⟨ofNat_ne _ 'Z' (by decide),ofNat_ne _ 'z' (by decide)⟩

theorem isValid_signed {z : Zone} (h : z.IsValid) : z.signed.IsValid := by
  cases z with
  | letter c => exact ⟨.inl rfl,by decide,by decide⟩
  | clock sign hour minute => exact h

theorem offset_signed (z : Zone) : z.signed.offset = z.offset := by
  cases z <;> rfl

/-- A written offset is read back, and is nothing that the steps before it look for. -/
theorem signed_spec {z : Zone} (h : z.IsValid) : ∃ sign rest, z.signed.chars = sign::rest ∧
    (sign = '+' ∨ sign = '-') ∧ '.' ∉ sign::rest ∧ offset? (sign = '-') rest = some z.offset := by
  have hvalid := isValid_signed h
  rw [← offset_signed z]
  generalize hs : z.signed = s at hvalid
  cases s with
  | letter c => cases z <;> cases hs
  | clock sign hour minute =>
    obtain ⟨hsign,hh,hm⟩ := hvalid
    have hne : '.' ≠ sign := by rcases hsign with rfl | rfl <;> decide
    refine ⟨sign,_,rfl,hsign,by simp [hne,fun n => (ofNat_ne n '.' (by decide)).symm],?_⟩
    rw [offset?_clock _ hh hm]
    by_cases hminus : sign = '-' <;> simp [offset,Binary64.signed,hminus]

end Zone

/-- The parts of a written timestamp. The fraction is a list of digits; without any, no point is written. -/
structure Spelling where
  front : List Char
  date : Date
  mark : Char
  hour : Nat
  minute : Nat
  second : Nat
  fraction : List Nat
  zone : Zone
  back : List Char

namespace Spelling
open Digit Moment Timestamp

/-- Blanks in front and behind, a date of the calendar, `T` of either case, a time of day and an offset. -/
structure IsValid (w : Spelling) : Prop where
  front : ∀ c ∈ w.front, Blank.isBlank c = true
  date : w.date.IsValid
  mark : w.mark = 'T' ∨ w.mark = 't'
  clock : w.hour ≤ 23 ∧ w.minute ≤ 59 ∧ w.second ≤ 59
  fraction : ∀ d ∈ w.fraction, d < 10
  zone : w.zone.IsValid
  back : ∀ c ∈ w.back, Blank.isBlank c = true

/-- The first six digits of the fraction, with noughts for those that lack. -/
def leading (w : Spelling) : List Nat := (w.fraction++List.replicate 6 0).take 6

def micro (w : Spelling) : Nat := number w.leading

def time (w : Spelling) : TimeOfDay := ⟨w.hour,w.minute,w.second,w.micro⟩
def moment (w : Spelling) : Moment := ⟨w.date,w.time,w.zone.offset⟩

def toSeconds (w : Spelling) : List Char :=
  dateText w.date++w.mark::(padded 2 w.hour++ ':' ::(padded 2 w.minute++ ':' ::padded 2 w.second))

def point (w : Spelling) : List Char :=
  if w.fraction.isEmpty then [] else '.' ::w.fraction.map ofNat

def charsWith (w : Spelling) (zone : List Char) : List Char :=
  w.front++(w.toSeconds++w.point++zone++w.back)

def text (w : Spelling) : String := String.ofList (w.charsWith w.zone.chars)
def bare (w : Spelling) : String := String.ofList (w.charsWith [])

variable {w : Spelling}

@[simp] theorem length_leading (w : Spelling) : w.leading.length = 6 := by
  simp [leading]

theorem leading_lt (h : w.IsValid) : ∀ d ∈ w.leading, d < 10 := by
  intro d hd
  rcases List.mem_append.mp (List.mem_of_mem_take hd) with hd | hd
  · exact h.fraction d hd
  · rw [List.eq_of_mem_replicate hd]
    decide

theorem micro_le (h : w.IsValid) : w.micro ≤ 999999 := by
  have hlt := number_lt (leading_lt h)
  rw [length_leading] at hlt
  exact Nat.le_of_lt_succ hlt

theorem time_isValid (h : w.IsValid) : w.time.IsValid := by
  obtain ⟨hh,hm,hs⟩ := h.clock
  exact ⟨hh,hm,hs,micro_le h⟩

theorem padded_micro (h : w.IsValid) :
    (w.fraction.map ofNat).take 6++List.replicate (6-(w.fraction.map ofNat).length) '0' =
      padded 6 w.micro := by
  have hzero : '0' = ofNat 0 := by decide
  have hmin : min (6-w.fraction.length) 6 = 6-w.fraction.length := by omega
  have htake : w.leading = w.fraction.take 6++List.replicate (6-w.fraction.length) 0 := by
    rw [leading,List.take_append,List.take_replicate,hmin]
  have hnumber := padded_number (leading_lt h)
  rw [length_leading] at hnumber
  rw [micro,hnumber,htake,List.map_append,List.map_take,List.map_replicate,List.length_map,hzero]

theorem not_mem_toSeconds (h : w.IsValid) : '.' ∉ w.toSeconds := by
  have hne : '.' ≠ w.mark := by rcases h.mark with hm | hm <;> rw [hm] <;> decide
  simp [toSeconds,dateText,hne,fun n => (ofNat_ne n '.' (by decide)).symm]

theorem sixDigits_toSeconds (h : w.IsValid) {zone : List Char} (hz : '.' ∉ zone)
    (hd : zone.takeWhile isDigit = []) : sixDigits (w.toSeconds++w.point++zone) =
      dateText w.date++w.mark::(timeText (!w.fraction.isEmpty) w.time++zone) := by
  rw [List.append_assoc,sixDigits_append _ _ (not_mem_toSeconds h),timeText_eq]
  by_cases hf : w.fraction = []
  · have hmicro : w.micro = 0 := by
      rw [micro,leading,hf]
      rfl
    simp [point,hf,toSeconds,time,hmicro,sixDigits_of_not_mem hz]
  · have hne : w.fraction.isEmpty = false := by simpa using hf
    have hall : ∀ c ∈ w.fraction.map ofNat, isDigit c = true := by
      intro c hc
      obtain ⟨d,-,rfl⟩ := List.mem_map.mp hc
      exact isDigit_ofNat d
    have hsix := sixDigits_point (by simpa using hf) hall hd
    rw [padded_micro h] at hsix
    simp only [point,hne,Bool.false_eq_true,if_false,List.cons_append,hsix]
    simp [toSeconds,time,-padded_succ]

theorem getLast?_point (w : Spelling) : ∃ n, (w.toSeconds++w.point).getLast? = some (ofNat n) := by
  rcases List.eq_nil_or_concat w.fraction with hf | ⟨ds,d,hf⟩
  · refine ⟨w.second,?_⟩
    simp [point,hf,toSeconds]
  · refine ⟨d,?_⟩
    rw [List.concat_eq_append] at hf
    have hpoint : w.point = ('.' ::ds.map ofNat)++[ofNat d] := by simp [point,hf]
    rw [hpoint,← List.append_assoc,List.getLast?_concat]

theorem head?_toSeconds (w : Spelling) (rest : List Char) :
    ∃ n, (w.toSeconds++w.point++rest).head? = some (ofNat n) := by
  refine ⟨w.date.year/1000,?_⟩
  simp [toSeconds,dateText,Nat.div_div_eq_div_mul]

theorem trim_charsWith (h : w.IsValid) {zone : List Char}
    (hz : ∀ c, zone.getLast? = some c → Blank.isBlank c = false) :
    Blank.trim Blank.isBlank (w.charsWith zone) = w.toSeconds++w.point++zone := by
  obtain ⟨m,hm⟩ := head?_toSeconds w zone
  apply Blank.trim_append h.front h.back
  · intro hnil
    rw [hnil] at hm
    cases hm
  · intro c hc
    rw [hm] at hc
    rw [← Option.some.inj hc,isBlank_ofNat]
  · intro c hc
    rw [List.getLast?_append] at hc
    cases hlast : zone.getLast? with
    | none =>
      obtain ⟨n,hn⟩ := getLast?_point w
      rw [hlast,hn] at hc
      rw [← Option.some.inj hc,isBlank_ofNat]
    | some d =>
      rw [hlast] at hc
      exact hz c (by rw [hlast]; exact hc)

theorem normalize_zone (h : w.IsValid) : normalize (w.charsWith w.zone.chars) =
    dateText w.date++w.mark::(timeText (!w.fraction.isEmpty) w.time++w.zone.signed.chars) := by
  obtain ⟨sign,rest,hchars,hsign,hpoint,-⟩ := Zone.signed_spec h.zone
  have hdigit : (sign::rest).takeWhile isDigit = [] := by
    apply List.takeWhile_cons_of_neg
    rcases hsign with rfl | rfl <;> decide +kernel
  have hsix := sixDigits_toSeconds h hpoint hdigit
  rw [Timestamp.normalize,trim_charsWith h (Zone.getLast?_chars h.zone),Zone.expandZulu_chars h.zone,hchars,hsix]

theorem normalize_bare (h : w.IsValid) : normalize (w.charsWith []) =
    dateText w.date++w.mark::timeText (!w.fraction.isEmpty) w.time := by
  obtain ⟨n,hn⟩ := getLast?_point w
  have hzulu := expandZulu_of_not_mark hn ⟨ofNat_ne n 'Z' (by decide),ofNat_ne n 'z' (by decide)⟩
  have hsix := sixDigits_toSeconds h (List.not_mem_nil : '.' ∉ []) rfl
  simp only [List.append_nil] at hsix
  rw [Timestamp.normalize,trim_charsWith h (by simp),List.append_nil,hzulu,hsix]

theorem parts?_zone (h : w.IsValid) :
    parts? (normalize w.text.toList) = some (w.date,w.time,some w.zone.offset) := by
  obtain ⟨sign,rest,hchars,hsign,-,hoffset⟩ := Zone.signed_spec h.zone
  have hzoned := zonedTime?_sign (!w.fraction.isEmpty) w.time (time_isValid h) hsign hoffset
  rw [text,String.toList_ofList,normalize_zone h,hchars,parts?_dateText w.date h.date w.mark hzoned]

theorem parts?_bare (h : w.IsValid) :
    parts? (normalize w.bare.toList) = some (w.date,w.time,none) := by
  have hzoned := zonedTime?_timeText (!w.fraction.isEmpty) w.time (time_isValid h)
  rw [bare,String.toList_ofList,normalize_bare h,parts?_dateText w.date h.date w.mark hzoned]

theorem read_text (h : w.IsValid) : Timestamp.read w.text = .ok w.moment := by
  rw [Timestamp.read,parts?_zone h]
  simp only [h.date,time_isValid h,and_self,if_true]
  rfl

theorem read_bare (h : w.IsValid) : Timestamp.read w.bare = .error (.noOffset w.bare) := by
  rw [Timestamp.read,parts?_bare h]
  simp only [h.date,time_isValid h,and_self,if_true]

/-- The microseconds are the fraction without what goes below them. -/
theorem micro_truncates (h : w.IsValid) :
    w.micro*10^w.fraction.length ≤ number w.fraction*10^6 ∧
      number w.fraction*10^6 < (w.micro+1)*10^w.fraction.length := by
  have hsplit : w.leading++(w.fraction++List.replicate 6 0).drop 6 = w.fraction++List.replicate 6 0 :=
    List.take_append_drop 6 _
  have hrest : ((w.fraction++List.replicate 6 0).drop 6).length = w.fraction.length := by simp
  have hlt : ∀ d ∈ (w.fraction++List.replicate 6 0).drop 6, d < 10 := by
    intro d hd
    rcases List.mem_append.mp (List.mem_of_mem_drop hd) with hd | hd
    · exact h.fraction d hd
    · rw [List.eq_of_mem_replicate hd]
      decide
  have hbelow := number_lt hlt
  have hnumber := congrArg number hsplit
  have hzeros : number (List.replicate 6 0) = 0 := rfl
  rw [number_append_list,number_append_list,hrest,List.length_replicate,hzeros] at hnumber
  rw [hrest] at hbelow
  rw [Nat.add_mul,Nat.one_mul,micro]
  omega

/-- Every spelling is read as the date, the time and the offset that it shows, its fraction cut to
microseconds and not rounded; the same text without the offset is refused for the lack of it. -/
theorem reads_every_spelling (w : Spelling) (h : w.IsValid) :
    (∃ micro, Timestamp.read w.text =
        .ok ⟨w.date,⟨w.hour,w.minute,w.second,micro⟩,w.zone.offset⟩ ∧
      micro = number ((w.fraction++List.replicate 6 0).take 6) ∧
      micro*10^w.fraction.length ≤ number w.fraction*10^6 ∧
      number w.fraction*10^6 < (micro+1)*10^w.fraction.length) ∧
    Timestamp.read w.bare = .error (.noOffset w.bare) :=
  ⟨⟨w.micro,read_text h,rfl,micro_truncates h⟩,read_bare h⟩

/-- The last second of a leap day, between blanks of other scripts, a little more than half an hour behind. -/
theorem reads_every_spelling_leap_day :
    Timestamp.read "\x1c 2024-02-29t23:59:59.12345699-00:31\u3000" =
      .ok ⟨⟨2024,2,29⟩,⟨23,59,59,123456⟩,-1860000000⟩ ∧
    Timestamp.read "\x1c 2024-02-29t23:59:59.12345699\u3000" =
      .error (.noOffset "\x1c 2024-02-29t23:59:59.12345699\u3000") := by
  let w : Spelling := ⟨['\x1c', ' '],⟨2024,2,29⟩,'t',23,59,59,[1,2,3,4,5,6,9,9],.clock '-' 0 31,['\u3000']⟩
  have hvalid : w.IsValid :=
    { front := List.all_eq_true.mp (by decide +kernel)
      date := by decide
      mark := .inr rfl
      clock := by decide
      fraction := by decide
      zone := ⟨.inr rfl,by decide,by decide⟩
      back := List.all_eq_true.mp (by decide +kernel) }
  have htext : w.text = "\x1c 2024-02-29t23:59:59.12345699-00:31\u3000" := by decide +kernel
  have hbare : w.bare = "\x1c 2024-02-29t23:59:59.12345699\u3000" := by decide +kernel
  obtain ⟨⟨micro,hread,hmicro,-⟩,hrefused⟩ := reads_every_spelling w hvalid
  rw [htext] at hread
  rw [hbare] at hrefused
  have hsix : micro = 123456 := hmicro
  rw [hsix] at hread
  exact ⟨hread,hrefused⟩

end Spelling
end HealthRollup
