import HealthRollup.Aggregation
import HealthRollup.Proofs.Spellings

/-! Timestamps that the controller writes are spellings of the moment they were written for, and are read
back as that moment on the clock of UTC. A moment goes unwritten just when the calendar has no date and time
for it in UTC. -/
namespace HealthRollup

namespace Moment
open Digit Timestamp

def spelled (u : Moment) : Spelling :=
  ⟨[],u.date,'T',u.time.hour,u.time.minute,u.time.second,values 6 u.time.micro,.clock '+' 0 0,[]⟩

theorem spelled_isValid {u : Moment} (hd : u.date.IsValid) (ht : u.time.IsValid) : u.spelled.IsValid where
  front c hc := by cases hc
  date := hd
  mark := .inl rfl
  clock := ⟨ht.1,ht.2.1,ht.2.2.1⟩
  fraction _ hd := lt_of_mem_values hd
  zone := ⟨.inl rfl,by decide,by decide⟩
  back c hc := by cases hc

theorem text_spelled {u : Moment} (ho : u.offset = 0) :
    u.spelled.text = String.ofList (chars true u) := by
  have hpoint : u.spelled.point = '.' ::padded 6 u.time.micro := by
    rw [← map_values 6 u.time.micro]
    rfl
  have hzone : u.spelled.zone.chars = offsetText 0 := by
    rw [offsetText_zero]
    rfl
  rw [Spelling.text,Spelling.charsWith,hpoint,hzone,chars,ho,timeText_eq]
  simp [Spelling.toSeconds,spelled,-padded_succ]

theorem moment_spelled {u : Moment} (ht : u.time.IsValid) (ho : u.offset = 0) : u.spelled.moment = u := by
  obtain ⟨-,-,-,hu⟩ := ht
  have hleading : u.spelled.leading = values 6 u.time.micro := by
    have hlength : (values 6 u.time.micro).length = 6 := length_values _ _
    exact List.take_left' hlength
  have hmicro : u.spelled.micro = u.time.micro := by
    rw [Spelling.micro,hleading,number_values]
    exact Nat.mod_eq_of_lt (by omega)
  have htime : u.spelled.time = u.time := by rw [Spelling.time,hmicro]; rfl
  have hoffset : u.spelled.zone.offset = u.offset := by rw [ho]; rfl
  rw [Spelling.moment,htime,hoffset]
  rfl

end Moment

namespace Timestamp
open Moment

theorem read_timestamp {m : Moment} {stamp : String} (h : m.timestamp? = some stamp) :
    ∃ u, m.utc? = some u ∧ read stamp = .ok u := by
  obtain ⟨u,hu,rfl⟩ := Option.map_eq_some_iff.mp h
  obtain ⟨hd,ht,ho,-⟩ := utc?_spec hu
  have hread := Spelling.read_text (spelled_isValid hd ht)
  rw [text_spelled ho,moment_spelled ht ho] at hread
  exact ⟨u,hu,hread⟩

/-- The calendar has a date and a time for the moment in UTC. -/
def InCalendar (m : Moment) : Prop :=
  ∃ u : Moment, u.date.IsValid ∧ u.time.IsValid ∧ u.offset = 0 ∧ u.instant = m.instant

theorem utc?_isSome_iff (m : Moment) : m.utc?.isSome ↔ InCalendar m := by
  constructor
  · intro h
    obtain ⟨u,hu⟩ := Option.isSome_iff_exists.mp h
    obtain ⟨hd,ht,ho,hi,-⟩ := utc?_spec hu
    exact ⟨u,hd,ht,ho,hi⟩
  · rintro ⟨u,hd,ht,ho,hi⟩
    rw [utc?_of_instant hd ht ho hi]
    rfl

theorem timestamp_eq_overflow_iff (m : Moment) :
    Aggregation.timestamp m = .error .overflow ↔ ¬ InCalendar m := by
  rw [← utc?_isSome_iff]
  cases hu : m.utc? <;> simp [Aggregation.timestamp,timestamp?,hu]

/-- What is written for a moment of the calendar, and what is read from it. -/
theorem exists_timestamp {m : Moment} (h : InCalendar m) : ∃ stamp u,
    Aggregation.timestamp m = .ok stamp ∧ read stamp = .ok u ∧ u.IsValid ∧ u.offset = 0 ∧
      u.instant = m.instant ∧ Aggregation.timestamp u = .ok stamp := by
  obtain ⟨u,hd,ht,ho,hi⟩ := h
  have hstamp (n : Moment) (hn : u.instant = n.instant) :
      n.timestamp? = some (String.ofList (chars true u)) := by
    rw [timestamp?,utc?_of_instant hd ht ho hn]
    rfl
  have hwritten (n : Moment) (hn : u.instant = n.instant) :
      Aggregation.timestamp n = .ok (String.ofList (chars true u)) := by
    rw [Aggregation.timestamp,hstamp n hn]
  obtain ⟨v,hv,hread⟩ := read_timestamp (hstamp m hi)
  obtain rfl : u = v := Option.some.inj ((utc?_of_instant hd ht ho hi).symm.trans hv)
  have hoffset : u.offset.natAbs < TimeOfDay.dayLength := by
    rw [ho]
    decide
  exact ⟨_,u,hwritten m hi,hread,⟨hd,ht,hoffset⟩,ho,hi,hwritten u rfl⟩

/-- Writing and reading are inverse. A moment is written unless the calendar has no date and time for it in
UTC; what is written is read as the same instant without offset, and written again as it was. So every text
that is written for some moment comes back from reading and writing. -/
theorem writing_inverts_reading :
    (∀ m, Aggregation.timestamp m = .error .overflow ↔ ¬ InCalendar m) ∧
    (∀ m, InCalendar m → ∃ stamp u, Aggregation.timestamp m = .ok stamp ∧ read stamp = .ok u ∧
      u.IsValid ∧ u.offset = 0 ∧ u.instant = m.instant ∧ Aggregation.timestamp u = .ok stamp) ∧
    (∀ stamp, (∃ m, Aggregation.timestamp m = .ok stamp) →
      ∃ u, read stamp = .ok u ∧ Aggregation.timestamp u = .ok stamp) := by
  refine ⟨timestamp_eq_overflow_iff,fun m => exists_timestamp,?_⟩
  rintro stamp ⟨m,hm⟩
  have hin : InCalendar m := by
    by_contra hout
    rw [(timestamp_eq_overflow_iff m).mpr hout] at hm
    cases hm
  obtain ⟨stamp',u,hwritten,hread,-,-,-,hagain⟩ := exists_timestamp hin
  obtain rfl : stamp' = stamp := Except.ok.inj (hwritten.symm.trans hm)
  exact ⟨u,hread,hagain⟩

/-- Half past midnight on the first of March is a leap day in UTC where the clock is an hour ahead, and there
is nothing a second before the calendar begins or after it ends. -/
theorem writing_inverts_reading_at_the_ends :
    (∃ u, read "2024-02-29T23:30:00.000250+00:00" = .ok u ∧
      u.instant = instant ⟨⟨2024,3,1⟩,⟨0,30,0,250⟩,3600000000⟩ ∧
      Aggregation.timestamp u = .ok "2024-02-29T23:30:00.000250+00:00") ∧
    Aggregation.timestamp ⟨⟨1,1,1⟩,⟨0,0,0,0⟩,1000000⟩ = .error .overflow ∧
    Aggregation.timestamp ⟨⟨9999,12,31⟩,⟨23,59,59,0⟩,-1000000⟩ = .error .overflow := by
  obtain ⟨hover,hin,-⟩ := writing_inverts_reading
  refine ⟨?_,(hover _).mpr ?_,(hover _).mpr ?_⟩
  · have hleap : InCalendar ⟨⟨2024,3,1⟩,⟨0,30,0,250⟩,3600000000⟩ :=
      ⟨⟨⟨2024,2,29⟩,⟨23,30,0,250⟩,0⟩,by decide,by decide,rfl,by decide⟩
    obtain ⟨stamp,u,hstamp,hread,-,-,hi,hagain⟩ := hin _ hleap
    have hchars : timestamp? ⟨⟨2024,3,1⟩,⟨0,30,0,250⟩,3600000000⟩ =
        some "2024-02-29T23:30:00.000250+00:00" := by decide +kernel
    have htext : Aggregation.timestamp ⟨⟨2024,3,1⟩,⟨0,30,0,250⟩,3600000000⟩ =
        .ok "2024-02-29T23:30:00.000250+00:00" := by rw [Aggregation.timestamp,hchars]
    obtain rfl := Except.ok.inj (hstamp.symm.trans htext)
    exact ⟨u,hread,hi,hagain⟩
  · rw [← utc?_isSome_iff]
    decide
  · rw [← utc?_isSome_iff]
    decide

end Timestamp
end HealthRollup
