import HealthRollup.Config.Address
import HealthRollup.Proofs.Numerals
import Mathlib.Data.List.Basic

/-! The grammar of bind addresses. What is behind the last colon has to spell a port, whatever is in front of
it is the host, and every other text is refused with the first thing that is wrong with it. -/
namespace HealthRollup
namespace Address

/-- A host, a colon and a port that has no colon. Without a host the address stands for all of them. -/
inductive Spelled : String → Address → Prop
  | mk (host port : String) (ds : List Nat) (n : Int) (hlast : ':' ∉ port.toList)
      (hport : Integer.Spelled port.toList ds n) (hlimit : ds.length ≤ Integer.digitLimit)
      (hlow : 0 ≤ n) (hhigh : n ≤ 65535) :
      Spelled (host++":"++port) ⟨if host = "" then "0.0.0.0" else host,n⟩

/-- Why a text is no address: it has no colon, no integer behind the last one, or one that is no port. -/
inductive Refused : String → AddressFault → Prop
  | format (a : String) (h : ':' ∉ a.toList) : Refused a (.format a)
  | port (host port : String) (hlast : ':' ∉ port.toList)
      (h : ∀ ds n, Integer.Spelled port.toList ds n → Integer.digitLimit < ds.length) :
      Refused (host++":"++port) (.port (host++":"++port))
  | range (host port : String) (ds : List Nat) (n : Int) (hlast : ':' ∉ port.toList)
      (hport : Integer.Spelled port.toList ds n) (hlimit : ds.length ≤ Integer.digitLimit)
      (h : n < 0 ∨ 65535 < n) : Refused (host++":"++port) (.range (host++":"++port))

theorem toList_joined (host port : String) :
    (host++":"++port).toList = host.toList++ ':' :: port.toList := by
  simp

theorem exists_joined {a : String} (h : ':' ∈ a.toList) :
    ∃ host port : String, a = host++":"++port ∧ ':' ∉ port.toList := by
  refine ⟨String.ofList (Cut.last ':' a.toList).1,String.ofList (Cut.last ':' a.toList).2,?_,?_⟩
  · rw [← String.toList_inj,toList_joined,String.toList_ofList,String.toList_ofList,
      Cut.last_append ':' a.toList h]
  · rw [String.toList_ofList]
    exact Cut.not_mem_last ':' a.toList

theorem hostOf_toList (host : String) :
    hostOf host.toList = if host = "" then "0.0.0.0" else host := by
  simp [hostOf,anyHost]

/-- What is behind the last colon decides. -/
theorem read_joined (host port : String) (h : ':' ∉ port.toList) : read (host++":"++port) =
    match Integer.read? port.toList with
    | none => .error (.port (host++":"++port))
    | some n =>
      if 0 ≤ n ∧ n ≤ 65535 then .ok ⟨if host = "" then "0.0.0.0" else host,n⟩
      else .error (.range (host++":"++port)) := by
  have hsplit : split? (host++":"++port).toList = some (host.toList,port.toList) := by
    rw [split?,toList_joined,Cut.last_of_not_mem h]
    simp
  cases hport : Integer.read? port.toList with
  | none => simp only [read,hsplit,hport]
  | some n => simp only [read,hsplit,hport,hostOf_toList,Bool.and_eq_true,decide_eq_true_eq]

theorem Spelled.read {a : String} {b : Address} (h : Spelled a b) : read a = .ok b := by
  cases h with
  | mk host port ds n hlast hport hlimit hlow hhigh =>
    rw [read_joined host port hlast,(Integer.read?_eq_some_iff _ n).mpr ⟨ds,hport,hlimit⟩]
    exact if_pos ⟨hlow,hhigh⟩

theorem Refused.read {a : String} {e : AddressFault} (h : Refused a e) : read a = .error e := by
  cases h with
  | format a h => simp [Address.read,split?,h]
  | port host port hlast h =>
    have hnone : Integer.read? port.toList = none := by
      refine Option.eq_none_iff_forall_ne_some.mpr fun n hn => ?_
      obtain ⟨ds,hds,hlimit⟩ := (Integer.read?_eq_some_iff _ n).mp hn
      exact absurd (h ds n hds) (Nat.not_lt.mpr hlimit)
    rw [read_joined host port hlast,hnone]
  | range host port ds n hlast hport hlimit h =>
    rw [read_joined host port hlast,(Integer.read?_eq_some_iff _ n).mpr ⟨ds,hport,hlimit⟩]
    exact if_neg (by omega)

theorem spelled_or_refused (a : String) : (∃ b, Spelled a b) ∨ ∃ e, Refused a e := by
  by_cases hcolon : ':' ∈ a.toList
  · obtain ⟨host,port,rfl,hlast⟩ := exists_joined hcolon
    cases hread : Integer.read? port.toList with
    | none =>
      refine .inr ⟨_,.port host port hlast fun ds n hport => Nat.lt_of_not_le fun hlimit => ?_⟩
      rw [(Integer.read?_eq_some_iff _ n).mpr ⟨ds,hport,hlimit⟩] at hread
      cases hread
    | some n =>
      obtain ⟨ds,hport,hlimit⟩ := (Integer.read?_eq_some_iff _ n).mp hread
      by_cases hrange : 0 ≤ n ∧ n ≤ 65535
      · exact .inl ⟨_,.mk host port ds n hlast hport hlimit hrange.1 hrange.2⟩
      · exact .inr ⟨_,.range host port ds n hlast hport hlimit (by omega)⟩
  · exact .inr ⟨_,.format a hcolon⟩

theorem spelled_decimal (host : String) {n : Nat} (hn : n ≤ 65535) :
    Spelled (host++":"++toString n) ⟨if host = "" then "0.0.0.0" else host,n⟩ := by
  obtain ⟨ds,hds,hlength⟩ := Integer.spelled_toString n
  have hdigits : (Nat.toDigits 10 n).length ≤ 5 :=
    (Nat.length_toDigits_le_iff (by decide) (by decide)).mpr (by omega)
  have hcolon : ':' ∉ (toString n).toList := by
    rw [Integer.toList_toString]
    intro hm
    have hdigit := Nat.isDigit_of_mem_toDigits (by decide) (by decide) hm
    cases hdigit
  have hlimit : ds.length ≤ Integer.digitLimit := by
    rw [hlength]
    exact Nat.le_trans hdigits (by decide)
  exact .mk host (toString n) ds n hcolon hds hlimit (by omega) (by omega)

/-- Addresses are read by their grammar, and a text outside it is refused for its own reason. With a port in
decimal digits any text will do for a host, one with colons too. -/
theorem reads_its_grammar :
    (∀ a b, read a = .ok b ↔ Spelled a b) ∧ (∀ a e, read a = .error e ↔ Refused a e) ∧
    ∀ (host : String) (n : Nat), n ≤ 65535 →
      read (host++":"++toString n) = .ok ⟨if host = "" then "0.0.0.0" else host,n⟩ := by
  refine ⟨fun a b => ⟨fun hread => ?_,Spelled.read⟩,fun a e => ⟨fun hread => ?_,Refused.read⟩,
    fun host n hn => (spelled_decimal host hn).read⟩
  · rcases spelled_or_refused a with ⟨b',h⟩ | ⟨e,h⟩
    · rw [h.read] at hread
      exact Except.ok.inj hread ▸ h
    · rw [h.read] at hread
      cases hread
  · rcases spelled_or_refused a with ⟨b,h⟩ | ⟨e',h⟩
    · rw [h.read] at hread
      cases hread
    · rw [h.read] at hread
      exact Except.error.inj hread ▸ h

/-- A host with colons, and a port with blanks, a sign, an underscore and digits of two scripts. -/
theorem reads_its_grammar_loopback :
    read ("::1"++":"++toString 8080) = .ok ⟨"::1",8080⟩ ∧ Spelled "::1: +8_\u0660\t" ⟨"::1",80⟩ ∧
      Refused ":-1" (.range ":-1") ∧ Refused "h:8 0" (.port "h:8 0") := by
  obtain ⟨hok,herror,hdecimal⟩ := reads_its_grammar
  exact ⟨hdecimal "::1" 8080 (by decide),(hok _ _).mp (by decide +kernel),
    (herror _ _).mp (by decide +kernel),(herror _ _).mp (by decide +kernel)⟩

end Address
end HealthRollup
