import HealthRollup.Proofs.RequestLines
import HealthRollup.Server.Liveness

/-! What the liveness endpoint answers, for every method and every path. Only `GET` of `health` behind a
slash is well, and several slashes count as one. The other answers depend on who gives them: the handler
says 404 with an empty body for the methods it knows, and everything else meets an error page before the
handler sees it, namely a method that is not known, a word that falls into several where its bytes look
like blanks, and a line that is too long. -/
namespace HealthRollup
namespace Liveness
open RequestLine

def lineOf (method path : String) : String := method ++ " " ++ path ++ " HTTP/1.0"

def version : List Char := ['H', 'T', 'T', 'P', '/', '1', '.', '0']

/-- With its line end the line is not too long. -/
def Fits (method path : String) : Prop := (bytewise (lineOf method path)).length+2 ≤ lengthLimit

/-- `health` behind one slash or more. -/
def IsHealth (path : List Char) : Prop :=
  ∃ n, path = '/' :: (List.replicate n '/' ++['h', 'e', 'a', 'l', 't', 'h'])

theorem singleSlash_eq_iff (cs : List Char) : singleSlash cs = healthPath ↔ IsHealth cs := by
  constructor
  · intro h
    unfold singleSlash at h
    split at h
    · rename_i ds
      have hrest : ds.dropWhile (· == '/') = ['h', 'e', 'a', 'l', 't', 'h'] := (List.cons.inj h).2
      have hslashes : ds.takeWhile (· == '/') = List.replicate (ds.takeWhile (· == '/')).length '/' :=
        List.eq_replicate_of_mem fun d hd => by
          simpa using List.all_eq_true.mp List.all_takeWhile d hd
      refine ⟨(ds.takeWhile (· == '/')).length+1,?_⟩
      rw [List.replicate_succ,List.cons_append,← hslashes,← hrest,List.takeWhile_append_dropWhile]
    · exact ⟨0,h⟩
  · rintro ⟨n,rfl⟩
    cases n with
    | zero => rfl
    | succ n =>
      have hslashes : ∀ d ∈ List.replicate n '/', (d == '/') = true := fun d hd => by
        simp [List.eq_of_mem_replicate hd]
      rw [List.replicate_succ,List.cons_append,singleSlash,List.dropWhile_append_of_pos hslashes]
      rfl

theorem IsHealth.ascii {path : List Char} (h : IsHealth path) : IsAscii path := by
  obtain ⟨n,rfl⟩ := h
  have hslash : IsAscii ['/'] := by decide
  have hhealth : IsAscii ['h', 'e', 'a', 'l', 't', 'h'] := by decide
  refine List.forall_mem_cons.mpr ⟨hslash _ List.mem_cons_self,List.forall_mem_append.mpr ⟨?_,hhealth⟩⟩
  intro c hc
  exact List.eq_of_mem_replicate hc ▸ hslash _ List.mem_cons_self

section Line
variable {method path : String}

theorem bytewise_lineOf (method path : String) :
    bytewise (lineOf method path) = bytewise method++ ' ' :: (bytewise path++ ' ' :: version) := by
  have hblank : bytewise " " = [' '] := by decide
  have hversion : bytewise " HTTP/1.0" = ' ' :: version := by decide
  simp [lineOf,hblank,hversion]

theorem words_lineOf (method path : String) : words (bytewise (lineOf method path)) =
    words (bytewise method)++(words (bytewise path)++[version]) := by
  have hblank : Blank.isBlank ' ' = true := by decide
  have hversion : words version = [version] := by decide
  rw [bytewise_lineOf,words_append_cons hblank,words_append_cons hblank,hversion]

theorem firstLine_lineOf (hm : IsWord method) (hp : IsWord path) :
    firstLine (bytewise (lineOf method path)++['\r', '\n']) = bytewise (lineOf method path)++['\r'] := by
  have hbreak : Blank.isBlank '\n' = true := by decide
  have hword {s : String} (hs : IsWord s) : '\n' ∉ bytewise s := fun h => by
    have hsolid := hs.solid '\n' (mem_of_mem_bytewise (by decide) h)
    rw [hbreak] at hsolid
    cases hsolid
  have hline : '\n' ∉ bytewise (lineOf method path)++['\r'] := by
    rw [bytewise_lineOf]
    simp [hword hm,hword hp,version]
  have hcut := Cut.first_append_cons hline []
  rw [List.append_assoc] at hcut
  exact congrArg Prod.fst hcut

/-- The line ends in the digit of its version, so that just the return is taken off. -/
theorem withoutReturns_lineOf (method path : String) :
    withoutReturns (bytewise (lineOf method path)++['\r']) = bytewise (lineOf method path) := by
  have hend : bytewise (lineOf method path) =
      (bytewise method++ ' ' :: (bytewise path++ ' ' :: version.dropLast))++['0'] := by
    rw [bytewise_lineOf]
    simp [version]
  rw [hend]
  simp [withoutReturns]

theorem respond_eq (hm : IsWord method) (hp : IsWord path) :
    respond method path = respondTo (bytewise (lineOf method path)++['\r']) :=
  congrArg respondTo (firstLine_lineOf hm hp)

theorem tooLong_iff (method path : String) :
    lengthLimit < (bytewise (lineOf method path)++['\r']).length+1 ↔ ¬ Fits method path := by
  rw [List.length_append,List.length_singleton,Fits]
  omega

theorem respond_of_not_fits (hm : IsWord method) (hp : IsWord path) (h : ¬ Fits method path) :
    respond method path = refuse "" 414 "Request-URI Too Long" "URI is too long" := by
  rw [respond_eq hm hp,respondTo,if_pos ((tooLong_iff method path).mpr h)]

theorem respond_of_proper (hm : IsWord method) (hp : IsWord path) (hf : Fits method path) {m p : String}
    (hr : read (bytewise (lineOf method path)) = .proper m p) :
    respond method path = answer (String.ofList (bytewise (lineOf method path))) m p := by
  have hshort := fun h => (tooLong_iff method path).mp h hf
  rw [respond_eq hm hp,respondTo,if_neg hshort,withoutReturns_lineOf]
  simp only [hr]

theorem respond_of_refused (hm : IsWord method) (hp : IsWord path) (hf : Fits method path) {status : Nat}
    {reason explanation : String}
    (hr : read (bytewise (lineOf method path)) = .refused status reason explanation) :
    respond method path =
      refuse (String.ofList (bytewise (lineOf method path))) status reason explanation := by
  have hshort := fun h => (tooLong_iff method path).mp h hf
  rw [respond_eq hm hp,respondTo,if_neg hshort,withoutReturns_lineOf]
  simp only [hr]

end Line

def errorPage (status : Nat) (reason explanation : String) : Reply :=
  ⟨status,some "text/html;charset=utf-8",page status reason explanation⟩

/-- Every reply that there is, with what calls for it. -/
inductive Answered (method path : String) : Reply → Prop
  | tooLong (h : ¬ Fits method path) :
      Answered method path (errorPage 414 "Request-URI Too Long" "URI is too long")
  | torn (hf : Fits method path) (h : ¬ ∃ m p, Arrives method m ∧ Arrives path p) :
      Answered method path (errorPage 400
        ("Bad request syntax (" ++ Quoted.encode (String.ofList (bytewise (lineOf method path))) ++ ")")
        "Bad request syntax or unsupported method")
  | unknown (m p : List Char) (hf : Fits method path) (hm : Arrives method m) (hp : Arrives path p)
      (h : method ∉ methods) :
      Answered method path (errorPage 501
        ("Unsupported method (" ++ Quoted.encode (String.ofList m) ++ ")")
        "Server does not support this operation")
  | well (hf : Fits method path) (hm : method = "GET") (hp : IsHealth path.toList) :
      Answered method path (.plain 200 "OK")
  | absent (m p : List Char) (hf : Fits method path) (hm : Arrives method m) (hp : Arrives path p)
      (h : method ∈ methods) (hn : ¬ (method = "GET" ∧ IsHealth path.toList)) :
      Answered method path (.empty 404)

section Words
variable {method path : String} {m p : List Char}

theorem ascii_of_mem_methods {t : String} (h : t ∈ methods) : IsAscii t.toList := by
  have hall : methods.all fun t => IsAscii t.toList := by decide
  simpa using List.all_eq_true.mp hall t h

theorem mem_methods_iff (hm : IsWord method) (ha : Arrives method m) :
    String.ofList m ∈ methods ↔ method ∈ methods := by
  have hsame {t : String} (ht : t ∈ methods) : String.ofList m = t ↔ method = t := by
    rw [← String.toList_inj,← String.toList_inj,String.toList_ofList]
    exact hm.word_eq_iff ha (ascii_of_mem_methods ht)
  constructor
  · intro h
    exact (hsame h).mp rfl ▸ h
  · intro h
    exact (hsame h).mpr rfl ▸ h

theorem isGet_iff (hm : IsWord method) (ha : Arrives method m) :
    String.ofList m = "GET" ↔ method = "GET" := by
  rw [← String.toList_inj,← String.toList_inj,String.toList_ofList]
  exact hm.word_eq_iff ha (by decide)

theorem isHealth_iff (hp : IsWord path) (ha : Arrives path p) : IsHealth p ↔ IsHealth path.toList := by
  constructor
  · intro h
    rwa [(hp.word_eq_iff ha h.ascii).mp rfl]
  · intro h
    rwa [(hp.word_eq_iff ha h.ascii).mpr rfl]

theorem answered_answer (line : String) (hm : IsWord method) (hp : IsWord path) (hf : Fits method path)
    (hma : Arrives method m) (hpa : Arrives path p) :
    Answered method path (answer line (String.ofList m) (String.ofList p)).reply := by
  have hwell : String.ofList m = "GET" ∧ singleSlash (String.ofList p).toList = healthPath ↔
      method = "GET" ∧ IsHealth path.toList := by
    rw [isGet_iff hm hma,String.toList_ofList,singleSlash_eq_iff,isHealth_iff hp hpa]
  unfold answer
  split
  · rename_i hunknown
    have hnot : method ∉ methods := by simpa [mem_methods_iff hm hma] using hunknown
    exact .unknown m p hf hma hpa hnot
  · rename_i hknown
    have hmem : method ∈ methods := by simpa [mem_methods_iff hm hma] using hknown
    split
    · rename_i hget
      obtain ⟨hget,hhealth⟩ := hwell.mp (by simpa using hget)
      exact .well hf hget hhealth
    · rename_i hother
      exact .absent m p hf hma hpa hmem fun h => hother (by simpa using hwell.mpr h)

theorem two_lt_length_words (hm : IsWord method) (hp : IsWord path)
    (h : ¬ ∃ m p, Arrives method m ∧ Arrives path p) :
    2 < (words (bytewise method)++words (bytewise path)).length := by
  have hmethod := List.length_pos_of_ne_nil hm.words_ne_nil
  have hpath := List.length_pos_of_ne_nil hp.words_ne_nil
  have hnot : ¬ ((words (bytewise method)).length = 1 ∧ (words (bytewise path)).length = 1) := by
    rintro ⟨h1,h2⟩
    obtain ⟨m,hm⟩ := List.length_eq_one_iff.mp h1
    obtain ⟨p,hp⟩ := List.length_eq_one_iff.mp h2
    exact h ⟨m,p,hm,hp⟩
  rw [List.length_append]
  omega

theorem answered_respond (hm : IsWord method) (hp : IsWord path) :
    Answered method path (respond method path).reply := by
  have hversion : major? version = some 1 := by decide
  by_cases hf : Fits method path
  · by_cases ha : ∃ m p, Arrives method m ∧ Arrives path p
    · obtain ⟨m,p,hma,hpa⟩ := ha
      have hwords : words (bytewise (lineOf method path)) = [m,p,version] := by
        rw [words_lineOf,hma,hpa]
        rfl
      rw [respond_of_proper hm hp hf (read_of_three hwords hversion)]
      exact answered_answer _ hm hp hf hma hpa
    · have hwords := words_lineOf method path
      rw [← List.append_assoc] at hwords
      have hread := read_of_more hwords (two_lt_length_words hm hp ha) hversion
      rw [respond_of_refused hm hp hf hread]
      exact .torn hf ha
  · rw [respond_of_not_fits hm hp hf]
    exact .tooLong hf

theorem Answered.ok_iff {r : Reply} (h : Answered method path r) (hm : IsWord method)
    (hp : IsWord path) :
    r.status = 200 ↔ Fits method path ∧ method = "GET" ∧ IsHealth path.toList := by
  constructor
  · intro hs
    cases h with
    | tooLong | torn | unknown | absent => cases hs
    | well hf hget hhealth => exact ⟨hf,hget,hhealth⟩
  · rintro ⟨hf,rfl,hhealth⟩
    cases h with
    | tooLong hlong => exact absurd hf hlong
    | torn _ htorn =>
      exact absurd ⟨_,_,hm.arrives_of_ascii (by decide),hp.arrives_of_ascii hhealth.ascii⟩ htorn
    | unknown _ _ _ _ _ hunknown => exact absurd (by decide) hunknown
    | well => rfl
    | absent _ _ _ _ _ _ hn => exact absurd ⟨rfl,hhealth⟩ hn

theorem Answered.absent_iff {r : Reply} (h : Answered method path r) :
    r.status = 404 ↔ Fits method path ∧ (∃ m p, Arrives method m ∧ Arrives path p) ∧
      method ∈ methods ∧ ¬ (method = "GET" ∧ IsHealth path.toList) := by
  constructor
  · intro hs
    cases h with
    | tooLong | torn | unknown | well => cases hs
    | absent m p hf hm hp hmem hn => exact ⟨hf,⟨m,p,hm,hp⟩,hmem,hn⟩
  · rintro ⟨hf,harrive,hmem,hn⟩
    cases h with
    | tooLong hlong => exact absurd hf hlong
    | torn _ htorn => exact absurd harrive htorn
    | unknown _ _ _ _ _ hunknown => exact absurd hmem hunknown
    | well _ hget hhealth => exact absurd ⟨hget,hhealth⟩ hn
    | absent => rfl

theorem Answered.of_ok {r : Reply} (h : Answered method path r) (hs : r.status = 200) :
    r.body = "OK" ∧ r.contentLength = "2" := by
  cases h with
  | well => exact ⟨rfl,by decide⟩
  | tooLong | torn | unknown | absent => cases hs

theorem Answered.of_absent {r : Reply} (h : Answered method path r) (hs : r.status = 404) :
    r.body = "" ∧ r.contentLength = "0" := by
  cases h with
  | absent => exact ⟨rfl,by decide⟩
  | tooLong | torn | unknown | well => cases hs

end Words

/-- `GET` of `health` behind one slash or more is answered with `OK`, and nothing else is. A method that is
known is else answered with an empty 404, as long as both words arrive whole; all other answers are error
pages. -/
theorem answers_health_checks (method path : String) (hm : IsWord method) (hp : IsWord path) :
    let r := (respond method path).reply
    Answered method path r ∧
      (r.status = 200 ↔ Fits method path ∧ method = "GET" ∧ IsHealth path.toList) ∧
      (r.status = 200 → r.body = "OK" ∧ r.contentLength = "2") ∧
      (r.status = 404 ↔ Fits method path ∧ (∃ m p, Arrives method m ∧ Arrives path p) ∧
        method ∈ methods ∧ ¬ (method = "GET" ∧ IsHealth path.toList)) ∧
      (r.status = 404 → r.body = "" ∧ r.contentLength = "0") := by
  intro r
  have hr : Answered method path r := answered_respond hm hp
  exact ⟨hr,hr.ok_iff hm hp,hr.of_ok,hr.absent_iff,hr.of_absent⟩

theorem answers_health_checks_slashes :
    IsWord "GET" ∧ IsWord "//health" ∧ (respond "GET" "//health").reply.status = 200 ∧
      (respond "GET" "//health").reply.contentLength = "2" := by
  have hget : IsWord "GET" := by decide
  have hpath : IsWord "//health" := by decide
  obtain ⟨-,hok,hbody,-⟩ := answers_health_checks "GET" "//health" hget hpath
  have hfits : Fits "GET" "//health" := by unfold Fits; decide
  have hstatus := hok.mpr ⟨hfits,rfl,1,rfl⟩
  exact ⟨hget,hpath,hstatus,(hbody hstatus).2⟩

/-- A method that the handler does not know, and a path with a slash too many. -/
theorem answers_others :
    IsWord "OPTIONS" ∧ IsWord "/health" ∧ (respond "OPTIONS" "/health").reply =
        errorPage 501 "Unsupported method ('OPTIONS')" "Server does not support this operation" ∧
      IsWord "GET" ∧ IsWord "//health" ∧ (respond "GET" "//health").reply = .plain 200 "OK" :=
  ⟨by decide,by decide,by decide +kernel,by decide,by decide,by decide +kernel⟩

end Liveness
end HealthRollup
