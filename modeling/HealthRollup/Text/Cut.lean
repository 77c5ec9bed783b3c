/-! Cutting a text at characters, which go to none of the parts. -/
namespace HealthRollup
namespace Cut

/-- At the first occurrence; without one the text is the first part. -/
def first (c : Char) (cs : List Char) : List Char × List Char :=
  (cs.takeWhile (· != c),(cs.dropWhile (· != c)).drop 1)

/-- At the last occurrence; without one the text is the second part. -/
def last (c : Char) (cs : List Char) : List Char × List Char :=
  ((first c cs.reverse).2.reverse,(first c cs.reverse).1.reverse)

/-- At every character of a class; parts may be empty. -/
def every (p : Char → Bool) (cs : List Char) : List (List Char) :=
  cs.foldr (fun c parts =>
    if p c then []::parts
    else
      match parts with
      | [] => [[c]]
      | part::parts => (c::part)::parts) [[]]

@[simp] theorem first_nil (c : Char) : first c [] = ([],[]) := rfl
@[simp] theorem last_nil (c : Char) : last c [] = ([],[]) := rfl
@[simp] theorem every_nil (p : Char → Bool) : every p [] = [[]] := rfl

/-- A mark that is in no part before it is the first one. -/
theorem first_append_cons {c : Char} {front : List Char} (h : c ∉ front) (back : List Char) :
    first c (front++c::back) = (front,back) := by
  have hpos : ∀ d ∈ front, (d != c) = true := by
    intro d hd
    have hne : d ≠ c := fun he => h (he ▸ hd)
    simpa using hne
  simp [first,List.takeWhile_append_of_pos hpos,List.dropWhile_append_of_pos hpos]

/-- The parts with the character between them make up the text again. -/
theorem first_append (c : Char) (cs : List Char) (h : c ∈ cs) :
    (first c cs).1++c::(first c cs).2 = cs := by
  induction cs with
  | nil => simp at h
  | cons d ds ih =>
    by_cases hd : d = c
    · subst hd
      simp [first]
    · have hm : c ∈ ds := by
        rcases List.mem_cons.1 h with e | e
        · exact absurd e.symm hd
        · exact e
      have := ih hm
      simpa [first,hd] using this

theorem last_append (c : Char) (cs : List Char) (h : c ∈ cs) :
    (last c cs).1++c::(last c cs).2 = cs := by
  have := congrArg List.reverse (first_append c cs.reverse (by simpa using h))
  simpa [last] using this

/-- A mark that is in no part behind it is the last one. -/
theorem last_of_not_mem {c : Char} {back : List Char} (h : c ∉ back) (front : List Char) :
    last c (front++c::back) = (front,back) := by
  have hcut : first c (back.reverse++c::front.reverse) = (back.reverse,front.reverse) :=
    first_append_cons (by simpa using h) _
  simp [last,hcut]

theorem not_mem_last (c : Char) (cs : List Char) : c ∉ (last c cs).2 := by
  intro h
  have hall := List.all_takeWhile (p := (· != c)) (l := cs.reverse)
  rw [List.all_eq_true] at hall
  have hne := hall c (List.mem_reverse.mp h)
  simp at hne

theorem every_cons (p : Char → Bool) (c : Char) (cs : List Char) : every p (c::cs) =
    if p c then []::every p cs
    else match every p cs with
      | [] => [[c]]
      | part::parts => (c::part)::parts := rfl

/-- There is always a part, if only an empty one. -/
theorem every_ne_nil (p : Char → Bool) (cs : List Char) : every p cs ≠ [] := by
  cases cs with
  | nil => simp
  | cons c cs =>
    rw [every_cons]
    split
    · simp
    · split <;> simp

/-- Nothing is lost but the characters of the class. -/
theorem every_flatten (p : Char → Bool) (cs : List Char) :
    (every p cs).flatten = cs.filter fun c => !p c := by
  induction cs with
  | nil => rfl
  | cons c cs ih =>
    rw [every_cons]
    by_cases hc : p c
    · simp [hc,ih]
    · cases h : every p cs with
      | nil => simp_all
      | cons part parts => simp_all

theorem every_of_none {p : Char → Bool} {cs : List Char} (h : ∀ c ∈ cs, p c = false) :
    every p cs = [cs] := by
  induction cs with
  | nil => rfl
  | cons c cs ih =>
    have hrest := ih fun d hd => h d (List.mem_cons_of_mem _ hd)
    simp [every_cons,h c List.mem_cons_self,hrest]

theorem every_append_cons {p : Char → Bool} {c : Char} (hc : p c = true) (front back : List Char) :
    every p (front++c::back) = every p front++every p back := by
  induction front with
  | nil => simp [every_cons,hc]
  | cons d front ih =>
    rw [List.cons_append,every_cons,every_cons,ih]
    by_cases hd : p d
    · simp [hd]
    · cases h : every p front with
      | nil => exact absurd h (every_ne_nil p front)
      | cons part parts => simp [hd]

end Cut
end HealthRollup
