import HealthRollup.Text.Ranges

/-! Blank characters. The set that is trimmed around a timestamp has the four ASCII separators in it; the
set that may surround a port number is the same without them. -/
namespace HealthRollup
namespace Blank

def runs : List (Nat × Nat) :=
  [(9,13),(0x1c,0x20),(0x85,0x85),(0xa0,0xa0),(0x1680,0x1680),(0x2000,0x200a),(0x2028,0x2029),
   (0x202f,0x202f),(0x205f,0x205f),(0x3000,0x3000)]

def isBlank (c : Char) : Bool := Ranges.covers runs c.toNat

/-- The separators from U+001C to U+001F do not count beside a number. -/
def isNumberBlank (c : Char) : Bool := isBlank c && !(0x1c ≤ c.toNat && c.toNat ≤ 0x1f)

/-- Drops the characters of a class from both ends. -/
def trim (p : Char → Bool) (cs : List Char) : List Char :=
  ((cs.dropWhile p).reverse.dropWhile p).reverse

@[simp] theorem trim_nil (p : Char → Bool) : trim p [] = [] := rfl

/-- The class is trimmed off both ends of a text that neither begins nor ends with it. -/
theorem trim_append {p : Char → Bool} {front cs back : List Char} (hfront : ∀ c ∈ front, p c = true)
    (hback : ∀ c ∈ back, p c = true) (hne : cs ≠ []) (hhead : ∀ c, cs.head? = some c → p c = false)
    (hlast : ∀ c, cs.getLast? = some c → p c = false) : trim p (front++(cs++back)) = cs := by
  have hdrop (ds rest : List Char) (hds : ds ≠ []) (h : ∀ c, ds.head? = some c → p c = false) :
      (ds++rest).dropWhile p = ds++rest := by
    cases ds with
    | nil => exact absurd rfl hds
    | cons d ds => simp [h d rfl]
  have hfirst : (front++(cs++back)).dropWhile p = cs++back := by
    rw [List.dropWhile_append_of_pos hfront,hdrop cs back hne hhead]
  have hrest : (back.reverse++cs.reverse).dropWhile p = cs.reverse := by
    rw [List.dropWhile_append_of_pos (by simpa using hback)]
    have hsame := hdrop cs.reverse [] (by simpa using hne) (by simpa using hlast)
    rwa [List.append_nil] at hsame
  rw [trim,hfirst,List.reverse_append,hrest,List.reverse_reverse]

/-- What is trimmed off is of the class. -/
theorem exists_trim (p : Char → Bool) (cs : List Char) : ∃ front back, cs = front++(trim p cs++back) ∧
    (∀ c ∈ front, p c = true) ∧ ∀ c ∈ back, p c = true := by
  have hback := List.takeWhile_append_dropWhile (p := p) (l := (cs.dropWhile p).reverse)
  refine ⟨cs.takeWhile p,((cs.dropWhile p).reverse.takeWhile p).reverse,?_,?_,?_⟩
  · rw [trim,← List.reverse_append,hback,List.reverse_reverse,List.takeWhile_append_dropWhile]
  · exact fun c hc => List.all_eq_true.mp List.all_takeWhile c hc
  · exact fun c hc => List.all_eq_true.mp List.all_takeWhile c (List.mem_reverse.mp hc)

end Blank
end HealthRollup
