import HealthRollup.Server.RequestLine
import Mathlib.Data.List.Basic

/-! How a request line is read that puts a method, a path and a version side by side. The line arrives as
bytes, and some bytes of characters that are no blanks look like blanks themselves, so that a word may
fall into several. An ASCII word arrives as it is, and nothing else arrives as an ASCII word. -/
namespace HealthRollup
namespace RequestLine

def IsAscii (cs : List Char) : Prop := ∀ c ∈ cs, c.toNat < 128

instance (cs : List Char) : Decidable (IsAscii cs) :=
  decidable_of_iff (cs.all fun c => c.toNat < 128) (by simp [IsAscii])

/-- The bytes of a character, each as the character of its number. -/
def spread (c : Char) : List Char := (String.utf8EncodeChar c).map fun b => Char.ofNat b.toNat

theorem bytewise_eq (s : String) : bytewise s = s.toList.flatMap spread := List.map_flatMap

@[simp] theorem bytewise_append (s t : String) : bytewise (s ++ t) = bytewise s++bytewise t := by
  simp [bytewise]

theorem toNat_ofNat_byte (b : UInt8) : (Char.ofNat b.toNat).toNat = b.toNat := by
  have hb : b.toNat < 256 := b.toNat_lt
  have hvalid : b.toNat.isValidChar := .inl (by omega)
  rw [Char.ofNat,dif_pos hvalid]
  exact UInt32.toNat_ofNatLT

theorem spread_of_ascii {c : Char} (h : c.toNat < 128) : spread c = [c] := by
  have hone : c.utf8Size = 1 := by
    rw [Char.utf8Size_eq_one_iff,UInt32.le_iff_toNat_le]
    exact Nat.le_of_lt_succ h
  have hbyte : c.val.toUInt8.toNat = c.toNat := by
    rw [UInt32.toNat_toUInt8]
    exact Nat.mod_eq_of_lt (Nat.lt_trans h (by decide))
  rw [spread,String.utf8EncodeChar_eq_singleton hone,List.map_singleton,hbyte,Char.ofNat_toNat]

/-- The first of several bytes is not below 0xc0, and the others are not below 0x80. -/
theorem utf8EncodeChar_of_not_ascii {c : Char} (h : ¬ c.toNat < 128) :
    ∃ b bs, String.utf8EncodeChar c = b::bs ∧ 0xc0 ≤ b.toNat ∧ ∀ d ∈ bs, 0x80 ≤ d.toNat := by
  have hmark {a : UInt8} {m : Nat} (hm : m ≤ 255) : m ≤ (a ||| UInt8.ofNat m).toNat := by
    rw [UInt8.toNat_or,UInt8.toNat_ofNat_of_lt' (Nat.lt_succ_of_le hm)]
    exact Nat.right_le_or
  have htail (as : List UInt8) : ∀ d ∈ as.map (· ||| 0x80), 0x80 ≤ d.toNat := by
    intro d hd
    obtain ⟨a,-,rfl⟩ := List.mem_map.mp hd
    exact hmark (by decide)
  rcases Char.utf8Size_eq c with hone | htwo | hthree | hfour
  · rw [Char.utf8Size_eq_one_iff,UInt32.le_iff_toNat_le] at hone
    exact absurd (Nat.lt_succ_of_le hone) h
  · have hlead {a : UInt8} : 0xc0 ≤ (a ||| 0xc0).toNat := hmark (by decide)
    exact ⟨_,_,String.utf8EncodeChar_eq_cons_cons htwo,hlead,htail [_]⟩
  · have hlead {a : UInt8} : 0xe0 ≤ (a ||| 0xe0).toNat := hmark (by decide)
    exact ⟨_,_,String.utf8EncodeChar_eq_cons_cons_cons hthree,Nat.le_trans (by decide) hlead,htail [_,_]⟩
  · have hlead {a : UInt8} : 0xf0 ≤ (a ||| 0xf0).toNat := hmark (by decide)
    exact ⟨_,_,String.utf8EncodeChar_eq_cons_cons_cons_cons hfour,Nat.le_trans (by decide) hlead,
      htail [_,_,_]⟩

theorem spread_of_not_ascii {c : Char} (h : ¬ c.toNat < 128) : ∃ d ds, spread c = d::ds ∧
    0xc0 ≤ d.toNat ∧ d.toNat < 256 ∧ ∀ e ∈ ds, 0x80 ≤ e.toNat := by
  obtain ⟨b,bs,hbytes,hlead,htail⟩ := utf8EncodeChar_of_not_ascii h
  refine ⟨_,_,by rw [spread,hbytes,List.map_cons],?_,?_,fun e he => ?_⟩
  · rwa [toNat_ofNat_byte]
  · rw [toNat_ofNat_byte]
    exact b.toNat_lt
  · obtain ⟨d,hd,rfl⟩ := List.mem_map.mp he
    rw [toNat_ofNat_byte]
    exact htail d hd

theorem bytewise_of_ascii {s : String} (h : IsAscii s.toList) : bytewise s = s.toList := by
  rw [bytewise_eq]
  generalize s.toList = cs at h
  induction cs with
  | nil => rfl
  | cons c cs ih =>
    obtain ⟨hc,hcs⟩ := List.forall_mem_cons.mp h
    rw [List.flatMap_cons,spread_of_ascii hc,ih hcs]
    rfl

theorem mem_of_mem_bytewise {s : String} {d : Char} (hd : d.toNat < 128) (h : d ∈ bytewise s) :
    d ∈ s.toList := by
  rw [bytewise_eq] at h
  obtain ⟨c,hc,hdc⟩ := List.mem_flatMap.mp h
  by_cases hascii : c.toNat < 128
  · rw [spread_of_ascii hascii,List.mem_singleton] at hdc
    exact hdc ▸ hc
  · obtain ⟨e,es,hspread,hlead,-,htail⟩ := spread_of_not_ascii hascii
    rw [hspread] at hdc
    rcases List.mem_cons.mp hdc with rfl | hm
    · omega
    · have := htail d hm
      omega

theorem isBlank_lead {d : Char} (h : 0xc0 ≤ d.toNat) (hd : d.toNat < 256) : Blank.isBlank d = false := by
  rw [Blank.isBlank,Bool.eq_false_iff,Ne,Ranges.covers_iff]
  rintro ⟨r,hr,hle,hge⟩
  simp only [Blank.runs,List.mem_cons,List.not_mem_nil,or_false] at hr
  rcases hr with rfl | rfl | rfl | rfl | rfl | rfl | rfl | rfl | rfl | rfl <;> simp only at hle hge <;> omega

theorem words_flatten (cs : List Char) : (words cs).flatten = cs.filter fun c => !Blank.isBlank c := by
  rw [words,List.flatten_filter_not_isEmpty,Cut.every_flatten]

theorem words_append_cons {c : Char} (hc : Blank.isBlank c = true) (front back : List Char) :
    words (front++c::back) = words front++words back := by
  rw [words,Cut.every_append_cons hc,List.filter_append]
  rfl

theorem words_of_solid {cs : List Char} (h : ∀ c ∈ cs, Blank.isBlank c = false) (hne : cs ≠ []) :
    words cs = [cs] := by
  simp [words,Cut.every_of_none h,hne]

/-- The text arrives as this one word. -/
def Arrives (s : String) (w : List Char) : Prop := words (bytewise s) = [w]

/-- What stands between blanks: not empty, and no blank in it. -/
structure IsWord (s : String) : Prop where
  nonempty : s ≠ ""
  solid : ∀ c ∈ s.toList, Blank.isBlank c = false

instance (s : String) : Decidable (IsWord s) :=
  decidable_of_iff (s ≠ "" ∧ s.toList.all fun c => !Blank.isBlank c)
    ⟨fun h => ⟨h.1,by simpa using h.2⟩,fun h => ⟨h.1,by simpa using h.2⟩⟩

namespace IsWord
variable {s : String}

/-- The first byte of a character that is no blank does not look like one. -/
theorem exists_solid {c : Char} (h : Blank.isBlank c = false) :
    ∃ d ∈ spread c, Blank.isBlank d = false ∧ (d.toNat < 128 → c.toNat < 128) := by
  by_cases hc : c.toNat < 128
  · exact ⟨c,by rw [spread_of_ascii hc]; exact List.mem_singleton_self c,h,fun _ => hc⟩
  · obtain ⟨d,ds,hspread,hlead,hbyte,-⟩ := spread_of_not_ascii hc
    exact ⟨d,by rw [hspread]; exact List.mem_cons_self,isBlank_lead hlead hbyte,fun hd => by omega⟩

theorem words_ne_nil (h : IsWord s) : words (bytewise s) ≠ [] := by
  intro hnil
  have hfilter := words_flatten (bytewise s)
  rw [hnil,List.flatten_nil,eq_comm,List.filter_eq_nil_iff] at hfilter
  obtain ⟨c,hc⟩ := List.exists_mem_of_ne_nil s.toList (by simpa using h.nonempty)
  obtain ⟨d,hd,hsolid,-⟩ := exists_solid (h.solid c hc)
  have hm : d ∈ bytewise s := bytewise_eq s ▸ List.mem_flatMap.mpr ⟨c,hc,hd⟩
  exact hfilter d hm (by simp [hsolid])

theorem arrives_of_ascii (h : IsWord s) (ha : IsAscii s.toList) : Arrives s s.toList := by
  rw [Arrives,bytewise_of_ascii ha]
  exact words_of_solid h.solid (by simpa using h.nonempty)

theorem word_eq_iff (h : IsWord s) {w t : List Char} (hw : Arrives s w) (ht : IsAscii t) :
    w = t ↔ s.toList = t := by
  constructor
  · rintro rfl
    have hascii : IsAscii s.toList := by
      intro c hc
      obtain ⟨d,hd,hsolid,hback⟩ := exists_solid (h.solid c hc)
      have hm : d ∈ bytewise s := bytewise_eq s ▸ List.mem_flatMap.mpr ⟨c,hc,hd⟩
      have hflat := words_flatten (bytewise s)
      rw [hw,List.flatten_singleton] at hflat
      exact hback (ht d (hflat ▸ List.mem_filter.mpr ⟨hm,by simp [hsolid]⟩))
    exact (List.singleton_inj.mp ((h.arrives_of_ascii hascii).symm.trans hw))
  · rintro rfl
    exact (List.singleton_inj.mp ((h.arrives_of_ascii ht).symm.trans hw)).symm

end IsWord

/-- Exactly three words, the last of them a version. -/
theorem read_of_three {line m p v : List Char} (h : words line = [m,p,v]) (hv : major? v = some 1) :
    read line = .proper (String.ofList m) (String.ofList p) := by
  have hlast : ([v].getLast?).getD v = v := rfl
  simp only [read,h,hlast,versioned,hv]
  rfl

theorem read_of_more {line v : List Char} {ws : List (List Char)} (h : words line = ws++[v])
    (hws : 2 < ws.length) (hv : major? v = some 1) :
    read line = badRequest "Bad request syntax" line := by
  match ws, hws with
  | a::b::c::ws, _ =>
    have hlast : (c::(ws++[v])).getLast?.getD c = v := by
      rw [← List.cons_append,List.getLast?_concat,Option.getD_some]
    simp only [read,h,List.cons_append,hlast,versioned,hv]
    cases ws <;> rfl

end RequestLine
end HealthRollup
