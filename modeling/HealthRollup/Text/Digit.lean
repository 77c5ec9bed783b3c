/-! Decimal digits: the ten ASCII digits, and the digits of every script of the character standard, each
script a run of ten code points from its zero. -/
namespace HealthRollup
namespace Digit

/-- The code point of each script's zero, in ascending order. -/
def zeros : List Nat := [
  0x30,0x660,0x6f0,0x7c0,0x966,0x9e6,0xa66,0xae6,0xb66,0xbe6,0xc66,0xce6,0xd66,0xde6,0xe50,
  0xed0,0xf20,0x1040,0x1090,0x17e0,0x1810,0x1946,0x19d0,0x1a80,0x1a90,0x1b50,0x1bb0,0x1c40,
  0x1c50,0xa620,0xa8d0,0xa900,0xa9d0,0xa9f0,0xaa50,0xabf0,0xff10,0x104a0,0x10d30,0x11066,
  0x110f0,0x11136,0x111d0,0x112f0,0x11450,0x114d0,0x11650,0x116c0,0x11730,0x118e0,0x11950,
  0x11c50,0x11d50,0x11da0,0x16a60,0x16ac0,0x16b50,0x1d7ce,0x1d7d8,0x1d7e2,0x1d7ec,0x1d7f6,
  0x1e140,0x1e2f0,0x1e950,0x1fbf0]

/-- The value of a decimal digit of any script. -/
def value? (c : Char) : Option Nat :=
  (zeros.find? fun z => z ≤ c.toNat && c.toNat < z+10).map (c.toNat-·)

/-- The value of an ASCII digit. -/
def ascii? (c : Char) : Option Nat := if c.isDigit then some (c.toNat-0x30) else none

def ofNat (n : Nat) : Char := Char.ofNat (0x30+n%10)

/-- The last `width` decimal digits of a natural, with leading zeros. -/
def padded : Nat → Nat → List Char
  | 0, _ => []
  | width+1, n => padded width (n/10)++[ofNat n]

@[simp] theorem padded_zero (n : Nat) : padded 0 n = [] := rfl
@[simp] theorem padded_succ (w n : Nat) : padded (w+1) n = padded w (n/10)++[ofNat n] := rfl
@[simp] theorem padded_length (w n : Nat) : (padded w n).length = w := by
  induction w generalizing n with
  | zero => rfl
  | succ w ih => simp [ih]

/-- The number that a list of digit values spells. -/
def number (ds : List Nat) : Nat := ds.foldl (fun n d => 10*n+d) 0

@[simp] theorem number_nil : number [] = 0 := rfl
@[simp] theorem number_append (ds : List Nat) (d : Nat) : number (ds++[d]) = 10*number ds+d := by
  simp [number]

/-- Exactly `width` ASCII digits from the head, and what follows them. -/
def take? (width : Nat) (cs : List Char) : Option (Nat × List Char) :=
  if width ≤ cs.length then
    ((cs.take width).mapM ascii?).map fun ds => (number ds,cs.drop width)
  else none

end Digit
end HealthRollup
