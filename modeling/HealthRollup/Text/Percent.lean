/-! Percent-decoding of paths. Bytes written `%hh` that together spell a character in UTF-8 become that
character; bytes that do not keep their percent form, in upper case, and all else stays as it is. -/
namespace HealthRollup
namespace Percent

inductive Piece
  | char (c : Char) | byte (value : Nat) (high low : Char)
  deriving DecidableEq, Repr

def hexValue? (c : Char) : Option Nat :=
  if c.isDigit then some (c.toNat-0x30)
  else if 'a' ≤ c && c ≤ 'f' then some (c.toNat-0x61+10)
  else if 'A' ≤ c && c ≤ 'F' then some (c.toNat-0x41+10)
  else none

def byte? (a b : Char) : Option Nat := (hexValue? a).bind fun x => (hexValue? b).map fun y => 16*x+y

def pieces : List Char → List Piece
  | [] => []
  | [c] => [.char c]
  | [c,a] => [.char c,.char a]
  | c::a::b::cs =>
    match if c = '%' then byte? a b else none with
    | some n => .byte n a b::pieces cs
    | none => .char c::pieces (a::b::cs)

/-- How many bytes follow a first byte, the bits it contributes, and the range of the second byte. -/
def lead? (n : Nat) : Option (Nat × Nat × Nat × Nat) :=
  if n < 0x80 then some (0,n,0,0)
  else if n < 0xc2 then none
  else if n < 0xe0 then some (1,n-0xc0,0x80,0xbf)
  else if n < 0xf0 then
    some (2,n-0xe0,if n = 0xe0 then 0xa0 else 0x80,if n = 0xed then 0x9f else 0xbf)
  else if n < 0xf5 then
    some (3,n-0xf0,if n = 0xf0 then 0x90 else 0x80,if n = 0xf4 then 0x8f else 0xbf)
  else none

/-- The code point that a given number of further bytes completes. -/
def complete? : Nat → Nat → Nat → Nat → List Piece → Option Nat
  | 0, code, _, _, _ => some code
  | n+1, code, low, high, .byte b _ _::ps =>
    if low ≤ b && b ≤ high then complete? n (code*64+(b-0x80)) 0x80 0xbf ps else none
  | _+1, _, _, _, _ => none

/-- The character that starts with a byte, and how many further pieces it takes. -/
def character? (n : Nat) (ps : List Piece) : Option (Char × Nat) :=
  (lead? n).bind fun l =>
    (complete? l.1 l.2.1 l.2.2.1 l.2.2.2 ps).map fun code => (Char.ofNat code,l.1)

/-- `skip` pieces already belong to the last character. -/
def assemble : Nat → List Piece → List Char
  | _, [] => []
  | k+1, _::ps => assemble k ps
  | 0, .char c::ps => c::assemble 0 ps
  | 0, .byte n a b::ps =>
    match character? n ps with
    | some (c,k) => c::assemble k ps
    | none => '%' :: a.toUpper::b.toUpper::assemble 0 ps

def decode (cs : List Char) : List Char := assemble 0 (pieces cs)

example : String.ofList (decode "%e6%97%".toList) = "%E6%97%" := by decide +kernel

@[simp] theorem decode_nil : decode [] = [] := rfl

end Percent
end HealthRollup
