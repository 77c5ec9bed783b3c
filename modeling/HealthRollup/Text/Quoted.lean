import HealthRollup.Text.Printable

/-! Quoted text as it stands in messages. The quote is `'`, or `"` when the text holds the first and not
the second; the quote in use and the backslash are escaped, and so is all that is not printable. -/
namespace HealthRollup
namespace Quoted

def quote (cs : List Char) : Char :=
  if cs.contains '\'' && !cs.contains '"' then '"' else '\''

def hex (width n : Nat) : List Char :=
  let ds := Nat.toDigits 16 n
  List.replicate (width-ds.length) '0' ++ds

/-- The shortest of the three hexadecimal forms that fits a code point. -/
def escaped (n : Nat) : List Char :=
  if n ≤ 0xff then '\\' :: 'x' :: hex 2 n
  else if n ≤ 0xffff then '\\' :: 'u' :: hex 4 n
  else '\\' :: 'U' :: hex 8 n

def encodeChar (q c : Char) : List Char :=
  if c = q || c = '\\' then ['\\', c]
  else if c = '\n' then ['\\', 'n']
  else if c = '\r' then ['\\', 'r']
  else if c = '\t' then ['\\', 't']
  else if Printable.isPrintable c then [c] else escaped c.toNat

def encode (s : String) : String :=
  let q := quote s.toList
  String.ofList (q::s.toList.flatMap (encodeChar q)++[q])

example : encode "it's" = "\"it's\"" := by decide +kernel
example : encode "'\"" = "'\\'\"'" := by decide +kernel

end Quoted
end HealthRollup
