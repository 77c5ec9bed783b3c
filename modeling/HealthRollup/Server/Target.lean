import HealthRollup.Text.Cut
import HealthRollup.Text.Integer
import HealthRollup.Text.Percent

/-! Request targets. A scheme and an authority may stand before the path of a target, a query and a
fragment after it. The path is decoded; behind an authority its dot segments are resolved as well. -/
namespace HealthRollup
namespace Target

/-- Control characters and blanks in front do not count, nor do tabs and line ends anywhere. -/
def clean (cs : List Char) : List Char :=
  (cs.dropWhile fun c => c.toNat ≤ 0x20).filter fun c => c != '\t' && c != '\n' && c != '\r'

def isSchemeChar (c : Char) : Bool := c.isAlphanum || c = '+' || c = '-' || c = '.'

/-- The scheme, which is empty where there is none, and what follows it. -/
def scheme (cs : List Char) : List Char × List Char :=
  let s := cs.takeWhile isSchemeChar
  match cs.dropWhile isSchemeChar with
  | ':' :: rest => if s.isEmpty then ([],cs) else (s,rest)
  | _ => ([],cs)

/-- Where a path ends. -/
def endsPath (c : Char) : Bool := c = '?' || c = '#'

def endsAuthority (c : Char) : Bool := c = '/' || endsPath c

/-- The authority, which two slashes announce and which may be empty, and what follows it. -/
def authority (cs : List Char) : List Char × List Char :=
  match cs with
  | '/' :: '/' :: rest =>
    (rest.takeWhile fun c => !endsAuthority c,rest.dropWhile fun c => !endsAuthority c)
  | _ => ([],cs)

/-- Brackets come as a pair, with a colon between them or the mark and number of a later form. -/
def isBracketed (cs : List Char) : Bool :=
  let inner := (Cut.first ']' (Cut.first '[' cs).2).1
  if cs.contains '[' then
    cs.contains ']' &&
      match inner with
      | 'v' :: rest =>
        let number := rest.takeWhile fun c => (Percent.hexValue? c).isSome
        let tail := rest.drop number.length
        !number.isEmpty && tail.head? = some '.' && 1 < tail.length
      | _ => inner.contains ':'
  else !cs.contains ']'

/-- The host and the port that an authority ends with. -/
def hostAndPort (cs : List Char) : List Char × List Char :=
  if cs.contains '[' then
    let b := Cut.first ']' (Cut.first '[' cs).2
    (b.1,(Cut.first ':' b.2).2)
  else Cut.first ':' cs

/-- Schemes that make no sense without a host. -/
def hosted : List String := ["http","https","ws","wss","ftp"]

def isPort (cs : List Char) : Bool :=
  cs.isEmpty ||
    match Integer.read? cs with
    | some n => 0 ≤ n && n ≤ 65535
    | none => false

/-- An authority that can be read; an empty one always can. -/
def isReadable (scheme cs : List Char) : Bool :=
  let h := hostAndPort (Cut.last '@' cs).2
  cs.isEmpty || (isBracketed cs && isPort h.2 &&
    !(h.1.isEmpty && hosted.contains (String.ofList (scheme.map Char.toLower))))

/-- Whether a readable authority names anything: a user, a password, a host or a port. -/
def isNamed (cs : List Char) : Bool :=
  let p := Cut.last '@' cs
  let h := hostAndPort p.2
  !(p.1.isEmpty && h.1.isEmpty && h.2.isEmpty)

def segments (cs : List Char) : List (List Char) := Cut.every (· == '/') cs

def isDots (s : List Char) : Bool := s = ['.'] || s = ['.', '.']

/-- One dot stays in a place, two dots go back by one segment, and at the start they stay too. -/
def settle (ss : List (List Char)) : List (List Char) :=
  (ss.foldl (fun back s => if s = ['.', '.'] then back.drop 1 else if s = ['.'] then back else s::back)
    []).reverse

/-- The segments are decoded one by one, so that no slash comes up that divides them. A path that ends in
a dot segment ends in a slash afterwards. -/
def resolve : List Char → List Char
  | '/' :: cs =>
    let ss := (segments cs).map Percent.decode
    '/' :: (['/'].intercalate (settle ss++if ss.getLast?.any isDots then [[]] else []))
  | cs => Percent.decode cs

/-- The decoded path; none where the authority cannot be read. -/
def path? (target : String) : Option (List Char) :=
  let s := scheme (clean target.toList)
  let a := authority s.2
  let path := a.2.takeWhile fun c => !endsPath c
  if isReadable s.1 a.1 then some (if isNamed a.1 then resolve path else Percent.decode path) else none

example : (path? "http://h:80/a/../s%2F1/.").map String.ofList = some "/s/1/" := by decide +kernel
example : path? "//h:x/s1" = none ∧ path? "//[h/s1" = none := by decide +kernel

end Target
end HealthRollup
