import HealthRollup.Text.Blank
import HealthRollup.Text.Cut
import HealthRollup.Text.Digit
import HealthRollup.Text.Quoted

/-! Request lines: a method, a path and a version, with blanks between them. The characters of a line are
the bytes that arrive. A line that asks for nothing sensible is refused with a status and a reason. -/
namespace HealthRollup

inductive RequestLine
  | proper (method path : String) | refused (status : Nat) (reason explanation : String)
  deriving DecidableEq, Repr

namespace RequestLine

/-- The bytes of a text, each as the character of its number. -/
def bytewise (s : String) : List Char :=
  (s.toList.flatMap String.utf8EncodeChar).map fun b => Char.ofNat b.toNat

/-- What arrives before the first line end. -/
def firstLine (cs : List Char) : List Char := (Cut.first '\n' cs).1

/-- Returns at the end do not belong to a line. -/
def withoutReturns (cs : List Char) : List Char := (cs.reverse.dropWhile (· == '\r')).reverse

/-- The words of a text, which blanks separate. -/
def words (cs : List Char) : List (List Char) :=
  (Cut.every Blank.isBlank cs).filter fun w => !w.isEmpty

def isNumber (cs : List Char) : Bool := !cs.isEmpty && cs.length ≤ 10 && cs.all Char.isDigit

/-- The first number of a version that has two. -/
def major? (version : List Char) : Option Nat :=
  let n := Cut.first '.' (version.drop 5)
  if version.take 5 = ['H', 'T', 'T', 'P', '/'] && isNumber n.1 && isNumber n.2 then
    (Digit.take? n.1.length n.1).map Prod.fst
  else none

def badRequest (reason : String) (subject : List Char) : RequestLine :=
  .refused 400 (reason ++ " (" ++ Quoted.encode (String.ofList subject) ++ ")")
    "Bad request syntax or unsupported method"

/-- The version is looked at before the number of words. -/
def versioned (line : List Char) (ws : List (List Char)) (version : List Char) : RequestLine :=
  match major? version with
  | none => badRequest "Bad request version" version
  | some n =>
    if 2 ≤ n then
      .refused 505 ("Invalid HTTP version (" ++ String.ofList (version.drop 5) ++ ")")
        "Cannot fulfill request"
    else
      match ws with
      | [m,p,_] => .proper (String.ofList m) (String.ofList p)
      | _ => badRequest "Bad request syntax" line

/-- Without a version only `GET` is known. -/
def read (line : List Char) : RequestLine :=
  match words line with
  | [m,p] =>
    if m = ['G', 'E', 'T'] then .proper "GET" (String.ofList p)
    else badRequest "Bad HTTP/0.9 request type" m
  | a::b::c::ws => versioned line (a::b::c::ws) ((c::ws).getLast?.getD c)
  | _ => badRequest "Bad request syntax" line

/-- How many bytes a line may have, its line end among them. -/
def lengthLimit : Nat := 65536

end RequestLine
end HealthRollup
