import HealthRollup.Text.Cut
import HealthRollup.Text.Digit
import HealthRollup.Text.Quoted

/-! The command line. Long flags may be cut short while that leaves one candidate, a value may stand
apart, after `=`, or directly behind a short flag, and the last of several values counts. Arguments that
belong to no flag are all reported together. -/
namespace HealthRollup

inductive Flag
  | help | version | metrics | endpoint | space | kubeconfig | level
  deriving DecidableEq, Repr

namespace Flag

def all : List Flag := [.help,.version,.metrics,.endpoint,.space,.kubeconfig,.level]

def spellings : Flag → List String
  | .help => ["-h","--help"]
  | .version => ["--version"]
  | .metrics => ["-m","--metrics-addr"]
  | .endpoint => ["-p","--endpoint-address"]
  | .space => ["-n","--namespace"]
  | .kubeconfig => ["--kubeconfig"]
  | .level => ["--log-level"]

def takesValue : Flag → Bool
  | .help | .version => false
  | _ => true

/-- All spellings with a slash between them. -/
def title (f : Flag) : String := "/".intercalate f.spellings

def table : List (String × Flag) := all.flatMap fun f => f.spellings.map fun s => (s,f)

def ofSpelling? (s : String) : Option Flag := table.lookup s

end Flag

/-- A flag's value; two dashes given as a value leave it blank. -/
inductive Argument
  | text (s : String) | blank
  deriving DecidableEq, Repr

namespace Argument

def ofText (s : String) : Argument := if s = "--" then .blank else .text s

/-- A value that is there and not empty. -/
def given? : Option Argument → Option String
  | some (.text s) => if s.isEmpty then none else some s
  | _ => none

end Argument

structure Flags where
  metrics : Option Argument
  endpoint : Option Argument
  space : Option Argument
  kubeconfig : Option Argument
  level : Option Argument
  deriving DecidableEq, Repr, Inhabited

namespace Flags

def empty : Flags := ⟨none,none,none,none,none⟩

def set (fs : Flags) (f : Flag) (a : Argument) : Flags :=
  match f with
  | .metrics => { fs with metrics := some a }
  | .endpoint => { fs with endpoint := some a }
  | .space => { fs with space := some a }
  | .kubeconfig => { fs with kubeconfig := some a }
  | .level => { fs with level := some a }
  | .help | .version => fs

end Flags

/-- What one argument is, before values are handed out. -/
inductive Token
  | plain (s : String)
  | flag (f : Flag) (short : Bool) (value : Option (List Char)) (s : String)
  | unknown (s : String)
  deriving DecidableEq, Repr

namespace Token

def text : Token → String
  | .plain s | .flag _ _ _ s | .unknown s => s

/-- What stands before and after the first equals sign. -/
def splitValue (cs : List Char) : String × Option (List Char) :=
  (String.ofList (Cut.first '=' cs).1,if cs.contains '=' then some (Cut.first '=' cs).2 else none)

def isShort (s : String) : Bool := s.toList.length == 2

def isDigit (c : Char) : Bool := (Digit.value? c).isSome

/-- A negative number, perhaps with a line break after it, is a value and not a flag. -/
def isNegative : List Char → Bool
  | '-' :: cs =>
    let cs := if cs.getLast? = some '\n' then cs.dropLast else cs
    let rest := cs.dropWhile isDigit
    (!cs.isEmpty && rest.isEmpty) ||
      (rest.head? = some '.' && !(rest.drop 1).isEmpty && (rest.drop 1).all isDigit)
  | _ => false

/-- The flags an argument may stand for when it is no flag's full spelling. -/
def candidates (cs : List Char) : List (String × Flag × Option (List Char)) :=
  if cs.take 2 = ['-', '-'] then
    let p := splitValue cs
    (Flag.table.filter fun e => p.1.toList.isPrefixOf e.1.toList).map fun e => (e.1,e.2,p.2)
  else
    (Flag.table.filter fun e => e.1.toList = cs.take 2).map fun e => (e.1,e.2,some (cs.drop 2))

/-- The message when an argument may stand for several flags. -/
def ambiguous (s : String) (names : List String) : String :=
  "ambiguous option: " ++ s ++ " could match " ++ ", ".intercalate names

def ofText (s : String) : Except String Token :=
  let cs := s.toList
  if cs.head? ≠ some '-' || cs.length = 1 then .ok (.plain s)
  else
    match Flag.ofSpelling? s with
    | some f => .ok (.flag f (isShort s) none s)
    | none =>
      let p := splitValue cs
      match if p.2.isSome then Flag.ofSpelling? p.1 else none with
      | some f => .ok (.flag f (isShort p.1) p.2 s)
      | none =>
        match candidates cs with
        | [(name,f,v)] => .ok (.flag f (isShort name) v s)
        | [] => if isNegative cs || cs.contains ' ' then .ok (.plain s) else .ok (.unknown s)
        | several => .error (ambiguous s (several.map Prod.fst))

/-- After two dashes alone no argument is a flag. -/
def ofArguments : List String → Except String (List Token)
  | [] => .ok []
  | s::ss =>
    if s = "--" then .ok (.unknown s::ss.map .unknown)
    else (ofText s).bind fun t => (ofArguments ss).map (t::·)

end Token

/-- What a command line comes to. -/
inductive CommandLine
  | help | version | refused (reason : String) | flags (f : Flags)
  deriving DecidableEq, Repr

namespace CommandLine

def ignored (f : Flag) (value : List Char) : String :=
  "argument " ++ f.title ++ ": ignored explicit argument " ++ Quoted.encode (String.ofList value)

def lacking (f : Flag) : String := "argument " ++ f.title ++ ": expected one argument"

/-- Short flags without value may be followed by further short flags in one argument: all of them, and
the value of the last. -/
def unfold (f : Flag) (short : Bool) : Option (List Char) → Except String (List Flag × Option (List Char))
  | none => .ok ([f],none)
  | some cs => if f.takesValue then .ok ([f],some cs) else chain f short cs
where
  chain (f : Flag) (short : Bool) : List Char → Except String (List Flag × Option (List Char))
    | [] => .error (ignored f [])
    | c::cs =>
      match if short then Flag.ofSpelling? (String.ofList ['-', c]) else none with
      | none => .error (ignored f (c::cs))
      | some g =>
        if cs.isEmpty then .ok ([f,g],none)
        else if g.takesValue then .ok ([f,g],some cs)
        else (chain g true cs).map fun p => (f::p.1,p.2)

/-- The flags that answer at once, in the order they are met. -/
def prompt? : List Flag → Option CommandLine
  | [] => none
  | .help::_ => some .help
  | .version::_ => some .version
  | _::fs => prompt? fs

def unrecognized (extras : List String) : String :=
  "unrecognized arguments: " ++ " ".intercalate extras

def collect (fs : Flags) (extras : List String) : List Token → CommandLine
  | [] => if extras.isEmpty then .flags fs else .refused (unrecognized extras)
  | .plain s::ts | .unknown s::ts => collect fs (extras++[s]) ts
  | .flag f short value _::ts =>
    match unfold f short value with
    | .error e => .refused e
    | .ok (met,rest) =>
      let last := met.getLastD f
      match rest with
      | some cs => (prompt? met).getD (collect (fs.set last (.ofText (String.ofList cs))) extras ts)
      | none =>
        if last.takesValue then
          match ts with
          | .plain v::ts => (prompt? met).getD (collect (fs.set last (.ofText v)) extras ts)
          | _ => .refused (lacking last)
        else (prompt? met).getD (collect fs extras ts)

def read (arguments : List String) : CommandLine :=
  match Token.ofArguments arguments with
  | .error e => .refused e
  | .ok ts => collect .empty [] ts

def usage : String :=
  "usage: healthscope [-h] [--version] [-m METRICS_ADDR] [-p ENDPOINT_ADDRESS]\n" ++
  "                   [-n NAMESPACE] [--kubeconfig KUBECONFIG]\n" ++
  "                   [--log-level LOG_LEVEL]\n"

def helpText : String :=
  usage ++ "\nHealth scope controller\n\noptions:\n" ++
  "  -h, --help            show this help message and exit\n" ++
  "  --version             show program's version number and exit\n" ++
  "  -m METRICS_ADDR, --metrics-addr METRICS_ADDR\n" ++
  "                        The address the metric endpoint binds to.\n" ++
  "  -p ENDPOINT_ADDRESS, --endpoint-address ENDPOINT_ADDRESS\n" ++
  "                        The address the health scope endpoint binds to.\n" ++
  "  -n NAMESPACE, --namespace NAMESPACE\n" ++
  "                        Namespace to aggregate health scopes in.\n" ++
  "  --kubeconfig KUBECONFIG\n" ++
  "                        Path to a kubeconfig file.\n" ++
  "  --log-level LOG_LEVEL\n" ++
  "                        Logging level.\n"

def versionText : String := "healthscope 0.1.0\n"

def refusalText (reason : String) : String := usage ++ "healthscope: error: " ++ reason ++ "\n"

end CommandLine
end HealthRollup
