import HealthRollup.Value.Display

/-! The documented shape of a scope object. A check lists every place where a value breaks the shape; of
several breaches the one nearest the root is reported, among equally near ones the last place, and at
one place the first rule. -/
namespace HealthRollup

inductive Segment
  | key (k : String) | index (i : Nat)
  deriving DecidableEq, Repr

namespace Segment

def text : Segment → String
  | .key k => k
  | .index i => toString i

/-- Keys by code point, indexes as numbers. -/
def below : Segment → Segment → Bool
  | .key a, .key b => a < b
  | .index a, .index b => a < b
  | .index _, .key _ => true
  | .key _, .index _ => false

end Segment

inductive Breach
  | missing (key : String) | mistyped (value : Value) (kinds : List String) | empty
  deriving Repr

namespace Breach

def message : Breach → String
  | .missing k => Quoted.encode k ++ " is a required property"
  | .mistyped v ks => v.display ++ " is not of type " ++ ", ".intercalate (ks.map Quoted.encode)
  | .empty => "'' should be non-empty"

end Breach

structure Violation where
  path : List Segment
  breach : Breach
  deriving Repr

namespace Violation

def under (s : Segment) (v : Violation) : Violation := ⟨s::v.path,v.breach⟩

@[simp] theorem under_path (s : Segment) (v : Violation) : (v.under s).path = s::v.path := rfl
@[simp] theorem under_breach (s : Segment) (v : Violation) : (v.under s).breach = v.breach := rfl

def location (v : Violation) : String :=
  if v.path.isEmpty then "<root>" else "/".intercalate (v.path.map Segment.text)

/-- The first segment that differs decides. -/
def later : List Segment → List Segment → Bool
  | a::as, b::bs => if a = b then later as bs else Segment.below b a
  | _, _ => false

/-- Reported in place of the other. -/
def outranks (v w : Violation) : Bool :=
  v.path.length < w.path.length || (v.path.length == w.path.length && later v.path w.path)

def foremost? : List Violation → Option Violation
  | [] => none
  | v::vs => some (vs.foldl (fun best w => if w.outranks best then w else best) v)

@[simp] theorem foremost?_nil : foremost? [] = none := rfl
theorem foremost?_eq_none_iff (vs : List Violation) : foremost? vs = none ↔ vs = [] := by
  cases vs <;> simp [foremost?]

end Violation

abbrev Check := Value → List Violation

namespace Check

def kind (names : List String) (ok : Value → Bool) : Check :=
  fun v => if ok v then [] else [⟨[],.mistyped v names⟩]

/-- What is not a record has no required fields; its kind is another check's concern. -/
def required (k : String) : Check
  | .record fs => if (Fields.get? k fs).isSome then [] else [⟨[],.missing k⟩]
  | _ => []

def nonEmpty : Check
  | .text s => if s.isEmpty then [⟨[],.empty⟩] else []
  | _ => []

/-- An absent field breaks nothing. -/
def field (k : String) (c : Check) : Check := fun v =>
  match v.field? k with
  | some w => (c w).map (Violation.under (.key k))
  | none => []

def items (c : Check) : Check
  | .list xs => xs.zipIdx.flatMap fun x => (c x.1).map (Violation.under (.index x.2))
  | _ => []

def all (cs : List Check) : Check := fun v => cs.flatMap fun c => c v

@[simp] theorem all_nil (v : Value) : all [] v = [] := rfl
@[simp] theorem all_cons (c : Check) (cs : List Check) (v : Value) :
    all (c::cs) v = c v++all cs v := by simp [all]

end Check

namespace Value

def isNull : Value → Bool
  | .null => true
  | _ => false

def isText : Value → Bool
  | .text _ => true
  | _ => false

def isList : Value → Bool
  | .list _ => true
  | _ => false

def isRecord : Value → Bool
  | .record _ => true
  | _ => false

/-- An integer or a number without fraction, never a truth value. -/
def isWhole : Value → Bool
  | .num n => n.isWhole
  | _ => false

end Value

namespace Shape
open Check

def text : Check := kind ["string"] Value.isText
def optionalText : Check := kind ["string","null"] fun v => v.isText || v.isNull

def metadata : Check :=
  all [kind ["object"] Value.isRecord,required "name",field "name" (all [text,nonEmpty]),
    field "namespace" text]

def spec : Check :=
  all [kind ["object"] Value.isRecord,required "probeMethod",required "probeEndpoint",
    field "probeInterval" (kind ["integer","null"] fun v => v.isWhole || v.isNull),
    field "probeMethod" text,field "probeEndpoint" text]

def component : Check :=
  all [kind ["object"] Value.isRecord,required "name",required "instanceName",field "name" text,
    field "instanceName" text,field "status" optionalText]

def status : Check :=
  all [kind ["object","null"] fun v => v.isRecord || v.isNull,
    field "components" (all [kind ["array","null"] fun v => v.isList || v.isNull,items component]),
    field "lastAggregateTimestamp" optionalText]

def scope : Check :=
  all [kind ["object"] Value.isRecord,required "metadata",required "spec",field "metadata" metadata,
    field "spec" spec,field "status" status]

end Shape
end HealthRollup
