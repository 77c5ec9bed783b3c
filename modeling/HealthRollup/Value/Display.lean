import HealthRollup.Value.Basic
import HealthRollup.Text.Quoted

/-! Values as they are shown in messages. -/
namespace HealthRollup
namespace Value

mutual

def display : Value → String
  | .null => "None"
  | .bool b => if b then "True" else "False"
  | .num n => n.text
  | .text s => Quoted.encode s
  | .list xs => "[" ++ ", ".intercalate (displayItems xs) ++ "]"
  | .record fs => "\x7b" ++ ", ".intercalate (displayFields fs) ++ "\x7d"
termination_by structural v => v

def displayItems : List Value → List String
  | [] => []
  | x::xs => display x::displayItems xs
termination_by structural xs => xs

def displayFields : List (String × Value) → List String
  | [] => []
  | (k,v)::fs => (Quoted.encode k ++ ": " ++ display v)::displayFields fs
termination_by structural fs => fs

end

example : display (.list [.null,.bool true,int (-3),.text "it's"]) = "[None, True, -3, \"it's\"]" := by
  decide +kernel

/-- A text shows as itself, any other value as in a message. -/
def plain : Value → String
  | .text s => s
  | v => v.display

@[simp] theorem plain_text (s : String) : plain (.text s) = s := rfl

end Value
end HealthRollup
