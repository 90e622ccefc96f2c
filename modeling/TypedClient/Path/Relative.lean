import TypedClient.Path.Basic

namespace TypedClient.Path

open Text

def common : List String → List String → Nat
  | a :: as, b :: bs => if a = b then common as bs + 1 else 0
  | _, _ => 0

def ascend (dir goal : List String) : String :=
  let n := common dir goal
  let rest := "/".intercalate (goal.drop n)
  if dir.length - n = 0 then "./" ++ rest else copies (dir.length - n) "../" ++ rest

def names (location : String) : List String :=
  (pieces '/' location).filter fun s => s ≠ "" && s ≠ "."

def relativeSpecifier (source goal : String) : String :=
  ascend (names source).dropLast (names goal)

/-- A component that takes part in relative paths; `..` counts as a name. -/
def Component.step? : Component → Option String
  | .name s => some s
  | .up => some ".."
  | _ => none

/-- The specifier of the path `goal` seen from the directory `dir`. -/
def relativize (dir goal : String) : String :=
  ascend ((components dir).filterMap Component.step?) ((components goal).filterMap Component.step?)

end TypedClient.Path
