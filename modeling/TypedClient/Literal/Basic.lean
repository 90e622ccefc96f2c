import TypedClient.Json.Reader

namespace TypedClient

inductive Literal
  | null
  | bool (b : Bool)
  | number (written : String)
  | string (s : String)
  | array (items : List Literal)
  | object (entries : List (String × Literal))
deriving Inhabited

namespace Literal

def isWordStart (c : Char) : Bool :=
  c.isAlpha || c = '_' || c = '$'

def isWordPart (c : Char) : Bool :=
  isWordStart c || c.isDigit

mutual

/-- The JSON value of a literal; a number that JSON does not admit becomes null. -/
def toJson : Literal → Json
  | null => .null
  | bool b => .bool b
  | number w => match Json.number? w with
    | some n => .number n
    | none => .null
  | string s => .string s
  | array ls => .array (itemsToJson ls)
  | object es => .object (Json.ofMembers (entriesToJson es))

def itemsToJson : List Literal → List Json
  | [] => []
  | l :: ls => toJson l :: itemsToJson ls

def entriesToJson : List (String × Literal) → List (String × Json)
  | [] => []
  | (k, l) :: es => (k, toJson l) :: entriesToJson es

end

end Literal

end TypedClient
