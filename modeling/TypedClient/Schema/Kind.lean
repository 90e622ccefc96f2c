import TypedClient.Schema.Basic

namespace TypedClient

inductive Kind
  | reference
  | array
  | map
  | text
  | number
  | integer
  | boolean
  | composed
  | unknown
deriving DecidableEq, Repr

/-- The kind of a shape; an object with named properties counts as unknown. -/
def Shape.kind : Shape → Kind
  | reference _ => .reference
  | array _ => .array
  | map _ => .map
  | anyMap => .map
  | text _ => .text
  | number => .number
  | integer => .integer
  | boolean => .boolean
  | composed _ _ => .composed
  | object _ => .unknown
  | unknown => .unknown

namespace Schema

def kind (s : Schema) : Kind :=
  s.shape.kind

/-- The branches of a composed schema; any other, and one without branches, is its own branch. -/
def branches (s : Schema) : List Schema :=
  match s.shape with
  | .composed _ (b :: bs) => b :: bs
  | _ => [s]

def primary (s : Schema) : Schema :=
  match s.shape with
  | .composed _ (b :: _) => b
  | _ => s

mutual

/-- The schema that first branches lead to from a shape with modifiers. -/
def resolveShape (s : Schema) : Shape → Schema
  | .composed _ bs => resolveBranches s bs
  | _ => s

def resolve : Schema → Schema
  | ⟨shape, nullable, annotations, constraints, format, description⟩ =>
    resolveShape ⟨shape, nullable, annotations, constraints, format, description⟩ shape

def resolveBranches (s : Schema) : List Schema → Schema
  | [] => s
  | b :: _ => resolve b

end

def isAnnotated (s : Schema) : Bool :=
  !s.annotations.isEmpty

def isConstrained (s : Schema) : Bool :=
  !s.constraints.isEmpty

end Schema

end TypedClient
