import TypedClient.Text.Split

namespace TypedClient

open Text

structure Reference where
  target : String
  fullName : String
deriving DecidableEq, Repr, Inhabited

namespace Reference

def componentsPrefix : String := "#/components/schemas/"

/-- The reference that a text is: what follows the components, or else what follows the last
slash, is the component's name. -/
def ofText (s : String) : Reference :=
  ⟨s, (afterPrefix? componentsPrefix s).getD (afterLast '/' s)⟩

def toComponent (name : String) : Reference :=
  ofText (componentsPrefix ++ name)

/-- The location of the generated type file, without extension: `com/example/Outer_Inner` for
`com.example.Outer$Inner`. -/
def location (r : Reference) : String :=
  replaceChar '.' '/' (replaceChar '$' '_' r.fullName)

def typeName (r : Reference) : String :=
  replaceChar '$' '_' (afterLast '.' r.fullName)

end Reference

end TypedClient
