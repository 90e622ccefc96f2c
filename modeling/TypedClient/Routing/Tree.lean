import TypedClient.Path.Basic

namespace TypedClient.Routing

structure Tree where
  /-- The normalized segment; empty for the root and for index pages. -/
  segment : String
  page : Option String := none
  layout : Option String := none
  children : List Tree := []
deriving Inhabited

namespace Tree

def leaf (segment page : String) : Tree :=
  { segment, page := some page }

/-- The module that a node shows: its page, or else its layout. -/
def module? (t : Tree) : Option String :=
  t.page.or t.layout

mutual

def size : Tree → Nat
  | ⟨_, _, _, children⟩ => sizes children + 1

def sizes : List Tree → Nat
  | [] => 0
  | t :: ts => size t + sizes ts

end

end Tree

end TypedClient.Routing
