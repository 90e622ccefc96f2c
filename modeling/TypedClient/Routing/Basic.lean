import TypedClient.Routing.Pattern
import TypedClient.Routing.Segment
import TypedClient.Routing.Tree
import TypedClient.Routing.View

namespace TypedClient.Routing

inductive Element
  | component (name module : String)
  /-- An element that is shown to visitors with access, and a redirection for the others; without
  an inner element the outlet is shown. -/
  | guarded (redirect : String) (access : Access) (inner : Option Element)
deriving Inhabited

def Element.isGuarded : Element → Bool
  | component _ _ => false
  | guarded _ _ _ => true

structure Route where
  /-- The segment of the URL pattern; empty for the root and for index routes. -/
  segment : String
  view : Option View
  element : Option Element
  config : Option ViewConfig
  children : List Route
deriving Inhabited

namespace Route

def elementOf (v : View) : Option Element :=
  v.component.map fun name => .component name v.url

def create (segment : String) (view : Option View) (children : List Route) : Route :=
  { segment, view, children, element := view.bind elementOf, config := view.bind View.config }

mutual

/-- The routes of a tree of views whose modules `load` gives; the first that cannot be loaded ends
it all. -/
def ofTree (load : String → Except ε View) : Tree → Except ε Route
  | ⟨segment, page, layout, children⟩ => do
    let view ← match page.or layout with
      | some path => (load path).map some
      | none => .ok none
    let children ← ofTrees load children
    return create (Segment.toPattern segment) view children

def ofTrees (load : String → Except ε View) : List Tree → Except ε (List Route)
  | [] => .ok []
  | t :: ts => do
    let r ← ofTree load t
    let rs ← ofTrees load ts
    return r :: rs

end

end Route

end TypedClient.Routing
