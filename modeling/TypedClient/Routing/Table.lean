import TypedClient.Routing.Matching
import TypedClient.Routing.Rendering

namespace TypedClient.Routing

open Text

structure Entry where
  pattern : String
  position : List Nat
  weight : Int
deriving DecidableEq, Repr

structure Table where
  routes : List Route
  entries : List Entry

structure Match where
  entry : Entry
  chain : List Route
  params : List (String × String)

namespace Table

/-- Whether a route can be matched: it shows something or has nothing below it. -/
def isMatchable (element : Option Element) (children : List Route) : Bool :=
  element.isSome || children.isEmpty

def entry (segment pattern : String) (position : List Nat) : Entry :=
  { pattern, position
    weight := Pattern.weight pattern + if segment = "" && 1 < position.length then 2 else 0 }

mutual

def routeEntries (parent : String) (position : List Nat) : Route → List Entry
  | ⟨segment, _, element, _, children⟩ =>
    let pattern := Pattern.join parent segment
    (if isMatchable element children then [entry segment pattern position] else []) ++
      entriesFrom pattern position 0 children

/-- The entries of routes side by side, the first at place `n`. -/
def entriesFrom (parent : String) (position : List Nat) (n : Nat) : List Route → List Entry
  | [] => []
  | r :: rs =>
    routeEntries parent (position ++ [n]) r ++ entriesFrom parent position (n + 1) rs

end

def ofRoutes (routes : List Route) : Table :=
  ⟨routes, entriesFrom "" [] 0 routes⟩

def patterns (t : Table) : List String :=
  t.entries.map Entry.pattern

def normalize (location : String) : String :=
  match trimEnd (· == '/') location.toList with
  | [] => "/"
  | cs => String.ofList cs

/-- Whether `a` goes before `b`: it weighs more, or as much and lies deeper. -/
def Entry.isBetter (a b : Entry) : Bool :=
  b.weight < a.weight || (a.weight = b.weight && b.position.length < a.position.length)

/-- The better of two hits, the first where neither is. -/
def better (best : Option (Entry × Captures)) (hit : Entry × Captures) :
    Option (Entry × Captures) :=
  match best with
  | none => some hit
  | some b => if Entry.isBetter hit.1 b.1 then some hit else some b

def hits (t : Table) (location : String) : List (Entry × Captures) :=
  t.entries.filterMap fun e => (Pattern.captures? e.pattern location).map fun cs => (e, cs)

def chainAt : List Route → List Nat → List Route
  | _, [] => []
  | rs, n :: ns => match rs[n]? with
    | some r => r :: chainAt r.children ns
    | none => []

/-- Sets a parameter; the last value of a name counts. -/
def setParam (ps : List (String × String)) (p : String × String) : List (String × String) :=
  ps.filter (fun q => q.1 ≠ p.1) ++ [p]

/-- The parameters with what they take; one that takes no part is left out. -/
def paramValues (pattern : String) (captures : Captures) : List (String × String) :=
  (((Pattern.params pattern).zip captures).filterMap fun p => p.2.map fun v => (p.1.1, v)).foldl
    setParam []

def match? (t : Table) (location : String) : Option Match :=
  ((t.hits (normalize location)).foldl better none).map fun hit =>
    ⟨hit.1, chainAt t.routes hit.1.position, paramValues hit.1.pattern hit.2⟩

/-- What is shown at a location: nothing where no route matches or none in the chain shows
anything. -/
def render (t : Table) (location : String) (state : AuthState) : Option Content :=
  (t.match? location).bind fun m => renderChain location state m.chain

end Table

end TypedClient.Routing
