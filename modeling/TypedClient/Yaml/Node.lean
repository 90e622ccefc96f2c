import TypedClient.Yaml.Token

namespace TypedClient.Yaml

inductive Node
  | scalar (anchor : Option Nat) (tag : Option String) (plain : Bool) (text : String)
  | sequence (anchor : Option Nat) (tag : Option String) (items : List Node)
  | mapping (anchor : Option Nat) (tag : Option String) (pairs : List (Node × Node))
  | aliasOf (anchor : Nat)
deriving Repr

namespace Node

def empty : Node :=
  scalar none none true ""

mutual

/-- The nodes with an anchor, in the order in which they begin. -/
def anchored : Node → List (Nat × Node)
  | scalar a t p s => (a.map fun n => (n, scalar a t p s)).toList
  | sequence a t ns => (a.map fun n => (n, sequence a t ns)).toList ++ anchoredAll ns
  | mapping a t ps => (a.map fun n => (n, mapping a t ps)).toList ++ anchoredPairs ps
  | aliasOf _ => []

def anchoredAll : List Node → List (Nat × Node)
  | [] => []
  | n :: ns => anchored n ++ anchoredAll ns

def anchoredPairs : List (Node × Node) → List (Nat × Node)
  | [] => []
  | (k, v) :: ps => anchored k ++ anchored v ++ anchoredPairs ps

end

mutual

def size : Node → Nat
  | scalar _ _ _ _ => 1
  | sequence _ _ ns => sizeAll ns + 2
  | mapping _ _ ps => sizePairs ps + 2
  | aliasOf _ => 1

def sizeAll : List Node → Nat
  | [] => 0
  | n :: ns => size n + sizeAll ns

def sizePairs : List (Node × Node) → Nat
  | [] => 0
  | (k, v) :: ps => size k + size v + sizePairs ps

end

end Node

end TypedClient.Yaml
