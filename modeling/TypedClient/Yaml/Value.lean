import TypedClient.Yaml.Compose
import TypedClient.Yaml.PlainValue
import TypedClient.Yaml.Scan

namespace TypedClient.Yaml

def deepest : Nat := 128

/-- How often aliases may be replaced for each part of the document. -/
def replacementsPerPart : Nat := 100

abbrev Replacing := StateT Nat Option

def replaceOnce : Replacing Unit := do
  match ← get with
  | 0 => failure
  | n + 1 => set n

def isLocal (tag : Option String) : Bool :=
  tag.any fun t => Text.startsWith "!" t

namespace Node

def target (anchors : List (Nat × Node)) : Node → Replacing Node
  | .aliasOf n => do
    replaceOnce
    anchors.lookup n
  | n => return n

def keyText (anchors : List (Nat × Node)) (n : Node) : Replacing String := do
  match ← n.target anchors with
  | .scalar _ _ _ s => return s
  | _ => failure

/-- The value of a node with `depth` levels of nesting left. -/
def value (anchors : List (Nat × Node)) : Nat → Node → Replacing Json
  | depth, n => do
    match ← n.target anchors with
    | .scalar _ (some tag) _ s => taggedValue? tag s
    | .scalar _ none true s => plainValue? s
    | .scalar _ none false s => return .string s
    | .sequence _ tag ns => match depth with
      | 0 => failure
      | depth + 1 =>
        if isLocal tag then failure else return .array (← ns.mapM (value anchors depth))
    | .mapping _ tag ps => match depth with
      | 0 => failure
      | depth + 1 =>
        if isLocal tag then failure
        else
          let ms ← ps.mapM fun p => do
            let k ← p.1.keyText anchors
            return (k, ← value anchors depth p.2)
          return .object (Json.ofMembers ms)
    | .aliasOf _ => failure

end Node

/-- The value of a text. Of two anchors with one number the one that begins later counts. -/
def parse? (text : String) : Option Json := do
  let n ← Node.ofTokens? (← tokens? text)
  let r ← (n.value n.anchored.reverse deepest).run (replacementsPerPart * n.size)
  some r.1

end TypedClient.Yaml
