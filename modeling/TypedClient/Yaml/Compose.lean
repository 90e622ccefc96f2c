import TypedClient.Yaml.Node

namespace TypedClient.Yaml

structure Composing where
  tokens : List Token
  handles : List (String × String)
  /-- The numbers of anchors; a name that is given again takes the number that a new one would. -/
  anchors : List (String × Nat) := []

abbrev Composer := StateT Composing Option

namespace Composer

def peek : Composer (Option Token) := do
  return (← get).tokens.head?

def next : Composer Unit :=
  modify fun s => { s with tokens := s.tokens.drop 1 }

def take (t : Token) : Composer Bool := do
  if (← peek) = some t then
    next
    return true
  else return false

def before (ts : List Token) : Composer Bool := do
  return (← peek).any ts.contains

def separator (first : Bool) (t : Token) : Composer Unit := do
  if first then return
  if ← take t then return else failure

def declareAnchor (name : String) : Composer Nat := do
  let s ← get
  let n := s.anchors.length
  set { s with anchors := (name, n) :: s.anchors.filter fun a => a.1 ≠ name }
  return n

def anchor? : Composer (Option Nat) := do
  match ← peek with
  | some (.anchor name) =>
    next
    some <$> declareAnchor name
  | _ => return none

def tag? : Composer (Option String) := do
  match ← peek with
  | some (.tag handle suffix) =>
    next
    if handle = "" then return some suffix
    else do
      let expansion ← (← get).handles.lookup handle
      return some (expansion ++ suffix)
  | _ => return none

def properties : Composer (Option Nat × Option String) := do
  match ← anchor? with
  | some a => return (some a, ← tag?)
  | none => do
    let t ← tag?
    if t.isSome then return (← anchor?, t) else return (none, none)

mutual

/-- The node that comes next. Block collections occur if `block` is true, and the items of a sequence
without indentation if `items` is. `fuel` bounds the depth of the recursion. -/
def node : Nat → Bool → Bool → Composer Node
  | 0, _, _ => failure
  | fuel + 1, block, items => do
    match ← peek with
    | some (.aliasOf name) =>
      next
      return .aliasOf (← (← get).anchors.lookup name)
    | _ => do
      let (a, tag) ← properties
      match ← peek, block, items with
      | some .blockEntry, _, true => return .sequence a tag (← looseItems fuel)
      | some (.scalar plain text), _, _ =>
        next
        return .scalar a tag plain text
      | some .flowSequenceStart, _, _ =>
        next
        return .sequence a tag (← flowItems fuel true)
      | some .flowMappingStart, _, _ =>
        next
        return .mapping a tag (← flowPairs fuel true)
      | some .blockSequenceStart, true, _ =>
        next
        return .sequence a tag (← blockItems fuel)
      | some .blockMappingStart, true, _ =>
        next
        return .mapping a tag (← blockPairs fuel)
      | _, _, _ =>
        if a.isSome || tag.isSome then return .scalar a tag true "" else failure

/-- The node that comes next, or an empty one before certain tokens. -/
def nodeUnless : Nat → List Token → Bool → Bool → Composer Node
  | 0, _, _, _ => failure
  | fuel + 1, ends, block, items => do
    if ← before ends then return .empty else node fuel block items

def blockItems : Nat → Composer (List Node)
  | 0 => failure
  | fuel + 1 => do
    if ← take .blockEntry then
      let n ← nodeUnless fuel [.blockEntry, .blockEnd] true false
      return n :: (← blockItems fuel)
    else if ← take .blockEnd then return []
    else failure

/-- The items of a block sequence without indentation of its own. -/
def looseItems : Nat → Composer (List Node)
  | 0 => failure
  | fuel + 1 => do
    if ← take .blockEntry then
      let n ← nodeUnless fuel [.blockEntry, .key, .value, .blockEnd] true false
      return n :: (← looseItems fuel)
    else return []

def blockPairs : Nat → Composer (List (Node × Node))
  | 0 => failure
  | fuel + 1 => do
    if ← take .key then
      let k ← nodeUnless fuel [.key, .value, .blockEnd] true true
      let v ← if ← take .value then nodeUnless fuel [.key, .value, .blockEnd] true true
        else pure .empty
      return (k, v) :: (← blockPairs fuel)
    else if ← take .blockEnd then return []
    else failure

def flowItems : Nat → Bool → Composer (List Node)
  | 0, _ => failure
  | fuel + 1, first => do
    if ← take .flowSequenceEnd then return []
    separator first .flowEntry
    if ← take .key then
      let n ← flowPair fuel
      return n :: (← flowItems fuel false)
    else if ← take .flowSequenceEnd then return []
    else
      let n ← node fuel false false
      return n :: (← flowItems fuel false)

/-- A mapping of one key in a flow sequence. Before a token that ends the key this token is
passed. -/
def flowPair : Nat → Composer Node
  | 0 => failure
  | fuel + 1 => do
    let k ← if ← before [.value, .flowEntry, .flowSequenceEnd] then do next; pure .empty
      else node fuel false false
    let v ← if ← take .value then nodeUnless fuel [.flowEntry, .flowSequenceEnd] false false
      else pure .empty
    return .mapping none none [(k, v)]

def flowPairs : Nat → Bool → Composer (List (Node × Node))
  | 0, _ => failure
  | fuel + 1, first => do
    if ← take .flowMappingEnd then return []
    separator first .flowEntry
    if ← take .key then
      let k ← nodeUnless fuel [.value, .flowEntry, .flowMappingEnd] false false
      let v ← if ← take .value then nodeUnless fuel [.flowEntry, .flowMappingEnd] false false
        else pure .empty
      return (k, v) :: (← flowPairs fuel false)
    else if ← take .flowMappingEnd then return []
    else
      let k ← node fuel false false
      return (k, .empty) :: (← flowPairs fuel false)

end

def defaultHandles : List (String × String) :=
  [("!", "!"), ("!!", "tag:yaml.org,2002:")]

/-- The directives that come next: at most one version, which is 1.1 or 1.2, and handles that
differ. -/
def directives : Nat → Bool → List (String × String) → Composer (List (String × String))
  | 0, _, _ => failure
  | fuel + 1, versioned, handles => do
    match ← peek with
    | some (.versionDirective major minor) =>
      next
      if versioned || major ≠ 1 || (minor ≠ 1 && minor ≠ 2) then failure
      else directives fuel true handles
    | some (.tagDirective handle expansion) =>
      next
      if (handles.lookup handle).isSome then failure
      else directives fuel versioned (handles ++ [(handle, expansion)])
    | _ => return handles

/-- The document that comes next, whose tokens are at most `n`. -/
def document (n : Nat) : Composer Node := do
  let handles ← directives (n + 1) false []
  modify fun s => { s with handles := handles ++ defaultHandles }
  let first := (← get).tokens.length
  if ← take .documentStart then
    match ← peek with
    | none => return .empty
    | some (.versionDirective ..) => return .empty
    | some (.tagDirective ..) => return .empty
    | some .documentStart => return .empty
    | some .documentEnd => return .empty
    | _ => node (4 * n + 4) true false
  else if first < n then failure
  else node (4 * n + 4) true false

def skipEnds : Nat → Composer Unit
  | 0 => return
  | fuel + 1 => do
    if ← take .documentEnd then skipEnds fuel

end Composer

/-- The document that tokens make, which have to be one document; no tokens are an empty one. -/
def Node.ofTokens? (ts : List Token) : Option Node :=
  if ts.isEmpty then some .empty
  else
    let whole : Composer Node := do
      let n ← Composer.document ts.length
      Composer.skipEnds ts.length
      if (← Composer.peek).isSome then failure else return n
    (whole.run ⟨ts, [], []⟩).map Prod.fst

end TypedClient.Yaml
