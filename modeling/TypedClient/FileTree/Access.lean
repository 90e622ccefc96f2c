import TypedClient.FileTree.Place

namespace TypedClient.FileTree

def exists? (t : FileTree) (p : String) : Bool :=
  match t.locate true p with
  | .found _ _ => true
  | _ => false

def isDirectory (t : FileTree) (p : String) : Bool :=
  match t.locate true p with
  | .found _ .directory => true
  | _ => false

def readText? (t : FileTree) (p : String) : Option String :=
  match t.locate true p with
  | .found _ (.file c) => c.text?
  | _ => none

/-- The tree after a file is written; its directory has to be there. -/
def write? (t : FileTree) (p : String) (c : Contents) : Option FileTree :=
  match t.locate true p with
  | .found name (.file _) => some (t.insert name (.file c))
  | .vacant name => some (t.insert name (.file c))
  | _ => none

inductive Making
  | made (t : FileTree)
  | noParent
  | refused

/-- A path without the slashes at its end, save those of the root. -/
def bare (p : String) : String :=
  let q := String.ofList (Text.trimEnd (· == '/') p.toList)
  if q = "" then p else q

def makeDirectory (t : FileTree) (p : String) : Making :=
  match t.locate false (bare p) with
  | .vacant name => .made (t.insert name .directory)
  | .missing => .noParent
  | _ => .refused

/-- Makes the first directory of a list in which every path is followed by its parent, and those
parents that are not there. Some may be made even if it fails. -/
def makeFirst (t : FileTree) : List String → FileTree × Bool
  | [] => (t, false)
  | p :: parents =>
    if p = "" then (t, true)
    else match t.makeDirectory p with
      | .made t => (t, true)
      | .refused => (t, t.isDirectory p)
      | .noParent => match t.makeFirst parents with
        | (t, false) => (t, false)
        | (t, true) => match t.makeDirectory p with
          | .made t => (t, true)
          | _ => (t, t.isDirectory p)

/-- A path and those of the directories above it; `fuel` bounds their number. -/
def lineage : Nat → String → List String
  | 0, _ => []
  | fuel + 1, p => p :: match Path.parent? p with
    | some q => lineage fuel q
    | none => []

def makeDirectories (t : FileTree) (p : String) : FileTree × Bool :=
  t.makeFirst (lineage (p.length + 2) p)

def remove (t : FileTree) (p : String) : FileTree :=
  match t.locate false p with
  | .found name _ => t.erase name
  | _ => t

/-- Puts something at a path and makes the directories above it. -/
def put (t : FileTree) (p : String) (x : Node) : FileTree :=
  let t := ((Path.parent? p).map fun q => (t.makeDirectories q).1).getD t
  match x with
  | .file c => (t.write? p c).getD t
  | .directory => (t.makeDirectories p).1
  | .link target => match t.locate false p with
    | .vacant name => t.insert name (.link target)
    | _ => t

def files (t : FileTree) : List (String × Contents) :=
  t.entries.filterMap fun e => do
    let rest ← t.cwd.isPrefixOf? e.1
    let c ← e.2.contents?
    some ("/".intercalate rest, c)

def changes (old t : FileTree) : List (String × Contents) :=
  t.files.filter fun f => old.files.lookup f.1 ≠ some f.2

def newEntries (old t : FileTree) : List (Name × Node) :=
  t.entries.filter fun e => old.node? e.1 ≠ some e.2

def namePath (n : Name) : String :=
  "/" ++ "/".intercalate n

def cwdPath (t : FileTree) : String :=
  namePath t.cwd

end TypedClient.FileTree
