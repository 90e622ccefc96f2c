import TypedClient.FileTree.Access
import TypedClient.Routing.Segment
import TypedClient.Routing.Tree
import TypedClient.Settings.Basic

namespace TypedClient.Routing

open Text

inductive DirEntry
  | file (name : String)
  | directory (name : String) (entries : List DirEntry)
deriving Repr

def DirEntry.name : DirEntry → String
  | file name => name
  | directory name _ => name

namespace Collection

inductive Item
  | layout (path : String)
  | index (path : String)
  | page (order : Option Nat) (name path : String)
  | directory (order : Option Nat) (name : String) (tree : Option Tree)

structure Candidate where
  order : Option Nat
  name : String
  directory : Option (Option Tree) := none
  page : Option String := none

def isPrivate (name : String) : Bool :=
  startsWith "_" name || startsWith "." name

def fileItem? (settings : Settings) (dir name : String) : Option Item :=
  let (stem, extension) := Path.splitExtension name
  if isPrivate name || !settings.isViewExtension (extension.getD "") then none
  else
    let path := Path.join dir name
    if stem = "layout" || stem = "@layout" then some (.layout path)
    else if stem = "index" || stem = "@index" then some (.index path)
    else if startsWith "@" stem then none
    else
      let (order, name) := Segment.splitOrder stem
      some (.page order name path)

def Item.layout? : Item → Option String
  | layout path => some path
  | _ => none

def Item.index? : Item → Option String
  | index path => some path
  | _ => none

/-- Adds an item to the candidates; of two pages or two directories the first counts. -/
def addItem (i : Item) : List Candidate → List Candidate
  | [] => match i with
    | .page order name path => [{ order, name, page := some path }]
    | .directory order name tree => [{ order, name, directory := some tree }]
    | _ => []
  | c :: cs => match i with
    | .page order name path =>
      if c.name = name then
        { c with order := c.order.or order, page := c.page.or (some path) } :: cs
      else c :: addItem i cs
    | .directory order name tree =>
      if c.name = name then
        { c with order := c.order.or order, directory := c.directory.or (some tree) } :: cs
      else c :: addItem i cs
    | _ => c :: cs

def candidates (items : List Item) : List Candidate :=
  items.foldl (fun cs i => addItem i cs) []

/-- The order of siblings: by number, those without one last, and then by name. -/
def precedes (a b : Candidate) : Bool :=
  match a.order, b.order with
  | some m, some n => m < n || (m = n && decide (a.name ≤ b.name))
  | some _, none => true
  | none, some _ => false
  | none, none => decide (a.name ≤ b.name)

/-- Makes a file beside a directory the page of its tree, unless that has one. -/
def addPage (t : Tree) (page : String) : Tree :=
  if t.layout.isSome then
    if (t.children.head?.map Tree.segment) = some "" then t
    else { t with children := Tree.leaf "" page :: t.children }
  else if t.page.isSome then t
  else { t with page := some page }

def Candidate.tree? (c : Candidate) : Option Tree :=
  let segment := Segment.normalize c.name
  match c.directory, c.page with
  | some tree, some page => some (addPage (tree.getD { segment }) page)
  | some tree, none => tree
  | none, page => page.map (Tree.leaf segment)

def ofItems? (segment : String) (items : List Item) : Option Tree :=
  let layout := items.findSome? Item.layout?
  let page := items.findSome? Item.index?
  let children := ((candidates items).mergeSort precedes).filterMap Candidate.tree?
  let tree : Tree := match layout, page with
    | some layout, some page =>
      { segment, layout := some layout, children := Tree.leaf "" page :: children }
    | layout, page => { segment, layout, page, children }
  if tree.page.isNone && tree.children.isEmpty then none else some tree

mutual

def item? (settings : Settings) (dir : String) : DirEntry → Option Item
  | .file name => fileItem? settings dir name
  | .directory name entries =>
    if isPrivate name then none
    else
      let (order, stripped) := Segment.splitOrder name
      some (.directory order stripped
        (ofItems? (Segment.normalize stripped) (items settings (Path.join dir name) entries)))

def items (settings : Settings) (dir : String) : List DirEntry → List Item
  | [] => []
  | e :: es => (item? settings dir e).toList ++ items settings dir es

end

end Collection

/-- The tree of the views in a directory with these entries, which are sorted by name. -/
def Tree.ofEntries (settings : Settings) (dir : String) (entries : List DirEntry) : Tree :=
  (Collection.ofItems? "" (Collection.items settings dir entries)).getD { segment := "" }

def entriesBelow (t : FileTree) : Nat → FileTree.Name → List DirEntry
  | 0, _ => []
  | depth + 1, name => (t.stepsIn name).map fun step =>
    match t.node? (name ++ [step]) with
    | some .directory => .directory step (entriesBelow t depth (name ++ [step]))
    | _ => .file step

def deepestName (t : FileTree) : Nat :=
  t.entries.foldl (fun n e => max n e.1.length) 0

def dirEntries? (t : FileTree) (dir : String) : Option (List DirEntry) :=
  match t.locate true dir with
  | .found name .directory => some (entriesBelow t (deepestName t + 1) name)
  | _ => none

def Tree.collect? (t : FileTree) (settings : Settings) (dir : String) : Option Tree :=
  (dirEntries? t dir).map (Tree.ofEntries settings dir)

end TypedClient.Routing
