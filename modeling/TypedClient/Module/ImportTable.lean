import TypedClient.Identifier

namespace TypedClient.Module

inductive ImportKind
  | defaultExport
  | named (exported : String)
  | everything
deriving DecidableEq, Repr

namespace ImportKind

def exported? : ImportKind → Option String
  | named n => some n
  | _ => none

end ImportKind

structure Import where
  path : String
  kind : ImportKind
  binding : String
  typeOnly : Bool
deriving DecidableEq, Repr

/-- The imports of a module in the order of their first requests, and the names in use. -/
structure ImportTable where
  imports : List Import
  taken : List String
deriving DecidableEq, Repr, Inhabited

namespace ImportTable

def empty : ImportTable := ⟨[], []⟩

def size (t : ImportTable) : Nat :=
  t.imports.length

/-- A name close to `suggested` that is free and no reserved word. -/
def freshName (t : ImportTable) (suggested : String) : String :=
  let base := Identifier.sanitize suggested
  if t.taken.contains base || Identifier.isReserved base then Identifier.firstFree t.taken base
  else base

def reserve (t : ImportTable) (suggested : String) : String × ImportTable :=
  let name := t.freshName suggested
  (name, { t with taken := name :: t.taken })

/-- Gives a reserved name back; the binding of an import stays. -/
def release (t : ImportTable) (name : String) : ImportTable :=
  if t.imports.any fun i => i.binding = name then t
  else { t with taken := t.taken.filter (· ≠ name) }

def find? (t : ImportTable) (path : String) (kind : ImportKind) : Option Import :=
  t.imports.find? fun i => i.path = path && i.kind = kind

/-- An import that is also asked for as a value, unless `typeOnly`. -/
def Import.request (typeOnly : Bool) (i : Import) : Import :=
  { i with typeOnly := i.typeOnly && typeOnly }

/-- The binding of an import, which is added when it is asked for the first time. -/
def add (t : ImportTable) (path : String) (kind : ImportKind) (suggested : String)
    (typeOnly : Bool) : String × ImportTable :=
  match t.find? path kind with
  | some i =>
    (i.binding, { t with imports := t.imports.map fun j =>
      if j.path = path ∧ j.kind = kind then Import.request typeOnly j else j })
  | none =>
    let (binding, t) := t.reserve suggested
    (binding, { t with imports := t.imports ++ [⟨path, kind, binding, typeOnly⟩] })

def defaultImport (t : ImportTable) (path suggested : String) (typeOnly : Bool) :
    String × ImportTable :=
  t.add path .defaultExport suggested typeOnly

def namedImport (t : ImportTable) (path name : String) (typeOnly : Bool) : String × ImportTable :=
  t.add path (.named name) name typeOnly

def namespaceImport (t : ImportTable) (path suggested : String) : String × ImportTable :=
  t.add path .everything suggested false

def valueImport (t : ImportTable) (path suggested : String) (isDefault : Bool) :
    String × ImportTable :=
  if isDefault then t.defaultImport path suggested false else t.namedImport path suggested false

def paths (t : ImportTable) : List String :=
  (t.imports.map Import.path).eraseDups

def keyword (typeOnly : Bool) : String :=
  if typeOnly then "import type" else "import"

def fromPath (path : String) : String :=
  " from \"" ++ path ++ "\";"

/-- One specifier of an import statement with braces; `allTypes` says that the statement itself is
for types. -/
def specifier (allTypes : Bool) (name : String) (i : Import) : String :=
  (if i.typeOnly && !allTypes then "type " else "") ++
    if name = i.binding then name else name ++ " as " ++ i.binding

/-- The named imports among some, sorted by their exports. -/
def sortedNamed (is : List Import) : List (String × Import) :=
  (is.filterMap fun i => i.kind.exported?.map fun n => (n, i)).mergeSort fun a b => a.1 ≤ b.1

def namedStatement (path : String) (is : List Import) : List String :=
  match sortedNamed is with
  | [] => []
  | named =>
    let allTypes := named.all fun n => n.2.typeOnly
    [keyword allTypes ++ " \x7b " ++
      ", ".intercalate (named.map fun n => specifier allTypes n.1 n.2) ++ " \x7d" ++ fromPath path]

/-- The statements for a path: all exports, the default export, named exports. -/
def pathStatements (t : ImportTable) (path : String) : List String :=
  let is := t.imports.filter fun i => i.path = path
  ((is.filter fun i => i.kind = .everything).map fun i =>
      "import * as " ++ i.binding ++ fromPath path) ++
    ((is.filter fun i => i.kind = .defaultExport).map fun i =>
      keyword i.typeOnly ++ " " ++ i.binding ++ fromPath path) ++
    namedStatement path is

def statements (t : ImportTable) : List String :=
  t.paths.flatMap t.pathStatements

end ImportTable

end TypedClient.Module
