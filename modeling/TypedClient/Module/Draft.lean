import TypedClient.Module.ImportTable
import TypedClient.Path.Relative
import TypedClient.Text.Blank

namespace TypedClient.Module

open Text

def marker : String := "Generated by clientgen"

structure File where
  path : String
  contents : String
deriving DecidableEq, Repr, Inhabited

structure Draft where
  /-- Where the module stands in the output tree, without extension. -/
  location : String
  source : String
  imports : ImportTable := ImportTable.empty
  declarations : List String := []
  own : Option String := none
deriving Inhabited

abbrev Drafting := StateM Draft

namespace Draft

def onImports (f : ImportTable → α × ImportTable) : Drafting α := fun d =>
  let r := f d.imports
  (r.1, { d with imports := r.2 })

def reserve (name : String) : Drafting String :=
  onImports fun t => t.reserve name

def release (name : String) : Drafting Unit :=
  onImports fun t => ((), t.release name)

def defaultImport (path name : String) (typeOnly : Bool) : Drafting String :=
  onImports fun t => t.defaultImport path name typeOnly

def namedImport (path name : String) (typeOnly : Bool) : Drafting String :=
  onImports fun t => t.namedImport path name typeOnly

def namespaceImport (path name : String) : Drafting String :=
  onImports fun t => t.namespaceImport path name

/-- Takes the name that the module declares and exports by default. -/
def bindOwn (name : String) : Drafting String := do
  let id ← reserve name
  modify fun d => { d with own := some id }
  return id

def moduleSpecifier (d : Draft) (target : String) : String :=
  Path.relativeSpecifier d.location target ++ ".js"

/-- The specifier of a configured module: a relative one is taken from the output root. -/
def externalSpecifier (d : Draft) (module : String) : String :=
  match afterPrefix? "./" module with
  | some inner => d.moduleSpecifier inner
  | none => module

/-- The default export of the generated module at a location; the module's own name where that is
the module itself. -/
def importFrom (target name : String) (typeOnly : Bool) : Drafting String := do
  let d ← get
  match d.own with
  | some own =>
    if target = d.location then return own
    else defaultImport (d.moduleSpecifier target) name typeOnly
  | none => defaultImport (d.moduleSpecifier target) name typeOnly

def declare (declaration : String) : Drafting Unit :=
  modify fun d => { d with declarations := d.declarations ++ [declaration] }

def header (d : Draft) : String :=
  "/**\n * " ++ marker ++ " from " ++ d.source ++
    ".\n * Changes to this file are overwritten on the next generation run.\n * @module " ++
    afterLast '/' d.location ++ "\n */"

/-- The text of the module: header, imports and declarations. -/
def contents (d : Draft) : String :=
  trimBlankEnd (d.header ++ String.join (d.imports.statements.map ("\n" ++ ·)) ++
    String.join (d.declarations.map ("\n\n" ++ ·))) ++ "\n"

def finish (d : Draft) : File :=
  ⟨d.location ++ ".ts", d.contents⟩

end Draft

end TypedClient.Module
