import TypedClient.Schema.Basic
import TypedClient.Json.Printer

namespace TypedClient

namespace Schema

/-- The text of an annotation entry: a text as it stands, a named object as `Name(attributes)`, and
anything else as JSON, so that it fails to be an annotation later on and is not lost. -/
def annotationText (entry : Json) : String :=
  match entry with
  | .string s => s
  | .object ms =>
    let name := ((ms.lookup "name").or (ms.lookup "simpleName")).bind Json.string?
    match name, ms.lookup "attributes" with
    | some name, some attributes => name ++ "(" ++ attributes.text ++ ")"
    | some name, none => name
    | none, _ => entry.text
  | _ => entry.text

def annotationTexts (entries : Option Json) : List String :=
  ((entries.bind Json.array?).getD []).map annotationText

def isNullBranch (branch : Json) : Bool :=
  branch.getString? "type" = some "null"

/-- The type that is declared, and whether null is admitted beside it: a name, or the first name
other than `null` of a list. -/
def declaredType : Option Json → Option String × Bool
  | some (.string t) => (some t, t = "null")
  | some (.array ts) =>
    let names := ts.filterMap Json.string?
    (names.find? (· ≠ "null"), names.contains "null")
  | _ => (none, false)

/-- What a value means where a schema, a list of schemas or named schemas are expected. -/
structure Facets where
  schema : Schema
  items : List (Json × Schema)
  members : List (String × Schema)
deriving Inhabited

def Facets.plain : Facets :=
  ⟨Schema.plain .unknown, [], []⟩

abbrev Table := List (String × Json × Facets)

namespace Table

def json? (t : Table) (key : String) : Option Json :=
  (t.lookup key).map Prod.fst

def facets? (t : Table) (key : String) : Option Facets :=
  (t.lookup key).map Prod.snd

def arrayShape (t : Table) : Shape :=
  .array (((t.facets? "items").map Facets.schema).getD (Schema.plain .unknown))

/-- The shape of an object: its properties if they are declared, and otherwise a map if additional
ones are. -/
def objectShape (t : Table) : Shape :=
  match t.lookup "properties" with
  | some (.object _, f) =>
    let required := Json.strings (t.json? "required")
    .object (f.members.map fun m => ⟨m.1, m.2, required.contains m.1⟩)
  | _ => match t.lookup "additionalProperties" with
    | some (.bool true, _) => .anyMap
    | some (.object _, f) => .map f.schema
    | _ => .object []

/-- The shape of what declares neither a reference nor a composition. Without a type, items make a
list and properties or additional properties an object. -/
def typedShape (t : Table) (type : Option String) : Shape :=
  match type with
  | some "string" => .text (Json.strings (t.json? "enum"))
  | some "number" => .number
  | some "integer" => .integer
  | some "boolean" => .boolean
  | some "array" => t.arrayShape
  | some "object" => t.objectShape
  | some _ => .unknown
  | none =>
    if (t.lookup "items").isSome then t.arrayShape
    else if (t.lookup "properties").isSome || (t.lookup "additionalProperties").isSome then
      t.objectShape
    else .unknown

/-- The shape of an object of a document, and whether it admits null by its shape: a reference goes
before a composition and a composition before a type. -/
def shape (t : Table) : Shape × Bool :=
  match (t.json? "$ref").bind Json.string? with
  | some target => (.reference (Reference.ofText target), false)
  | none => match Composition.all.find? fun k => ((t.json? k.key).bind Json.array?).isSome with
    | some kind =>
      let branches := ((t.facets? kind.key).map Facets.items).getD []
      (.composed kind ((branches.filter fun b => !isNullBranch b.1).map Prod.snd),
        branches.any fun b => isNullBranch b.1)
    | none =>
      let (type, nullable) := declaredType (t.json? "type")
      (t.typedShape type, nullable)

def schema (t : Table) : Schema :=
  let (shape, nullable) := t.shape
  { shape
    nullable := ((t.json? "nullable").bind Json.bool?).getD false || nullable
    annotations := annotationTexts (t.json? "x-annotations")
    constraints := annotationTexts (t.json? "x-validation-constraints")
    format := (t.json? "format").bind Json.string?
    description := (t.json? "description").bind Json.string? }

end Table

mutual

def facets : Json → Facets
  | .array js => ⟨plain .unknown, itemFacets js, []⟩
  | .object ms =>
    let t := table ms
    ⟨t.schema, [], t.map fun m => (m.1, m.2.2.schema)⟩
  | _ => Facets.plain

def itemFacets : List Json → List (Json × Schema)
  | [] => []
  | j :: js => (j, (facets j).schema) :: itemFacets js

def table : List (String × Json) → Table
  | [] => []
  | (k, j) :: ms => (k, j, facets j) :: table ms

end

def ofJson (j : Json) : Schema :=
  (facets j).schema

end Schema

end TypedClient
