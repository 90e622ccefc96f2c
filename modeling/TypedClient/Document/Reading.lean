import TypedClient.Document.Naming
import TypedClient.Schema.Reading

namespace TypedClient.Document

open Text

inductive Fault
  | unsupportedVersion (version : String)
deriving DecidableEq, Repr

def Fault.message : Fault → String
  | unsupportedVersion v => "OpenAPI version '" ++ v ++ "' is not supported (expected 3.x)"

def methods : List String :=
  ["get", "post", "put", "delete", "patch", "options", "head", "trace"]

/-- The JSON schema of a request body or a response: that of `application/json`, or else that of the
first content. -/
def contentSchema? (container : Option Json) : Option Json := do
  let content ← (← (← container).get? "content").object?
  let media ← (content.lookup "application/json").or (content.head?.map Prod.snd)
  media.get? "schema"

/-- The parameters of a request body: the properties of an object, or else one named `body`. -/
def bodyParameters (operation : Json) : List Parameter :=
  match contentSchema? (operation.get? "requestBody") with
  | none => []
  | some j => match (Schema.ofJson j).shape with
    | .object properties => properties.map fun p => ⟨p.name, p.schema, false⟩
    | shape => [⟨"body", Schema.plain shape, false⟩]

/-- A declared parameter. One in the path is never optional. -/
def parameter? (declared : Json) : Option Parameter := do
  let name ← declared.getString? "name"
  let required := declared.getString? "in" = some "path" ||
    ((declared.get? "required").bind Json.bool?).getD false
  let schema := match declared.get? "schema" with
    | some j => Schema.ofJson j
    | none => Schema.plain (.text [])
  some ⟨name, schema, !required⟩

/-- Adds a parameter, which takes the place of an earlier one of its name. -/
def declare (ps : List Parameter) (p : Parameter) : List Parameter :=
  ps.filter (fun q => q.name ≠ p.name) ++ [p]

def declaredParameters (list : Option Json) : List Parameter :=
  ((list.bind Json.array?).getD []).filterMap parameter?

/-- The parameters of an operation: those of its body, then those its path item and itself
declare. -/
def parameters (shared : Option Json) (operation : Json) : List Parameter :=
  (declaredParameters shared ++ declaredParameters (operation.get? "parameters")).foldl declare
    (bodyParameters operation)

/-- The schema of the first response whose status begins with 2. -/
def response? (operation : Json) : Option Schema := do
  let responses ← (← operation.get? "responses").object?
  let (_, response) ← responses.find? fun r => startsWith "2" r.1
  let schema ← contentSchema? (some response)
  some (Schema.ofJson schema)

def readOperation (path method service : String) (shared : Option Json) (j : Json) : Operation :=
  { name := operationName path method service j
    method, path
    parameters := parameters shared j
    response := response? j
    description := ((j.get? "description").or (j.get? "summary")).bind Json.string? }

def itemOperations (path : String) (item : Json) : List (String × Operation) :=
  (item.object?.getD []).filterMap fun m =>
    let method := lower m.1
    if methods.contains method then
      let service := serviceName path m.2
      some (service, readOperation path method service (item.get? "parameters") m.2)
    else none

def allOperations (doc : Json) : List (String × Operation) :=
  (((doc.get? "paths").bind Json.object?).getD []).flatMap fun p => itemOperations p.1 p.2

/-- Adds an operation to the service of a name, which comes last if it is new. -/
def addOperation (name : String) (op : Operation) : List Service → List Service
  | [] => [⟨name, [op]⟩]
  | s :: ss =>
    if s.name = name then { s with operations := s.operations ++ [op] } :: ss
    else s :: addOperation name op ss

def readServices (doc : Json) : List Service :=
  ((allOperations doc).foldl (fun ss o => addOperation o.1 o.2 ss) []).map fun s =>
    { s with operations := distinctNames [] s.operations }

/-- The first reference among the branches of a composition. -/
def firstReference? (branches : List Schema) : Option Reference :=
  branches.findSome? fun b => match b.shape with
    | .reference r => some r
    | _ => none

/-- The properties of all objects among the branches of a composition. -/
def branchProperties (branches : List Schema) : List Property :=
  branches.flatMap fun b => match b.shape with
    | .object ps => ps
    | _ => []

def readEntity (name : String) (j : Json) : Entity :=
  let schema := Schema.ofJson j
  let (parent, body) := match schema.shape with
    | .text (c :: cs) => (none, EntityBody.choices (c :: cs))
    | .object ps => (none, .object ps)
    | .composed _ branches => (firstReference? branches, .object (branchProperties branches))
    | _ => (none, .object [])
  ⟨Reference.toComponent name, parent, body, schema.description⟩

def readEntities (doc : Json) : List Entity :=
  ((((doc.get? "components").bind (Json.get? "schemas")).bind Json.object?).getD []).map fun m =>
    readEntity m.1 m.2

def ofJson (doc : Json) : Except Fault Document :=
  let version := (doc.getString? "openapi").getD ""
  if startsWith "3." version then
    let info := doc.get? "info"
    .ok { title := (info.bind (Json.getString? "title")).getD ""
          version := (info.bind (Json.getString? "version")).getD ""
          services := readServices doc
          entities := readEntities doc }
  else .error (.unsupportedVersion version)

end TypedClient.Document
