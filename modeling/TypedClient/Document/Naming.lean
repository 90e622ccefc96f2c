import TypedClient.Document.Basic
import TypedClient.Identifier
import TypedClient.Json.Basic

namespace TypedClient.Document

open Text Identifier

def pathSegments (path : String) : List String :=
  (pieces '/' path).filter (· ≠ "")

/-- The service of an operation: its first tag, or else the first segment of its path unless that is
a parameter. -/
def serviceName (path : String) (operation : Json) : String :=
  match (((operation.get? "tags").bind Json.array?).bind List.head?).bind Json.string? with
  | some tag => tag
  | none => match pathSegments path with
    | s :: _ => if startsWith "\x7b" s then "Default" else pascal s
    | [] => "Default"

def bareSegment (s : String) : String :=
  String.ofList (trimEnd (· == '}') (trimStart (· == '{') s.toList))

/-- The name of an operation: the second segment of a path that begins with the service, or else its
identifier in camel case, or else its method and its path. -/
def operationName (path method service : String) (operation : Json) : String :=
  let segments := pathSegments path
  let derived := match operation.getString? "operationId" with
    | some id => camel id
    | none => method ++ String.join (segments.map fun s => pascal (bareSegment s))
  match segments with
  | [s, name] => if s = service && !startsWith "\x7b" name then name else derived
  | _ => derived

/-- The operations with every name that an earlier one has taken replaced by the first free numbered
one. -/
def distinctNames : List String → List Operation → List Operation
  | _, [] => []
  | taken, op :: ops =>
    let name := if taken.contains op.name then firstFree taken op.name else op.name
    { op with name } :: distinctNames (name :: taken) ops

end TypedClient.Document
