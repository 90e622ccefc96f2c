import TypedClient.Client.Endpoint
import TypedClient.FileTree.Writing
import TypedClient.Json.Printer

namespace TypedClient

def lines (ls : List String) : String :=
  String.join (ls.map (· ++ "\n"))

def FileTree.Summary.report (s : FileTree.Summary) (what : String) (dryRun : Bool) : String :=
  let done :=
    if dryRun then
      ("📝 Dry run (" ++ what ++ "): " ++ toString s.planned.length ++
        " file(s) would be written") :: s.planned.map ("   " ++ ·)
    else
      ["✅ Generated " ++ what ++ ": " ++ toString s.written.length ++ " written, " ++
        toString s.unchanged.length ++ " unchanged"]
  lines (done ++ s.skipped.map fun p =>
    "⚠️  Skipped " ++ p ++ " (not generated; use --force to overwrite)")

namespace Document

def serviceFile (settings : Settings) (s : Service) : String :=
  s.endpointLocation settings ++ ".ts"

def operationLine (o : Operation) : String :=
  "    " ++ o.name ++ "(" ++ ", ".intercalate (o.parameters.map Parameter.name) ++ ")  " ++
    Text.upper o.method ++ " " ++ o.path

def serviceLines (settings : Settings) (s : Service) : List String :=
  ("  " ++ serviceFile settings s) :: s.operations.map operationLine

def bodyText : EntityBody → String
  | .object properties => toString properties.length ++ " properties"
  | .choices values => "enum of " ++ toString values.length

def entityLine (e : Entity) : String :=
  let parent := match e.parent with
    | some p => " extends " ++ p.fullName
    | none => ""
  "  " ++ e.name ++ parent ++ " (" ++ bodyText e.body ++ ")"

def describe (d : Document) (settings : Settings) (source : String) : String :=
  lines (["📄 " ++ d.title ++ " " ++ d.version ++ " (" ++ source ++ ")",
      "🔌 services: " ++ toString d.services.length] ++
    d.services.flatMap (serviceLines settings) ++
    ["🧩 entities: " ++ toString d.entities.length] ++ d.entities.map entityLine)

def operationJson (o : Operation) : Json :=
  .object [("name", .string o.name), ("method", .string o.method), ("path", .string o.path),
    ("parameters", .array (o.parameters.map fun p => .string p.name))]

def serviceJson (settings : Settings) (s : Service) : Json :=
  .object [("name", .string s.name), ("file", .string (serviceFile settings s)),
    ("operations", .array (s.operations.map operationJson))]

def entityJson (e : Entity) : Json :=
  .object [("name", .string e.name),
    ("parent", match e.parent with
      | some p => .string p.fullName
      | none => .null),
    ("enum", .bool (match e.body with
      | .choices _ => true
      | .object _ => false))]

def describeJson (d : Document) (settings : Settings) : Json :=
  .object [("title", .string d.title), ("version", .string d.version),
    ("services", .array (d.services.map (serviceJson settings))),
    ("entities", .array (d.entities.map entityJson))]

end Document

end TypedClient
