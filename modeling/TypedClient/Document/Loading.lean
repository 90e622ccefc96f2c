import TypedClient.Document.Reading
import TypedClient.FileTree.Access
import TypedClient.Json.Reader
import TypedClient.Yaml.Value

namespace TypedClient.Document

inductive LoadFault
  | unreadable (path : String)
  | notYaml (path : String)
  | notJson (path : String)
  | form (fault : Fault)
deriving DecidableEq, Repr

def LoadFault.message : LoadFault → String
  | unreadable p => "Failed to read schema document " ++ p
  | notYaml p => "Failed to parse YAML document " ++ p
  | notJson p => "Failed to parse JSON document " ++ p
  | form f => f.message

def isYamlPath (path : String) : Bool :=
  (Path.extension? path).any fun e => Text.lower e = "yaml" || Text.lower e = "yml"

def parseText (path text : String) : Except LoadFault Json :=
  if isYamlPath path then
    match Yaml.parse? text with
    | some j => .ok j
    | none => .error (.notYaml path)
  else match Json.parse? text with
    | some j => .ok j
    | none => .error (.notJson path)

def load (t : FileTree) (path : String) : Except LoadFault Document := do
  let text ← match t.readText? path with
    | some s => .ok s
    | none => .error (.unreadable path)
  (ofJson (← parseText path text)).mapError .form

end TypedClient.Document
