import TypedClient.Client.ValueType
import TypedClient.Document.Basic
import TypedClient.Settings.Basic

namespace TypedClient

open TypedClient.Module Text

namespace Service

def endpointLocation (s : Service) (settings : Settings) : String :=
  let base := Identifier.sanitize s.name
  if endsWith settings.endpointSuffix base then base else base ++ settings.endpointSuffix

end Service

def docComment (description : String) : String :=
  if description = "" then "" else "/**\n * " ++ description ++ "\n */\n"

def inlineObject : List String → String
  | [] => "\x7b\x7d"
  | es => "\x7b " ++ ", ".intercalate es ++ " \x7d"

namespace Endpoint

structure Argument where
  name : String
  binding : String
  type : TypeExpr
  optional : Bool
  /-- Whether it may be left out and none that is required follows it. -/
  trailing : Bool

namespace Argument

/-- How a parameter is declared. One that may be left out has a question mark where none that is
required follows it, and otherwise may be `undefined`. -/
def declaration (a : Argument) : String :=
  if a.trailing then a.binding ++ "?: " ++ a.type.required.text
  else if a.optional then a.binding ++ ": " ++ a.type.orUndefined.text
  else a.binding ++ ": " ++ a.type.text

def entry (a : Argument) : String :=
  let key := propertyKey a.name
  if key = a.binding then key else key ++ ": " ++ a.binding

end Argument

/-- The parameters of a function; each is reserved before its type is made. -/
def arguments : List Parameter → Drafting (List Argument)
  | [] => return []
  | p :: ps => do
    let binding ← Draft.reserve p.name
    let type ← p.schema.valueType true
    let rest ← arguments ps
    return ⟨p.name, binding, type, p.optional, p.optional && ps.all Parameter.optional⟩ :: rest

def responseType : Option Schema → Drafting TypeExpr
  | some s => s.valueType true
  | none => return .void

def parameterList : List String → String
  | [] => ""
  | ps => "\n  " ++ ",\n  ".intercalate ps ++ ",\n"

structure Function where
  operation : Operation
  binding : String
  exported : String
  arguments : List Argument
  response : TypeExpr

def Function.text (service client : String) (f : Function) : String :=
  docComment (f.operation.description.getD "") ++ "async function " ++ f.binding ++ "(" ++
    parameterList (f.arguments.map Argument.declaration) ++ "): " ++ (f.response.promise).text ++
    " \x7b\n  return " ++ client ++ ".call(" ++ quoted service ++ ", " ++ quoted f.operation.name ++
    ", " ++ inlineObject (f.arguments.map Argument.entry) ++ ");\n\x7d\nexport \x7b " ++ f.binding ++
    " as " ++ f.exported ++ " \x7d;"

/-- The function of an operation, under the given names. Its parameters are bound inside it only, so
their names are free again afterwards. -/
def functionOf (op : Operation) (binding exported : String) : Drafting Function := do
  let args ← arguments op.parameters
  let response ← responseType op.response
  args.forM fun a => Draft.release a.binding
  return ⟨op, binding, exported, args, response⟩

/-- The functions of operations, given the names exported so far. -/
def functionsOf : List String → List Operation → Drafting (List Function)
  | _, [] => return []
  | exported, op :: ops => do
    let binding ← Draft.reserve ("_" ++ op.name)
    let name := Identifier.unique exported (Identifier.sanitize op.name)
    let f ← functionOf op binding name
    let rest ← functionsOf (name :: exported) ops
    return f :: rest

end Endpoint

structure Endpoint where
  client : String
  aggregate : String
  functions : List Endpoint.Function

namespace Endpoint

def make (s : Service) (settings : Settings) : Drafting Endpoint := do
  let client ← Draft.defaultImport ((← get).externalSpecifier settings.clientModule) "client" false
  let aggregate ← Draft.bindOwn s.name
  return ⟨client, aggregate, ← functionsOf [] s.operations⟩

def aggregateText (e : Endpoint) : String :=
  "export const " ++ e.aggregate ++ " = Object.freeze(\x7b" ++
    String.join (e.functions.map fun f =>
      "\n  " ++ propertyKey f.operation.name ++ ": " ++ f.binding ++ ",") ++
    "\n\x7d);\nexport default " ++ e.aggregate ++ ";"

def declarations (service : String) (e : Endpoint) : List String :=
  e.functions.map (Function.text service e.client) ++ [e.aggregateText]

def made (s : Service) (settings : Settings) (source : String) : Endpoint × Draft :=
  (make s settings).run { location := s.endpointLocation settings, source }

def draft (s : Service) (settings : Settings) (source : String) : Draft :=
  let (e, d) := made s settings source
  { d with declarations := e.declarations s.name }

end Endpoint

end TypedClient
