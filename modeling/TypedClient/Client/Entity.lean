import TypedClient.Client.Endpoint
import TypedClient.Client.Validators

namespace TypedClient

open TypedClient.Module

namespace Entity

def modelLocation (e : Entity) (settings : Settings) : String :=
  e.reference.location ++ settings.modelSuffix

def defaultExport (name : String) : String :=
  "\n\x7d\nexport default " ++ name ++ ";"

def enumText (name : String) (values : List String) : String :=
  "enum " ++ name ++ " \x7b" ++
    String.join (values.map fun v => "\n  " ++ propertyKey v ++ " = " ++ quoted v ++ ",") ++
    defaultExport name

/-- A property of an interface. It may be left out when it is not required or may be undefined. -/
def propertyText (p : Property) (type : TypeExpr) : String :=
  "\n  " ++ propertyKey p.name ++ (if !p.required || type.isOptional then "?" else "") ++ ": " ++
    type.required.text ++ ";"

def propertyTexts : List Property → Drafting (List String)
  | [] => return []
  | p :: ps => do
    let type ← p.schema.valueType true
    let rest ← propertyTexts ps
    return propertyText p type :: rest

def extendsText : Option String → String
  | some parent => " extends " ++ parent
  | none => ""

def interfaceText (description name : String) (parent : Option String)
    (properties : List String) : String :=
  docComment description ++ "interface " ++ name ++ extendsText parent ++ " \x7b" ++
    String.join properties ++ defaultExport name

def parentType : Option Reference → Drafting (Option String)
  | none => return none
  | some r => do return some (← r.importType)

def buildType (e : Entity) : Drafting Unit := do
  let name ← Draft.bindOwn e.reference.typeName
  match e.body with
  | .choices values => Draft.declare (enumText name values)
  | .object properties =>
    let parent ← parentType e.parent
    let texts ← propertyTexts properties
    Draft.declare (interfaceText (e.description.getD "") name parent texts)

def typeDraft (e : Entity) (source : String) : Draft :=
  (e.buildType.run { location := e.reference.location, source }).2

inductive Fault
  | validator (entity property : String) (cause : Annotation.Fault)
deriving DecidableEq, Repr

def Fault.message : Fault → String
  | validator entity property cause =>
    "invalid validator on `" ++ entity ++ "." ++ property ++ "`: " ++ cause.message

abbrev Building := ExceptT Fault Drafting

structure Accessor where
  name : String
  model : String
  modelType : TypeExpr
  validators : List Expr

/-- The text of an accessor; `lookup` finds the model of a property. -/
def Accessor.text (lookup : String) (a : Accessor) : String :=
  "\n\n  get " ++ propertyKey a.name ++ "(): " ++ a.modelType.text ++ " \x7b\n    return this[" ++
    lookup ++ "](" ++ quoted a.name ++ ", " ++ a.model ++ ", [" ++ Expr.listText a.validators ++
    "]) as " ++ a.modelType.text ++ ";\n  \x7d"

def accessor (settings : Settings) (entity : String) (p : Property) : Building Accessor := do
  let model ← p.schema.model settings
  let modelType ← p.schema.modelType settings
  let validators ← (p.schema.validators settings).adapt (Fault.validator entity p.name)
  return ⟨p.name, model, modelType, validators⟩

def modelText (name type base lookup : String) (accessors : List Accessor) : String :=
  "class " ++ name ++ "<T extends " ++ type ++ " = " ++ type ++ "> extends " ++ base ++
    "<T> \x7b\n  declare static createEmptyValue: () => " ++ type ++ ";" ++
    String.join (accessors.map (Accessor.text lookup)) ++ defaultExport name

def enumModelText (name type base key : String) : String :=
  "class " ++ name ++ " extends " ++ base ++ "<typeof " ++ type ++ "> \x7b\n  static override [" ++
    key ++ "] = " ++ type ++ ";" ++ defaultExport name

/-- The model class that a model extends: the parent's, or that of objects. -/
def baseModel (settings : Settings) : Option Reference → Drafting String
  | some parent => parent.importModel settings
  | none => formClass settings "ObjectModel"

def buildModel (e : Entity) (settings : Settings) : Building Unit := do
  let name ← Draft.bindOwn (e.reference.typeName ++ settings.modelSuffix)
  match e.body with
  | .choices _ =>
    let type ← Draft.importFrom e.reference.location e.reference.typeName false
    let base ← formClass settings "EnumModel"
    let key ← formClass settings "_enum"
    Draft.declare (enumModelText name type base key)
  | .object properties =>
    let type ← e.reference.importType
    let base ← baseModel settings e.parent
    let lookup ← formClass settings "_getPropertyModel"
    let accessors ← properties.mapM (accessor settings e.name)
    Draft.declare (modelText name type base lookup accessors)

def modelDraft (e : Entity) (settings : Settings) (source : String) : Except Fault Draft :=
  match (e.buildModel settings).run.run { location := e.modelLocation settings, source } with
  | (.ok (), d) => .ok d
  | (.error f, _) => .error f

end Entity

end TypedClient
