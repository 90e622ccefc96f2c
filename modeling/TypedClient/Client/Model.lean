import TypedClient.Client.ValueType
import TypedClient.Settings.Basic

namespace TypedClient

open TypedClient.Module

variable (settings : Settings)

def formClass (name : String) : Drafting String :=
  Draft.namedImport settings.formModule name false

def Reference.importModel (r : Reference) : Drafting String :=
  Draft.importFrom (r.location ++ settings.modelSuffix) (r.typeName ++ settings.modelSuffix) false

mutual

/-- The model class of a shape; of a composition only the first branch counts. -/
def Shape.model : Shape → Drafting String
  | .reference r => r.importModel settings
  | .array _ => formClass settings "ArrayModel"
  | .map _ => formClass settings "ObjectModel"
  | .anyMap => formClass settings "ObjectModel"
  | .text _ => formClass settings "StringModel"
  | .number => formClass settings "NumberModel"
  | .integer => formClass settings "NumberModel"
  | .boolean => formClass settings "BooleanModel"
  | .composed _ branches => branchesModel branches
  | .object _ => formClass settings "ObjectModel"
  | .unknown => formClass settings "ObjectModel"

def branchesModel : List Schema → Drafting String
  | [] => formClass settings "ObjectModel"
  | ⟨shape, _, _, _, _, _⟩ :: _ => shape.model

end

def Schema.model (s : Schema) : Drafting String :=
  s.shape.model settings

def genericClass (name : String) (args : List TypeExpr) : Drafting TypeExpr := do
  return .generic (← formClass settings name) args

mutual

/-- The declared type of an accessor for a shape. A model of a list names the type and the model of
its items. -/
def Shape.modelType : Shape → Drafting TypeExpr
  | .reference r => do return .reference (← r.importModel settings)
  | .array items => do
    let model ← formClass settings "ArrayModel"
    let item ← items.valueType false
    let itemModel ← items.modelType
    return .generic model [item, itemModel]
  | .map values => do
    let model ← formClass settings "ObjectModel"
    let value ← values.valueType false
    return .generic model [.record value]
  | .anyMap => genericClass settings "ObjectModel" [.record .any]
  | .text _ => do return .reference (← formClass settings "StringModel")
  | .number => do return .reference (← formClass settings "NumberModel")
  | .integer => do return .reference (← formClass settings "NumberModel")
  | .boolean => do return .reference (← formClass settings "BooleanModel")
  | .composed _ branches => branchesModelType branches
  | .object _ => genericClass settings "ObjectModel" [.unknown]
  | .unknown => genericClass settings "ObjectModel" [.unknown]

def Schema.modelType : Schema → Drafting TypeExpr
  | ⟨shape, _, _, _, _, _⟩ => shape.modelType

def branchesModelType : List Schema → Drafting TypeExpr
  | [] => genericClass settings "ObjectModel" [.unknown]
  | ⟨shape, _, _, _, _, _⟩ :: _ => shape.modelType

end

end TypedClient
