import TypedClient.Client.Model
import TypedClient.Annotation

namespace TypedClient

open TypedClient.Module

variable (settings : Settings)

/-- Work on a draft that may meet a faulty annotation; imports made before stay. -/
abbrev Checking := ExceptT Annotation.Fault Drafting

def constructValidator (raw : String) : Checking Expr :=
  match Annotation.parse raw with
  | .error fault => throw fault
  | .ok a => do
    let callee ← formClass settings a.name
    return .construct callee (a.argument.toList.map Expr.literal)

mutual

def Shape.itemValidators : Shape → Checking (List Expr)
  | .array items => do
    let model ← items.model settings
    let inner ← items.validators
    return [.identifier model, .array inner]
  | .composed _ branches => branchesItemValidators branches
  | _ => return []

def Schema.validators : Schema → Checking (List Expr)
  | ⟨shape, nullable, annotations, constraints, _, _⟩ => do
    let items ← shape.itemValidators
    let annotated ← annotations.mapM (constructValidator settings)
    let constrained ← constraints.mapM (constructValidator settings)
    return .bool nullable :: items ++ annotated ++ constrained

def branchesItemValidators : List Schema → Checking (List Expr)
  | [] => return []
  | ⟨shape, _, _, _, _, _⟩ :: _ => shape.itemValidators

end

end TypedClient
