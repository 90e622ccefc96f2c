import TypedClient.Module.Draft
import TypedClient.Module.Expression
import TypedClient.Schema.Basic

namespace TypedClient

open TypedClient.Module

def Reference.importType (r : Reference) : Drafting String :=
  Draft.importFrom r.location r.typeName true

mutual

/-- The type of the values of a shape; of a composition only the first branch counts. Where `mark`
is set, what admits null may be `undefined`, at every depth. -/
def Shape.valueType (mark : Bool) : Shape → Drafting TypeExpr
  | .reference r => do return .reference (← r.importType)
  | .array items => do return .array (← items.valueType mark)
  | .map values => do return .record (← values.valueType mark)
  | .anyMap => return .record .any
  | .text _ => return .string
  | .number => return .number
  | .integer => return .number
  | .boolean => return .boolean
  | .composed _ branches => branchesValueType mark branches
  | .object _ => return .unknown
  | .unknown => return .unknown

def Schema.valueType (mark : Bool) : Schema → Drafting TypeExpr
  | ⟨shape, nullable, _, _, _, _⟩ => do
    let t ← shape.valueType mark
    return if mark && nullable then t.orUndefined else t

/-- The type of the values of the first branch, without its modifiers. -/
def branchesValueType (mark : Bool) : List Schema → Drafting TypeExpr
  | [] => return .unknown
  | ⟨shape, _, _, _, _, _⟩ :: _ => shape.valueType mark

end

end TypedClient
