import TypedClient.Proofs.Client.ResolvedSchemas
import TypedClient.Proofs.Module.DraftImports

namespace TypedClient.Proofs.MarkedTypes

open TypedClient.Module TypedClient.Proofs.DraftImports

theorem required_of_settled {t : TypeExpr} (h : t.isOptional = false) : t.required = t := by
  cases t with
  | optional t => cases h
  | _ => rfl

theorem orUndefined_of_settled {t : TypeExpr} (h : t.isOptional = false) :
    t.orUndefined = .optional t := by
  cases t with
  | optional t => cases h
  | _ => rfl

theorem isOptional_valueType (mark : Bool) (s : Schema) (d : Draft) :
    ((s.shape.valueType mark).run d).1.isOptional = false := by
  induction s using Schema.branch_induction with
  | settled s h =>
    obtain ⟨shape, nullable, annotations, constraints, format, description⟩ := s
    cases shape with
    | composed kind branches =>
      cases branches with
      | nil => rfl
      | cons b bs => exact absurd rfl (h kind b bs)
    | _ => rfl
  | branch s kind b bs h ih =>
    obtain ⟨shape, nullable, annotations, constraints, format, description⟩ := b
    rw [h, Shape.valueType, branchesValueType]
    exact ih

/-- The type of a schema is that of its shape, or that or `undefined` where it admits null. -/
theorem valueType_run (s : Schema) (d : Draft) :
    ∃ t d', (s.shape.valueType true).run d = (t, d') ∧ t.isOptional = false ∧
      (s.valueType true).run d = (if s.nullable then .optional t else t, d') := by
  have hsettled := isOptional_valueType true s d
  obtain ⟨shape, nullable, annotations, constraints, format, description⟩ := s
  refine ⟨_, _, rfl, hsettled, ?_⟩
  rw [Schema.valueType, run_bind]
  cases nullable with
  | true => exact congrArg (·, _) (orUndefined_of_settled hsettled)
  | false => rfl

end TypedClient.Proofs.MarkedTypes
