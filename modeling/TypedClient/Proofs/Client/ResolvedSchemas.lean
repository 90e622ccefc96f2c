import TypedClient.Client.Validators
import TypedClient.Schema.Kind

namespace TypedClient.Schema

variable {s : Schema}

theorem resolve_branch {kind : Composition} {b : Schema} {bs : List Schema}
    (h : s.shape = .composed kind (b :: bs)) : s.resolve = b.resolve := by
  obtain ⟨shape, nullable, annotations, constraints, format, description⟩ := s
  dsimp only at h
  rw [h, resolve, resolveShape, resolveBranches]

theorem resolve_settled (h : ∀ kind b bs, s.shape ≠ .composed kind (b :: bs)) : s.resolve = s := by
  obtain ⟨shape, nullable, annotations, constraints, format, description⟩ := s
  rw [resolve]
  cases shape with
  | composed kind bs =>
    cases bs with
    | nil => rw [resolveShape, resolveBranches]
    | cons b bs => exact absurd rfl (h kind b bs)
  | _ => rfl

theorem sizeOf_shape_lt (s : Schema) : sizeOf s.shape < sizeOf s := by
  obtain ⟨shape, nullable, annotations, constraints, format, description⟩ := s
  simp only [mk.sizeOf_spec]
  omega

theorem sizeOf_branch_lt {kind : Composition} {b : Schema} {bs : List Schema}
    (h : s.shape = .composed kind (b :: bs)) : sizeOf b < sizeOf s := by
  have hshape := sizeOf_shape_lt s
  rw [h] at hshape
  simp only [Shape.composed.sizeOf_spec, List.cons.sizeOf_spec] at hshape
  omega

/-- What holds of schemas without branches, and of each whose first branch it holds of, holds of
all. -/
theorem branch_induction {motive : Schema → Prop}
    (settled : ∀ s, (∀ kind b bs, s.shape ≠ .composed kind (b :: bs)) → motive s)
    (branch : ∀ s kind b bs, s.shape = .composed kind (b :: bs) → motive b → motive s)
    (s : Schema) : motive s := by
  by_cases h : ∃ kind b bs, s.shape = .composed kind (b :: bs)
  · obtain ⟨kind, b, bs, h⟩ := h
    have hsize := sizeOf_branch_lt h
    exact branch s kind b bs h (branch_induction settled branch b)
  · exact settled s fun kind b bs hs => h ⟨kind, b, bs, hs⟩
termination_by sizeOf s

theorem resolved (s : Schema) (kind : Composition) (b : Schema) (bs : List Schema) :
    s.resolve.shape ≠ .composed kind (b :: bs) := by
  induction s using branch_induction with
  | settled s h =>
    rw [resolve_settled h]
    exact h kind b bs
  | branch s kind' b' bs' h ih =>
    rw [resolve_branch h]
    exact ih

theorem sizeOf_resolve_le (s : Schema) : sizeOf s.resolve ≤ sizeOf s := by
  induction s using branch_induction with
  | settled s h => exact Nat.le_of_eq (congrArg sizeOf (resolve_settled h))
  | branch s kind b bs h ih =>
    rw [resolve_branch h]
    exact Nat.le_trans ih (Nat.le_of_lt (sizeOf_branch_lt h))

theorem model_resolve (settings : Settings) (s : Schema) :
    s.resolve.model settings = s.model settings := by
  induction s using branch_induction with
  | settled s h => rw [resolve_settled h]
  | branch s kind b bs h ih =>
    obtain ⟨shape, nullable, annotations, constraints, format, description⟩ := b
    rw [resolve_branch h, ih, model, model, h, Shape.model, branchesModel]

theorem valueType_resolve (mark : Bool) (s : Schema) :
    s.resolve.shape.valueType mark = s.shape.valueType mark := by
  induction s using branch_induction with
  | settled s h => rw [resolve_settled h]
  | branch s kind b bs h ih =>
    obtain ⟨shape, nullable, annotations, constraints, format, description⟩ := b
    rw [resolve_branch h, ih, h, Shape.valueType, branchesValueType]

theorem modelType_resolve (settings : Settings) (s : Schema) :
    s.resolve.shape.modelType settings = s.shape.modelType settings := by
  induction s using branch_induction with
  | settled s h => rw [resolve_settled h]
  | branch s kind b bs h ih =>
    obtain ⟨shape, nullable, annotations, constraints, format, description⟩ := b
    rw [resolve_branch h, ih, h, Shape.modelType, branchesModelType]

theorem itemValidators_resolve (settings : Settings) (s : Schema) :
    s.resolve.shape.itemValidators settings = s.shape.itemValidators settings := by
  induction s using branch_induction with
  | settled s h => rw [resolve_settled h]
  | branch s kind b bs h ih =>
    obtain ⟨shape, nullable, annotations, constraints, format, description⟩ := b
    rw [resolve_branch h, ih, h, Shape.itemValidators, branchesItemValidators]

def items? (s : Schema) : Option Schema :=
  match s.resolve.shape with
  | .array items => some items
  | _ => none

theorem items?_eq_some_iff {items : Schema} :
    s.items? = some items ↔ s.resolve.shape = .array items := by
  rw [items?]
  constructor
  · intro h
    split at h
    · rename_i hs
      rw [hs, Option.some.inj h]
    · cases h
  · intro h
    rw [h]

theorem sizeOf_items_lt {items : Schema} (h : s.items? = some items) : sizeOf items < sizeOf s := by
  have hresolve := sizeOf_resolve_le s
  have hshape := sizeOf_shape_lt s.resolve
  rw [items?_eq_some_iff.mp h, Shape.array.sizeOf_spec] at hshape
  omega

def spine (s : Schema) : List Schema :=
  match _h : s.items? with
  | some items => s :: spine items
  | none => [s]
termination_by sizeOf s
decreasing_by exact sizeOf_items_lt ‹_›

theorem spine_single (h : s.items? = none) : s.spine = [s] := by
  rw [spine]
  split
  · simp_all
  · rfl

theorem spine_list {items : Schema} (h : s.items? = some items) :
    s.spine = s :: items.spine := by
  rw [spine]
  split
  · simp_all
  · simp_all

theorem spine_zero (s : Schema) : s.spine[0]? = some s := by
  cases h : s.items? with
  | none => rw [spine_single h, List.getElem?_cons_zero]
  | some items => rw [spine_list h, List.getElem?_cons_zero]

end TypedClient.Schema
