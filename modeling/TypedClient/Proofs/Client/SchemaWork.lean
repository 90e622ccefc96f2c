import TypedClient.Proofs.Client.AnnotationGrammar
import TypedClient.Proofs.Client.Mentions
import TypedClient.Proofs.Module.DraftWork

namespace TypedClient.Proofs.SchemaWork

open TypedClient.Module TypedClient.Proofs.DraftWork TypedClient.Proofs.DraftImports
open TypedClient.Proofs.AnnotationGrammar TypedClient.Proofs.Mentions

def formExports : List String :=
  ["ArrayModel", "ObjectModel", "StringModel", "NumberModel", "BooleanModel", "EnumModel", "_enum",
    "_getPropertyModel"] ++ Annotation.knownValidators

variable (settings : Settings)

/-- Work that imports some modules of components, and exports of the form module besides. -/
inductive Makes : {α : Type} → List Mention → Drafting α → Prop
  | pure {α : Type} (a : α) : Makes [] (Pure.pure a : Drafting α)
  | bind {α β : Type} {ms ns : List Mention} {m : Drafting α} {f : α → Drafting β}
      (hm : Makes ms m) (hf : ∀ a, Makes ns (f a)) : Makes (ms ++ ns) (m >>= f)
  | mention (m : Mention) (typeOnly : Bool) :
      Makes [m] (Draft.importFrom (m.location settings) (m.name settings) typeOnly)
  | formClass {name : String} (h : name ∈ formExports) : Makes [] (formClass settings name)

/-- As `Makes`, for work that may fail. Where it does, some of the modules may be left out. -/
inductive MakesOk : {ε α : Type} → List Mention → ExceptT ε Drafting α → Prop
  | pure {ε α : Type} (a : α) : MakesOk [] (Pure.pure a : ExceptT ε Drafting α)
  | throw {ε α : Type} (e : ε) : MakesOk [] (throw e : ExceptT ε Drafting α)
  | lift {ε α : Type} {ms : List Mention} {m : Drafting α} (hm : Makes settings ms m) :
      MakesOk ms (liftM m : ExceptT ε Drafting α)
  | bind {ε α β : Type} {ms ns : List Mention} {m : ExceptT ε Drafting α}
      {f : α → ExceptT ε Drafting β} (hm : MakesOk ms m) (hf : ∀ a, MakesOk ns (f a)) :
      MakesOk (ms ++ ns) (m >>= f)
  | adapt {ε ε' α : Type} {ms : List Mention} {m : ExceptT ε Drafting α} (hm : MakesOk ms m)
      (g : ε → ε') : MakesOk ms (m.adapt g)

section Combinators

variable {settings} {α β ε : Type} {ms : List Mention}

theorem Makes.map {m : Drafting α} (hm : Makes settings ms m) (f : α → β) :
    Makes settings ms (m >>= fun a => Pure.pure (f a)) :=
  List.append_nil ms ▸ hm.bind fun a => pure (f a)

theorem MakesOk.map {m : ExceptT ε Drafting α} (hm : MakesOk settings ms m) (f : α → β) :
    MakesOk settings ms (m >>= fun a => Pure.pure (f a)) :=
  List.append_nil ms ▸ hm.bind fun a => pure (f a)

theorem MakesOk.mapM {f : α → ExceptT ε Drafting β} {mentioned : α → List Mention}
    (hf : ∀ a, MakesOk settings (mentioned a) (f a)) (as : List α) :
    MakesOk settings (as.flatMap mentioned) (as.mapM f) := by
  induction as with
  | nil => exact pure []
  | cons a as ih =>
    rw [List.mapM_cons, List.flatMap_cons]
    exact (hf a).bind fun _ => ih.map _

end Combinators

section Schemas

theorem makes_importType (r : Reference) : Makes settings [⟨.type, r⟩] r.importType :=
  .mention ⟨.type, r⟩ true

theorem makes_importModel (r : Reference) :
    Makes settings [⟨.model, r⟩] (r.importModel settings) :=
  .mention ⟨.model, r⟩ false

mutual

theorem makes_shape_valueType (mark : Bool) :
    ∀ s : Shape, Makes settings (shapeTypes s) (s.valueType mark)
  | .reference r => (makes_importType settings r).map _
  | .array items => (makes_schema_valueType mark items).map _
  | .map values => (makes_schema_valueType mark values).map _
  | .composed _ branches => makes_branches_valueType mark branches
  | .anyMap => .pure _
  | .text _ => .pure _
  | .number => .pure _
  | .integer => .pure _
  | .boolean => .pure _
  | .object _ => .pure _
  | .unknown => .pure _

theorem makes_schema_valueType (mark : Bool) :
    ∀ s : Schema, Makes settings (schemaTypes s) (s.valueType mark)
  | ⟨shape, _, _, _, _, _⟩ => (makes_shape_valueType mark shape).map _

theorem makes_branches_valueType (mark : Bool) :
    ∀ ss : List Schema, Makes settings (branchTypes ss) (branchesValueType mark ss)
  | [] => .pure _
  | ⟨shape, _, _, _, _, _⟩ :: _ => makes_shape_valueType mark shape

end

mutual

theorem makes_shape_model : ∀ s : Shape, Makes settings (shapeModels s) (s.model settings)
  | .reference r => makes_importModel settings r
  | .composed _ branches => makes_branches_model branches
  | .array _ => .formClass (by decide)
  | .map _ => .formClass (by decide)
  | .anyMap => .formClass (by decide)
  | .text _ => .formClass (by decide)
  | .number => .formClass (by decide)
  | .integer => .formClass (by decide)
  | .boolean => .formClass (by decide)
  | .object _ => .formClass (by decide)
  | .unknown => .formClass (by decide)

theorem makes_branches_model :
    ∀ ss : List Schema, Makes settings (branchModels ss) (branchesModel settings ss)
  | [] => .formClass (by decide)
  | ⟨shape, _, _, _, _, _⟩ :: _ => makes_shape_model shape

end

theorem makes_genericClass {name : String} (h : name ∈ formExports) (args : List TypeExpr) :
    Makes settings [] (genericClass settings name args) :=
  (Makes.formClass h).map fun model => TypeExpr.generic model args

theorem makes_reference {name : String} (h : name ∈ formExports) :
    Makes settings [] (do return TypeExpr.reference (← formClass settings name)) :=
  (Makes.formClass h).map _

mutual

theorem makes_shape_modelType :
    ∀ s : Shape, Makes settings (shapeModelTypes s) (s.modelType settings)
  | .reference r => (makes_importModel settings r).map _
  | .array items => (Makes.formClass (by decide)).bind fun _ =>
      (makes_schema_valueType settings false items).bind fun _ => (makes_schema_modelType items).map _
  | .map values => (Makes.formClass (by decide)).bind fun _ =>
      (makes_schema_valueType settings false values).map _
  | .composed _ branches => makes_branches_modelType branches
  | .anyMap => makes_genericClass settings (by decide) _
  | .text _ => makes_reference settings (by decide)
  | .number => makes_reference settings (by decide)
  | .integer => makes_reference settings (by decide)
  | .boolean => makes_reference settings (by decide)
  | .object _ => makes_genericClass settings (by decide) _
  | .unknown => makes_genericClass settings (by decide) _

theorem makes_schema_modelType :
    ∀ s : Schema, Makes settings (schemaModelTypes s) (s.modelType settings)
  | ⟨shape, _, _, _, _, _⟩ => makes_shape_modelType shape

theorem makes_branches_modelType :
    ∀ ss : List Schema, Makes settings (branchModelTypes ss) (branchesModelType settings ss)
  | [] => makes_genericClass settings (by decide) _
  | ⟨shape, _, _, _, _, _⟩ :: _ => makes_shape_modelType shape

end

theorem of_parse {raw : String} {a : Annotation} (h : Annotation.parse raw = .ok a) :
    a.name ∈ Annotation.knownValidators ∧
      ∃ rest, Annotation.argument? raw rest = .ok a.argument := by
  obtain ⟨hknown, rest, hrest⟩ := (written_of_parse h).parts
  exact ⟨hknown, rest, argument?_eq_ok_iff.mpr hrest⟩

theorem makes_constructValidator (raw : String) :
    MakesOk settings [] (constructValidator settings raw) := by
  rw [constructValidator]
  cases hparse : Annotation.parse raw with
  | error fault => exact .throw fault
  | ok a =>
    have hname : a.name ∈ formExports := List.mem_append_right _ (of_parse hparse).1
    exact (MakesOk.lift (.formClass hname)).map _

theorem makes_constructValidators (raws : List String) :
    MakesOk settings [] (raws.mapM (constructValidator settings)) := by
  have h := MakesOk.mapM (makes_constructValidator settings) raws
  rwa [List.flatMap_eq_nil_iff.mpr fun _ _ => rfl] at h

mutual

theorem makes_shape_itemValidators :
    ∀ s : Shape, MakesOk settings (shapeItems s) (s.itemValidators settings)
  | .array items => (MakesOk.lift (makes_shape_model settings items.shape)).bind fun _ =>
      (makes_schema_validators items).map _
  | .composed _ branches => makes_branches_itemValidators branches
  | .reference _ => .pure _
  | .map _ => .pure _
  | .anyMap => .pure _
  | .text _ => .pure _
  | .number => .pure _
  | .integer => .pure _
  | .boolean => .pure _
  | .object _ => .pure _
  | .unknown => .pure _

theorem makes_schema_validators :
    ∀ s : Schema, MakesOk settings (schemaItems s) (s.validators settings)
  | ⟨shape, nullable, annotations, constraints, _, _⟩ => by
    have h := (makes_shape_itemValidators shape).bind fun items =>
      (makes_constructValidators settings annotations).bind fun annotated =>
        (makes_constructValidators settings constraints).map fun constrained =>
          Expr.bool nullable :: items ++ annotated ++ constrained
    rwa [List.append_nil, List.append_nil] at h

theorem makes_branches_itemValidators :
    ∀ ss : List Schema, MakesOk settings (branchItems ss) (branchesItemValidators settings ss)
  | [] => .pure _
  | ⟨shape, _, _, _, _, _⟩ :: _ => makes_shape_itemValidators shape

end

end Schemas

section Work

variable {settings} {α ε : Type} {ms : List Mention}

theorem Makes.work {m : Drafting α} (h : Makes settings ms m) : Work m := by
  induction h with
  | pure a => exact .pure a
  | bind hm hf ihm ihf => exact .bind ihm ihf
  | mention m typeOnly => exact .importFrom _ _ _
  | formClass h => exact .namedImport _ _ _

theorem MakesOk.workOk {m : ExceptT ε Drafting α} (h : MakesOk settings ms m) : WorkOk m := by
  induction h with
  | pure a => exact .pure a
  | throw e => exact .throw e
  | lift hm => exact .lift hm.work
  | bind hm hf ihm ihf => exact .bind ihm ihf
  | adapt hm g ih => exact ih.adapt g

end Work

end TypedClient.Proofs.SchemaWork
