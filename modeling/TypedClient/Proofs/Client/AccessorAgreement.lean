import TypedClient.Client.Entity
import TypedClient.Proofs.Client.ValidatorSpines
import TypedClient.Proofs.Module.SettledBindings

namespace TypedClient.Proofs.AccessorAgreement

open TypedClient.Module TypedClient.Proofs.DraftWork TypedClient.Proofs.DraftImports
open TypedClient.Proofs.SchemaWork TypedClient.Proofs.ValidatorSpines
open TypedClient.Proofs.SettledBindings

def head? : TypeExpr → Option String
  | .reference name => some name
  | .generic name _ => some name
  | _ => none

def Constructions (es : List Expr) : Prop :=
  ∀ e ∈ es, ∃ callee args, e = .construct callee args

/-- A model type and validators of a schema that agree in a draft, at each list inside. -/
inductive Agrees (settings : Settings) (d : Draft) : Schema → TypeExpr → List Expr → Prop
  | single {s : Schema} {type : TypeExpr} {rest : List Expr} (hs : s.items? = none)
      (hrest : Constructions rest) : Agrees settings d s type (.bool s.nullable :: rest)
  | list {s items : Schema} {model itemModel : String} {item itemType : TypeExpr}
      {inner rest : List Expr} (hs : s.items? = some items)
      (hmodel : Gives d (formClass settings "ArrayModel") model)
      (hitem : Gives d (items.valueType false) item)
      (hhead : head? itemType = some itemModel)
      (hinner : Agrees settings d items itemType inner)
      (hrest : Constructions rest) :
      Agrees settings d s (.generic model [item, itemType])
        (.bool s.nullable :: .identifier itemModel :: .array inner :: rest)

variable (settings : Settings)

theorem Constructions.append {es fs : List Expr} (h : Constructions es) (h' : Constructions fs) :
    Constructions (es ++ fs) := by
  intro e he
  exact (List.mem_append.mp he).elim (h e) (h' e)

theorem Agrees.kept {settings : Settings} {d e : Draft} {s : Schema} {type : TypeExpr}
    {vs : List Expr} (h : Agrees settings d s type vs) (he : Keeps d e) :
    Agrees settings e s type vs := by
  induction h with
  | single hs hrest => exact .single hs hrest
  | list hs hmodel hitem hhead _ hrest ih =>
    exact .list hs (hmodel.kept he) (hitem.kept he) hhead ih hrest

theorem constructions_of_constructed {d : Draft} {raws : List String} {es : List Expr}
    (h : List.Forall₂ (Constructed settings d) raws es) : Constructions es := by
  induction h with
  | nil => exact fun _ he => nomatch he
  | cons h _ ih =>
    obtain ⟨A, callee, -, rfl, -⟩ := h
    exact List.forall_mem_cons.mpr ⟨⟨callee, _, rfl⟩, ih⟩

theorem modelType_eq (s : Schema) :
    s.modelType settings = s.resolve.shape.modelType settings := by
  obtain ⟨shape, nullable, annotations, constraints, format, description⟩ := s
  rw [Schema.modelType_resolve, Schema.modelType]

theorem head_modelType (s : Schema) (d : Draft) :
    head? ((s.modelType settings).run d).1 = some ((s.model settings).run d).1 := by
  rw [modelType_eq, ← Schema.model_resolve, Schema.model]
  cases hs : s.resolve.shape with
  | composed kind bs =>
    cases bs with
    | nil =>
      rw [Shape.modelType, Shape.model, branchesModelType, branchesModel]
      rfl
    | cons b bs => exact absurd hs (s.resolved kind b bs)
  | _ =>
    rw [Shape.modelType, Shape.model]
    rfl

theorem modelType_list {s items : Schema} (h : s.items? = some items) :
    s.modelType settings = (do
      let model ← formClass settings "ArrayModel"
      let item ← items.valueType false
      let itemType ← items.modelType settings
      return .generic model [item, itemType]) := by
  rw [modelType_eq, Schema.items?_eq_some_iff.mp h, Shape.modelType]

theorem work_formClass (name : String) : Work (formClass settings name) :=
  .namedImport settings.formModule name false

theorem agrees_run (s : Schema) {d d' e e' : Draft} {type : TypeExpr} {vs : List Expr}
    (htype : (s.modelType settings).run d = (type, d')) (he : Keeps d' e)
    (hvs : (s.validators settings).run.run e = (.ok vs, e')) : Agrees settings d' s type vs := by
  -- along the spine: type and validators both come to the items after what they say of the list
  induction s using Schema.spine.induct generalizing d d' e e' type vs with
  | case1 s items hs ih =>
    rw [validators_eq, hs] at hvs
    obtain ⟨parts, e₁, annotated, constrained, hparts, -, rfl, ha, hc⟩ := following_run hvs
    rw [ofItems, liftM_run_bind] at hparts
    obtain ⟨inner, e₂, hinner, hparts⟩ := run_bind_ok hparts
    cases hparts
    obtain ⟨model, d₁, hmodel, -, hgivesModel⟩ :=
      Work.settles (work_formClass settings "ArrayModel") d
    obtain ⟨item, d₂, hitem, hkeeps₂, hgivesItem⟩ :=
      Work.settles (makes_schema_valueType settings false items).work d₁
    obtain ⟨itemType, d₃, hitemType, hkeeps₃, hgivesType⟩ :=
      Work.settles (makes_schema_modelType settings items).work d₂
    rw [modelType_list settings hs, run_bind, hmodel, run_bind, hitem, run_bind, hitemType] at htype
    cases htype
    -- the model of the items is asked for apart from their type, by then with its class bound
    have hhead := head_modelType settings items e
    rw [hgivesType e he] at hhead
    have hkeeps := Work.keeps (makes_shape_model settings items.shape).work e
    exact .list hs (hgivesModel.kept (hkeeps₂.trans hkeeps₃)) (hgivesItem.kept hkeeps₃) hhead
      (ih hitemType (he.trans hkeeps) hinner)
      ((constructions_of_constructed settings ha).append (constructions_of_constructed settings hc))
  | case2 s hs =>
    rw [validators_eq, hs] at hvs
    obtain ⟨parts, e₁, annotated, constrained, hparts, -, rfl, ha, hc⟩ := following_run hvs
    cases hparts
    exact .single hs ((constructions_of_constructed settings ha).append
      (constructions_of_constructed settings hc))

theorem accessor_run {p : Property} {d d₁ d₂ : Draft} {model : String} {type : TypeExpr}
    (hmodel : (p.schema.model settings).run d = (model, d₁))
    (htype : (p.schema.modelType settings).run d₁ = (type, d₂)) (entity : String) :
    (Entity.accessor settings entity p).run.run d =
      match (p.schema.validators settings).run.run d₂ with
      | (.ok vs, e) => (.ok ⟨p.name, model, type, vs⟩, e)
      | (.error fault, e) => (.error (.validator entity p.name fault), e) := by
  rw [Entity.accessor, liftM_run_bind, hmodel, liftM_run_bind, htype, run_run_bind, run_adapt]
  rcases (p.schema.validators settings).run.run d₂ with ⟨fault | vs, e⟩ <;> rfl

/-- Whatever was imported before, the type of an accessor starts with the model that it looks up. The
accessor is made where all annotations and constraints of the property and of the items inside can be
read, and its type and validators agree then; elsewhere the property is reported. -/
theorem accessor_agrees (entity : String) (p : Property) (d : Draft) :
    ∃ model d₁ type d₂, (p.schema.model settings).run d = (model, d₁) ∧
      (p.schema.modelType settings).run d₁ = (type, d₂) ∧ head? type = some model ∧
      ((∀ s ∈ p.schema.spine, Read (s.annotations ++ s.constraints)) →
        ∃ validators e, (Entity.accessor settings entity p).run.run d =
            (.ok ⟨p.name, model, type, validators⟩, e) ∧
          Agrees settings e p.schema type validators) ∧
      (¬ (∀ s ∈ p.schema.spine, Read (s.annotations ++ s.constraints)) →
        ∃ fault e, (Entity.accessor settings entity p).run.run d =
          (.error (.validator entity p.name fault), e)) := by
  obtain ⟨model, d₁, hmodel, -, hgives⟩ :=
    Work.settles (makes_shape_model settings p.schema.shape).work d
  obtain ⟨type, d₂, htype, -, -⟩ :=
    Work.settles (makes_schema_modelType settings p.schema).work d₁
  have hhead := head_modelType settings p.schema d₁
  rw [htype] at hhead
  have hrun := accessor_run settings hmodel htype entity
  have hchecks := checks_validators settings p.schema d₂
  rw [← read_checked_iff]
  refine ⟨model, d₁, type, d₂, hmodel, htype, ?_, ?_, ?_⟩
  · rw [hhead]
    exact congrArg some (hgives d₁ (Keeps.refl d₁))
  · intro hread
    rcases hvs : (p.schema.validators settings).run.run d₂ with ⟨fault | vs, e⟩
    · rw [hvs] at hchecks
      exact absurd hread hchecks.not_read
    · rw [hvs] at hrun
      have hkeeps := WorkOk.keeps (makes_schema_validators settings p.schema).workOk hvs
      exact ⟨vs, e, hrun, (agrees_run settings p.schema htype (Keeps.refl d₂) hvs).kept hkeeps⟩
  · intro hread
    rcases hvs : (p.schema.validators settings).run.run d₂ with ⟨fault | vs, e⟩
    · rw [hvs] at hrun
      exact ⟨fault, e, hrun⟩
    · rw [hvs] at hchecks
      exact absurd hchecks hread

end TypedClient.Proofs.AccessorAgreement
