import TypedClient.Proofs.Client.SchemaWork

namespace TypedClient.Entity

open TypedClient.Module TypedClient.Proofs.DraftImports

def propertyTypes : List Property → Drafting (List TypeExpr)
  | [] => return []
  | p :: ps => do
    let type ← p.schema.valueType true
    let rest ← propertyTypes ps
    return type :: rest

/-- The parts of a type module. An enumeration has no others than its name. -/
structure TypeParts where
  name : String
  parent : Option String
  types : List TypeExpr

def typeParts (e : Entity) (name : String) : Drafting TypeParts :=
  match e.body with
  | .choices _ => return ⟨name, none, []⟩
  | .object properties => do
    let parent ← parentType e.parent
    return ⟨name, parent, ← propertyTypes properties⟩

def typeText (e : Entity) (t : TypeParts) : String :=
  match e.body with
  | .choices values => enumText t.name values
  | .object properties => interfaceText (e.description.getD "") t.name t.parent
      (properties.zipWith propertyText t.types)

/-- The parts of a model module. The key is that of an enumeration's values, or of the models of
properties. -/
structure ModelParts where
  name : String
  type : String
  base : String
  key : String
  accessors : List Accessor

def modelParts (e : Entity) (settings : Settings) (name : String) : Building ModelParts :=
  match e.body with
  | .choices _ => do
    let type ← Draft.importFrom e.reference.location e.reference.typeName false
    let base ← formClass settings "EnumModel"
    let key ← formClass settings "_enum"
    return ⟨name, type, base, key, []⟩
  | .object properties => do
    let type ← e.reference.importType
    let base ← baseModel settings e.parent
    let key ← formClass settings "_getPropertyModel"
    return ⟨name, type, base, key, ← properties.mapM (accessor settings e.name)⟩

def modelDeclaration (e : Entity) (m : ModelParts) : String :=
  match e.body with
  | .choices _ => enumModelText m.name m.type m.base m.key
  | .object _ => modelText m.name m.type m.base m.key m.accessors

theorem propertyTexts_eq (ps : List Property) :
    propertyTexts ps = do return ps.zipWith propertyText (← propertyTypes ps) := by
  induction ps with
  | nil => rfl
  | cons p ps ih => simp [propertyTexts, propertyTypes, ih]

theorem buildType_eq (e : Entity) :
    e.buildType = (do
      let t ← e.typeParts (← Draft.bindOwn e.reference.typeName)
      Draft.declare (e.typeText t)) := by
  rw [buildType]
  congr 1
  funext name
  unfold typeParts typeText
  cases e.body with
  | choices values => rfl
  | object properties => simp [propertyTexts_eq]

theorem buildModel_eq (e : Entity) (settings : Settings) :
    e.buildModel settings = (do
      let m ← e.modelParts settings
        (← Draft.bindOwn (e.reference.typeName ++ settings.modelSuffix))
      Draft.declare (e.modelDeclaration m)) := by
  rw [buildModel]
  congr 1
  funext name
  unfold modelParts modelDeclaration
  cases e.body with
  | choices values => simp
  | object properties => simp

def madeType (e : Entity) (source : String) : TypeParts × Draft :=
  (do e.typeParts (← Draft.bindOwn e.reference.typeName) : Drafting TypeParts).run
    { location := e.reference.location, source }

theorem typeDraft_eq {e : Entity} {source : String} {t : TypeParts} {d : Draft}
    (h : e.madeType source = (t, d)) :
    e.typeDraft source = { d with declarations := d.declarations ++ [e.typeText t] } := by
  rw [madeType] at h
  rw [typeDraft, buildType_eq, ← bind_assoc, run_bind, h]
  rfl

def madeModel (e : Entity) (settings : Settings) (source : String) :
    Except Fault ModelParts × Draft :=
  (do e.modelParts settings (← Draft.bindOwn (e.reference.typeName ++ settings.modelSuffix)) :
    Building ModelParts).run.run { location := e.modelLocation settings, source }

theorem modelDraft_eq {e : Entity} {settings : Settings} {source : String} {m : ModelParts}
    {d : Draft} (h : e.madeModel settings source = (.ok m, d)) :
    e.modelDraft settings source =
      .ok { d with declarations := d.declarations ++ [e.modelDeclaration m] } := by
  rw [madeModel] at h
  rw [modelDraft, buildModel_eq, ← bind_assoc, run_run_bind, h]
  rfl

theorem exists_madeModel {e : Entity} {settings : Settings} {source : String} {D : Draft}
    (h : e.modelDraft settings source = .ok D) :
    ∃ m d, e.madeModel settings source = (.ok m, d) ∧
      D = { d with declarations := d.declarations ++ [e.modelDeclaration m] } := by
  rcases hmade : e.madeModel settings source with ⟨fault | m, d⟩
  · rw [madeModel] at hmade
    rw [modelDraft, buildModel_eq, ← bind_assoc, run_run_bind, hmade] at h
    cases h
  · rw [modelDraft_eq hmade] at h
    exact ⟨m, d, rfl, (Except.ok.inj h).symm⟩

end TypedClient.Entity

namespace TypedClient.Proofs.EntityParts

open TypedClient.Module TypedClient.Entity TypedClient.Proofs.DraftWork TypedClient.Proofs.Mentions
open TypedClient.Proofs.SchemaWork

variable (settings : Settings)

theorem makes_propertyTypes (ps : List Property) :
    Makes settings (ps.flatMap fun p => schemaTypes p.schema) (propertyTypes ps) := by
  induction ps with
  | nil => exact .pure _
  | cons p ps ih => exact (makes_schema_valueType settings true p.schema).bind fun _ => ih.map _

theorem makes_parentType (parent : Option Reference) :
    Makes settings (parent.toList.map (Mention.mk .type)) (parentType parent) := by
  cases parent with
  | none => exact .pure _
  | some r => exact (makes_importType settings r).map _

theorem makes_baseModel (parent : Option Reference) :
    Makes settings (parent.toList.map (Mention.mk .model)) (baseModel settings parent) := by
  cases parent with
  | none => exact .formClass (by decide)
  | some r => exact makes_importModel settings r

theorem makes_accessor (entity : String) (p : Property) :
    MakesOk settings (accessorMentions p) (accessor settings entity p) := by
  have h := (MakesOk.lift (ε := Fault) (makes_shape_model settings p.schema.shape)).bind
    fun model => (MakesOk.lift (makes_schema_modelType settings p.schema)).bind fun modelType =>
      ((makes_schema_validators settings p.schema).adapt (Fault.validator entity p.name)).map
        fun validators => Accessor.mk p.name model modelType validators
  rwa [← List.append_assoc] at h

theorem makes_accessors (entity : String) (ps : List Property) :
    MakesOk settings (ps.flatMap accessorMentions) (ps.mapM (accessor settings entity)) :=
  MakesOk.mapM (makes_accessor settings entity) ps

theorem makes_typeParts (e : Entity) (name : String) :
    Makes settings (mentions e .type) (e.typeParts name) := by
  unfold mentions typeParts
  cases e.body with
  | choices values => exact .pure _
  | object properties =>
    exact (makes_parentType settings e.parent).bind fun _ =>
      (makes_propertyTypes settings properties).map _

theorem makes_modelParts (e : Entity) (name : String) :
    MakesOk settings (mentions e .model) (e.modelParts settings name) := by
  unfold mentions modelParts
  cases e.body with
  | choices values =>
    exact (MakesOk.lift (.mention ⟨.type, e.reference⟩ false)).bind fun _ =>
      (MakesOk.lift (.formClass (by decide))).bind fun _ =>
        (MakesOk.lift (.formClass (by decide))).map _
  | object properties =>
    have hkey : "_getPropertyModel" ∈ formExports := by decide
    have h := (MakesOk.lift (ε := Fault) (makes_importType settings e.reference)).bind fun type =>
      (MakesOk.lift (makes_baseModel settings e.parent)).bind fun base =>
        (MakesOk.lift (.formClass hkey)).bind fun key =>
          (makes_accessors settings e.name properties).map fun accessors =>
            ModelParts.mk name type base key accessors
    exact h

end TypedClient.Proofs.EntityParts
