import TypedClient.Document.Reading
import TypedClient.Proofs.Client.SchemaNames
import TypedClient.Proofs.Client.SchemaReading
import TypedClient.Proofs.Document.EntityParents

namespace TypedClient.Proofs.DeclaredValidators

open TypedClient.Module TypedClient.Entity TypedClient.Proofs.DraftWork
open TypedClient.Proofs.DraftImports TypedClient.Proofs.SchemaReading
open TypedClient.Proofs.EntityParts TypedClient.Proofs.SchemaNames TypedClient.Proofs.ValidatorSpines

def HasComponent (doc : Json) (name : String) (component : Json) : Prop :=
  ∃ members, (doc.get? "components").bind (Json.get? "schemas") = some (.object members) ∧
    (name, component) ∈ members

inductive Declares (component : Json) (name : String) (property : Json) : Prop
  | own (h : HasProperty component name property)
  | branch {branches : List Json} {b : Json} (h : HasBranches component branches)
      (hb : b ∈ branches) (hp : HasProperty b name property)

/-- The items of a schema that is a list, or whose first branch that admits more than null is one. -/
inductive ItemsOf : Json → Json → Prop
  | list {schema items : Json} (h : HasItems schema items) : ItemsOf schema items
  | branch {schema b items : Json} {bs : List Json} (h : HasBranches schema (b :: bs))
      (hb : ItemsOf b items) : ItemsOf schema items

inductive AtDepth : Nat → Json → Json → Prop
  | here (schema : Json) : AtDepth 0 schema schema
  | items {k : Nat} {schema items inner : Json} (h : ItemsOf schema items)
      (hi : AtDepth k items inner) : AtDepth (k + 1) schema inner

/-- The validators at a depth: those of items stand in brackets behind the model of the items. -/
def level : Nat → List Expr → List Expr
  | 0, vs => vs
  | k + 1, _ :: .identifier _ :: .array inner :: _ => level k inner
  | _ + 1, _ => []

/-- One construction for each entry of a list, and none for anything else. -/
inductive MadeOf (settings : Settings) (d : Draft) : Option Json → List Expr → Prop
  | entries {js : List Json} {es : List Expr} (h : List.Forall₂
      (fun j => Constructed settings d (Schema.annotationText j)) js es) :
      MadeOf settings d (some (.array js)) es
  | other {value : Option Json} (h : ∀ js, value ≠ some (.array js)) : MadeOf settings d value []

/-- A value that declares something is made into constructions just when it is a list. -/
def ListOnly (value : Option Json) (es : List Expr) : Prop :=
  ∀ j, value = some j → j ≠ .null → j ≠ .array [] → (es ≠ [] ↔ ∃ js, j = .array js)

variable {settings : Settings} {source : String} {d : Draft}

theorem ItemsOf.read {schema items : Json} (h : ItemsOf schema items) :
    (Schema.ofJson schema).items? = some (Schema.ofJson items) := by
  rw [Schema.items?_eq_some_iff]
  induction h with
  | list h =>
    have hs := h.read
    have hsettled := Schema.resolve_settled fun _ _ _ hc => nomatch hs.symm.trans hc
    rw [hsettled, hs]
  | branch h _ ih =>
    obtain ⟨kind, hs⟩ := h.read
    rw [Schema.resolve_branch hs, ih]

theorem AtDepth.read {k : Nat} {schema inner : Json} (h : AtDepth k schema inner) :
    (Schema.ofJson schema).spine[k]? = some (Schema.ofJson inner) := by
  induction h with
  | here schema => exact Schema.spine_zero _
  | items h _ ih => rw [Schema.spine_list h.read, List.getElem?_cons_succ, ih]

theorem mem_branchProperties_iff {branches : List Json} {name : String} {s : Schema} :
    (∃ p ∈ Document.branchProperties (branches.map Schema.ofJson), p.name = name ∧ p.schema = s) ↔
      ∃ property, (∃ b ∈ branches, HasProperty b name property) ∧ s = Schema.ofJson property := by
  have hmem (p : Property) : p ∈ Document.branchProperties (branches.map Schema.ofJson) ↔
      ∃ b ∈ branches, ∃ properties, (Schema.ofJson b).shape = .object properties ∧
        p ∈ properties := by
    rw [Document.branchProperties, List.flatMap_map, List.mem_flatMap]
    refine exists_congr fun b => and_congr_right fun _ => ?_
    cases (Schema.ofJson b).shape with
    | object properties => simp
    | _ => simp
  simp only [hmem]
  constructor
  · rintro ⟨p, ⟨b, hb, properties, hs, hp⟩, hread⟩
    obtain ⟨property, h, hschema⟩ := (mem_properties_iff hs).mp ⟨p, hp, hread⟩
    exact ⟨property, ⟨b, hb, h⟩, hschema⟩
  · rintro ⟨property, ⟨b, hb, h⟩, hschema⟩
    obtain ⟨properties, -, hs, -⟩ := id h
    obtain ⟨p, hp, hread⟩ := (mem_properties_iff hs).mpr ⟨property, h, hschema⟩
    exact ⟨p, ⟨b, hb, properties, hs, hp⟩, hread⟩

theorem Declares.shape {component property : Json} {name : String}
    (h : Declares component name property) :
    (∃ properties, (Schema.ofJson component).shape = .object properties) ∨
      ∃ kind schemas, (Schema.ofJson component).shape = .composed kind schemas := by
  cases h with
  | own h =>
    obtain ⟨properties, -, hs, -⟩ := h
    exact .inl ⟨properties, hs⟩
  | branch h hb hp =>
    obtain ⟨kind, hs⟩ := h.read
    exact .inr ⟨kind, _, hs⟩

theorem Declares.body {component property : Json} {name : String}
    (h : Declares component name property) (full : String) :
    ∃ properties, (Document.readEntity full component).body = .object properties := by
  rw [Document.readEntity]
  obtain ⟨properties, hs⟩ | ⟨kind, schemas, hs⟩ := h.shape
  · exact ⟨properties, by rw [hs]⟩
  · exact ⟨Document.branchProperties schemas, by rw [hs]⟩

theorem declares_object_iff {component property : Json} {name : String} {properties : List Property}
    (hs : (Schema.ofJson component).shape = .object properties) :
    Declares component name property ↔ HasProperty component name property := by
  refine ⟨fun h => ?_, .own⟩
  cases h with
  | own h => exact h
  | branch h hb hp =>
    obtain ⟨kind, hc⟩ := h.read
    cases hs.symm.trans hc

theorem declares_composed_iff {component property : Json} {name : String} {branches : List Json}
    (hb : HasBranches component branches) :
    Declares component name property ↔ ∃ b ∈ branches, HasProperty b name property := by
  refine ⟨fun h => ?_, fun ⟨b, hmem, hp⟩ => .branch hb hmem hp⟩
  cases h with
  | own h =>
    obtain ⟨properties, -, ho, -⟩ := h
    obtain ⟨kind, hs⟩ := hb.read
    cases hs.symm.trans ho
  | branch hb' hmem hp =>
    obtain rfl := hb.unique hb'
    exact ⟨_, hmem, hp⟩

theorem mem_readEntity_iff {component : Json} {full name : String} {properties : List Property}
    {s : Schema} (hbody : (Document.readEntity full component).body = .object properties) :
    (∃ p ∈ properties, p.name = name ∧ p.schema = s) ↔
      ∃ property, Declares component name property ∧ s = Schema.ofJson property := by
  rw [Document.readEntity] at hbody
  -- any other component has an entity without properties and declares none
  have hnone (hempty : EntityBody.object [] = .object properties)
      (hshape : ¬ ((∃ properties, (Schema.ofJson component).shape = .object properties) ∨
        ∃ kind schemas, (Schema.ofJson component).shape = .composed kind schemas)) :
      (∃ p ∈ properties, p.name = name ∧ p.schema = s) ↔
        ∃ property, Declares component name property ∧ s = Schema.ofJson property := by
    obtain rfl := EntityBody.object.inj hempty
    constructor
    · rintro ⟨p, hp, -⟩
      cases hp
    · rintro ⟨property, h, -⟩
      exact absurd h.shape hshape
  cases hs : (Schema.ofJson component).shape with
  | object ps =>
    rw [hs] at hbody
    obtain rfl := EntityBody.object.inj hbody
    simp only [declares_object_iff hs, mem_properties_iff hs]
  | composed kind schemas =>
    rw [hs] at hbody
    obtain rfl := EntityBody.object.inj hbody
    obtain ⟨branches, hbranches, rfl⟩ := exists_hasBranches hs
    simp only [declares_composed_iff hbranches, mem_branchProperties_iff]
  | text cs =>
    rw [hs] at hbody hnone
    cases cs with
    | nil => exact hnone hbody (by simp)
    | cons c cs => cases hbody
  | _ =>
    rw [hs] at hbody hnone
    exact hnone hbody (by simp)

theorem readEntity_mem {doc component : Json} {D : Document} {name : String}
    (hdoc : Document.ofJson doc = .ok D) (h : HasComponent doc name component) :
    Document.readEntity name component ∈ D.entities := by
  obtain ⟨members, hmembers, hmem⟩ := h
  rw [EntityParents.entities_eq hdoc, EntityParents.components, hmembers]
  exact List.mem_map_of_mem (f := fun m => Document.readEntity m.1 m.2) hmem

theorem level_validates {s n : Schema} {vs : List Expr} {k : Nat}
    (h : Validates settings d s vs) (hn : s.spine[k]? = some n) :
    Validates settings d n (level k vs) := by
  induction k generalizing s vs with
  | zero =>
    rw [Schema.spine_zero] at hn
    rwa [← Option.some.inj hn, level]
  | succ k ih =>
    cases h with
    | single hs ha hc =>
      rw [Schema.spine_single hs] at hn
      cases hn
    | list hs hm hi ha hc =>
      rw [Schema.spine_list hs, List.getElem?_cons_succ] at hn
      exact ih hi hn

theorem MadeOf.listOnly {value : Option Json} {es : List Expr} (h : MadeOf settings d value es) :
    ListOnly value es := by
  rintro j rfl - hne
  cases h with
  | entries h =>
    refine ⟨fun _ => ⟨_, rfl⟩, fun _ hes => hne ?_⟩
    rw [hes] at h
    cases h
    rfl
  | other h =>
    refine ⟨fun hes => absurd rfl hes, ?_⟩
    rintro ⟨js, rfl⟩
    exact absurd rfl (h js)

theorem madeOf_texts {value : Option Json} {es : List Expr}
    (h : List.Forall₂ (Constructed settings d) (Schema.annotationTexts value) es) :
    MadeOf settings d value es := by
  by_cases hlist : ∃ js, value = some (.array js)
  · obtain ⟨js, rfl⟩ := hlist
    exact .entries (List.forall₂_map_left_iff.mp h)
  · have hnone : value.bind Json.array? = none := by
      cases value with
      | none => rfl
      | some j =>
        cases j with
        | array js => exact absurd ⟨js, rfl⟩ hlist
        | _ => rfl
    rw [Schema.annotationTexts, hnone] at h
    cases h
    exact .other fun js hjs => hlist ⟨js, hjs⟩

/-- The validators of a schema of a document: whether it admits null, what a list adds, and what its
annotations and constraints are made into. -/
def Holds (settings : Settings) (d : Draft) (schema : Json) (vs : List Expr) : Prop :=
  ∃ nullable items annotated constrained,
    vs = .bool nullable :: items ++ annotated ++ constrained ∧
    (items = [] ∨ ∃ model inner, items = [.identifier model, .array inner]) ∧
    MadeOf settings d (schema.get? "x-annotations") annotated ∧
    MadeOf settings d (schema.get? "x-validation-constraints") constrained ∧
    ListOnly (schema.get? "x-annotations") annotated ∧
    ListOnly (schema.get? "x-validation-constraints") constrained

theorem holds_of_validates {schema : Json} {vs : List Expr}
    (h : Validates settings d (Schema.ofJson schema) vs) : Holds settings d schema vs := by
  obtain ⟨hannotations, hconstraints⟩ := annotations_ofJson schema
  have hmade {items annotated constrained : List Expr}
      (hi : items = [] ∨ ∃ model inner, items = [.identifier model, .array inner])
      (ha : List.Forall₂ (Constructed settings d) (Schema.ofJson schema).annotations annotated)
      (hc : List.Forall₂ (Constructed settings d) (Schema.ofJson schema).constraints constrained) :
      Holds settings d schema (.bool (Schema.ofJson schema).nullable :: items ++ annotated ++
        constrained) := by
    rw [hannotations] at ha
    rw [hconstraints] at hc
    exact ⟨_, items, annotated, constrained, rfl, hi, madeOf_texts ha, madeOf_texts hc,
      (madeOf_texts ha).listOnly, (madeOf_texts hc).listOnly⟩
  cases h with
  | single hs ha hc => exact hmade (.inl rfl) ha hc
  | list hs hm hi ha hc => exact hmade (.inr ⟨_, _, rfl⟩) ha hc

theorem madeModel_accessors {e : Entity} {properties : List Property} {m : ModelParts}
    (hbody : e.body = .object properties) (h : e.madeModel settings source = (.ok m, d)) :
    d.declarations = [] ∧ List.Forall₂ (Accesses settings d) properties m.accessors := by
  rw [madeModel, liftM_run_bind] at h
  have hgrows := (makes_modelParts settings e _).workOk.grows h
  refine ⟨hgrows.declarations, ?_⟩
  simp only [modelParts, hbody, liftM_run_bind] at h
  obtain ⟨accessors, d₁, haccessors, h⟩ := run_bind_ok h
  obtain ⟨hm, rfl⟩ := Prod.mk.inj h
  rw [← Except.ok.inj hm]
  exact (accessors_run haccessors).2

/-- The model of a component has an accessor for each property that it declares, unless a validator is
at fault. At each depth of items the accessor holds what is declared there as a list of entries, one
construction each; a value that is no list has none. -/
theorem declared_validators_kept {doc component property inner : Json} {D : Document}
    {name key : String} {k : Nat} (hdoc : Document.ofJson doc = .ok D)
    (hcomponent : HasComponent doc name component) (hproperty : Declares component key property)
    (hinner : AtDepth k property inner) (settings : Settings) (source : String) :
    ∃ e ∈ D.entities, e.reference = Reference.toComponent name ∧
      ((∃ entity property fault,
        e.modelDraft settings source = .error (.validator entity property fault)) ∨
      ∃ model own type base lookup accessors, e.modelDraft settings source = .ok model ∧
        model.declarations = [modelText own type base lookup accessors] ∧
        ∃ a ∈ accessors, a.name = key ∧ Holds settings model inner (level k a.validators)) := by
  obtain ⟨properties, hbody⟩ := hproperty.body name
  obtain ⟨p, hp, rfl, hschema⟩ := (mem_readEntity_iff hbody).mpr ⟨property, hproperty, rfl⟩
  refine ⟨_, readEntity_mem hdoc hcomponent, rfl, ?_⟩
  generalize Document.readEntity name component = e at hbody
  cases hmodel : e.modelDraft settings source with
  | error fault =>
    obtain ⟨entity, property, cause⟩ := fault
    exact .inl ⟨entity, property, cause, rfl⟩
  | ok model =>
    obtain ⟨m, d, hmade, rfl⟩ := exists_madeModel hmodel
    obtain ⟨hdeclarations, haccessors⟩ := madeModel_accessors hbody hmade
    obtain ⟨⟨i, hi⟩, rfl⟩ := List.get_of_mem hp
    have haccesses := haccessors.get hi (haccessors.length_eq ▸ hi)
    have hvalidates := haccesses.validators
    rw [hschema] at hvalidates
    refine .inr ⟨_, m.name, m.type, m.base, m.key, m.accessors, rfl, ?_, _, List.get_mem _ _, haccesses.name,
      holds_of_validates (level_validates (hvalidates.declared _) hinner.read)⟩
    simp only [hdeclarations, modelDeclaration, hbody, List.nil_append]

def account (key : String) (property : Json) : Json :=
  .object [("type", .string "object"), ("properties", .object [(key, property)])]

def document (component : Json) : Json :=
  .object [("openapi", .string "3.0.0"),
    ("components", .object [("schemas", .object [("Account", component)])])]

theorem hasComponent_document (component : Json) :
    HasComponent (document component) "Account" component :=
  ⟨_, rfl, List.mem_singleton_self _⟩

theorem declares_account (key : String) (property : Json) :
    Declares (account key property) key property := by
  have hlookup : (account key property).get? "properties" = some (.object [(key, property)]) := rfl
  exact .own ⟨_, _, rfl, hlookup, List.mem_singleton_self _⟩

def tag : Json :=
  .object [("type", .string "string"), ("x-annotations", .array [.string "NotBlank"])]

def listOf (items : Json) : Json :=
  .object [("type", .string "array"), ("items", items)]

def orNull (schema : Json) : Json :=
  .object [("oneOf", .array [.object [("type", .string "null")], schema])]

def tags : Json :=
  listOf (orNull (listOf tag))

theorem hasItems_listOf (items : Json) : HasItems (listOf items) items :=
  ⟨_, rfl, rfl⟩

theorem tag_atDepth : AtDepth 2 tags tag := by
  have hbranches : HasBranches (orNull (listOf tag)) [listOf tag] := ⟨.oneOf, _, _, rfl, rfl, rfl⟩
  have hitems : ItemsOf (orNull (listOf tag)) tag := .branch hbranches (.list (hasItems_listOf tag))
  exact .items (.list (hasItems_listOf _)) (.items hitems (.here tag))

/-- The validator of the tags stands in two pairs of brackets. -/
theorem tags_not_blank :
    ∃ (model : Draft) (own type base lookup : String) (accessors : List Accessor) (a : Accessor)
      (nullable : Bool) (items : List Expr) (callee : String),
      ((Document.readEntity "Account" (account "tags" tags)).modelDraft {} "api") = .ok model ∧
      model.declarations = [modelText own type base lookup accessors] ∧ a ∈ accessors ∧
      a.name = "tags" ∧ level 2 a.validators = .bool nullable :: items ++ [.construct callee []] ∧
      BindsValue model "@clientgen/form" (.named "NotBlank") callee := by
  have hok : ((Document.readEntity "Account" (account "tags" tags)).modelDraft {} "api").toBool =
      true := by
    decide +kernel
  have hdoc : Document.ofJson (document (account "tags" tags)) =
      .ok ⟨"", "", [], [Document.readEntity "Account" (account "tags" tags)]⟩ := rfl
  obtain ⟨e, he, -, h⟩ := declared_validators_kept hdoc (hasComponent_document _)
    (declares_account _ _) tag_atDepth {} "api"
  obtain rfl := List.mem_singleton.mp he
  obtain ⟨_, _, _, hfault⟩ |
    ⟨model, own, type, base, lookup, accessors, hmodel, hdeclared, a, ha, hkey, hholds⟩ := h
  · rw [hfault] at hok
    cases hok
  obtain ⟨nullable, items, annotated, constrained, hvs, -, hannotated, hconstrained, -⟩ := hholds
  have hnone : constrained = [] := by
    cases hconstrained with
    | other _ => rfl
  cases hannotated with
  | entries hes =>
    cases hes with
    | cons hnotBlank hrest =>
      obtain ⟨A, callee, hA, rfl, hbinds⟩ := hnotBlank
      cases hA
      cases hrest
      rw [hnone, List.append_nil] at hvs
      exact ⟨model, own, type, base, lookup, accessors, a, nullable, items, callee, hmodel,
        hdeclared, ha, hkey, hvs, hbinds⟩
  | other h => exact absurd rfl (h _)

/-- An annotation that stands alone, and not in a list. -/
def unlisted : Json :=
  .object [("type", .string "string"), ("x-annotations", .string "NotNull")]

/-- The annotation can be read, but nothing is made of it. -/
theorem lone_annotation_lost :
    HasComponent (document (account "name" unlisted)) "Account" (account "name" unlisted) ∧
      Declares (account "name" unlisted) "name" unlisted ∧
      unlisted.get? "x-annotations" = some (.string "NotNull") ∧
      Annotation.parse "NotNull" = .ok ⟨"NotNull", none⟩ ∧
      ((Document.readEntity "Account" (account "name" unlisted)).modelDraft {} "api").toOption.map
          Draft.declarations =
        some [modelText "AccountModel" "Account" "ObjectModel" "_getPropertyModel"
          [⟨"name", "StringModel", .reference "StringModel", [.bool false]⟩]] := by
  refine ⟨hasComponent_document _, declares_account _ _, rfl, rfl, ?_⟩
  decide +kernel

end TypedClient.Proofs.DeclaredValidators
