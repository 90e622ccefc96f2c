import TypedClient.Client.Generation
import TypedClient.Proofs.Client.EntityReader

namespace TypedClient.Proofs.Inheritance

open TypedClient.Module TypedClient.Entity TypedClient.Proofs.BlockComments
open TypedClient.Proofs.Contents TypedClient.Proofs.DraftImports TypedClient.Proofs.DraftWork
open TypedClient.Proofs.EntityComments TypedClient.Proofs.EntityImports TypedClient.Proofs.EntityParts
open TypedClient.Proofs.EntityReader TypedClient.Proofs.FreshName TypedClient.Proofs.HeldNames
open TypedClient.Proofs.ImportRequests TypedClient.Proofs.NeutralText TypedClient.Proofs.PlainSchemas
open TypedClient.Proofs.SchemaNames TypedClient.Proofs.SchemaWork TypedClient.Proofs.ValidatorSpines

variable {settings : Settings} {source : String} {e : Entity} {properties : List Property}
  {D : Draft}

/-- Nothing but a text stands in a module behind its header and its imports. -/
def Consists (d : Draft) (text : String) : Prop :=
  d.finish.contents = d.header ++ String.join (d.imports.statements.map ("\n" ++ ·)) ++
    "\n\n" ++ text ++ "\n"

/-- An accessor of the name of a property. It asks the form module's function for the model of the
schema. -/
structure Gets (settings : Settings) (d : Draft) (p : Property) (g : Getter) : Prop where
  name : g.name = p.name
  property : g.property = p.name
  lookup : BindsValue d settings.formModule (.named "_getPropertyModel") g.lookup
  model : Models settings d p.schema g.model

/-- The model class of an entity, over the entity's type. Without a parent it extends the model class
of objects; with the entity's own location as its parent's, itself; and else what the parent's model
is imported as. -/
structure IsModel (settings : Settings) (e : Entity) (properties : List Property) (d : Draft)
    (c : ModelClass) : Prop where
  location : d.location = e.modelLocation settings
  own : d.own = some c.name
  type : StandsFor d e.reference.location c.type
  root : e.parent = none → BindsValue d settings.formModule (.named "ObjectModel") c.base
  self : ∀ parent, e.parent = some parent → parent.location = e.reference.location →
    c.base = c.name
  parent : ∀ parent, e.parent = some parent → parent.location ≠ e.reference.location →
    BindsValue d (d.moduleSpecifier (parent.location ++ settings.modelSuffix)) .defaultExport c.base
  getters : List.Forall₂ (Gets settings d) properties c.getters

/-- The interface of an entity. It extends what stands for the parent's type. -/
structure IsType (e : Entity) (properties : List Property) (d : Draft) (i : Interface) : Prop where
  location : d.location = e.reference.location
  own : d.own = some i.name
  root : e.parent = none → i.extended = none
  parent : ∀ parent, e.parent = some parent →
    ∃ id, i.extended = some id ∧ StandsFor d parent.location id
  members : i.members = properties.map Property.name

theorem consists_of_declarations {d : Draft} {declaration text name : String}
    (hd : d.declarations = [declaration]) (htext : declaration = text ++ defaultExport name) :
    Consists d declaration := by
  obtain ⟨last, hlast⟩ := exists_append_defaultExport text name
  have hdeclared : d.declarations = [] ++ [last ++ ";"] := by rw [hd, htext, hlast]; rfl
  have hcontents := contents_eq hdeclared
  rw [hd, List.map_singleton, String.join_cons, String.join_nil, String.append_empty] at hcontents
  rw [Consists, Draft.finish, hcontents]
  simp only [String.append_assoc]

theorem statement_of_bindsValue {d : Draft} {path id : String}
    (h : BindsValue d path .defaultExport id) :
    "import " ++ id ++ " from \"" ++ path ++ "\";" ∈ d.imports.statements := by
  have hword : "import " = ImportTable.keyword false ++ " " := rfl
  have htext : "import " ++ id ++ " from \"" ++ path ++ "\";" =
      ImportTable.keyword false ++ " " ++ id ++ ImportTable.fromPath path := by
    rw [hword, ImportTable.fromPath]
    simp only [String.append_assoc]
  have hpath : path ∈ d.imports.paths := List.mem_eraseDups.mpr (List.mem_map.mpr ⟨_, h, rfl⟩)
  have hdefault : (⟨path, .defaultExport, id, false⟩ : Import) ∈
      (d.imports.imports.filter fun i => i.path = path).filter fun i => i.kind = .defaultExport :=
    List.mem_filter.mpr ⟨List.mem_filter.mpr ⟨h, decide_eq_true rfl⟩, decide_eq_true rfl⟩
  refine List.mem_flatMap.mpr ⟨path, hpath, ?_⟩
  rw [htext, ImportTable.pathStatements]
  exact List.mem_append_left _ (List.mem_append_right _ (List.mem_map.mpr ⟨_, hdefault, rfl⟩))

theorem bindOwn_run (name location source : String) :
    ∃ own d, (Draft.bindOwn name).run { location, source } = (own, d) ∧ d.own = some own ∧
      d.location = location ∧ d.declarations = [] ∧ Founded d := by
  refine ⟨_, _, rfl, rfl, rfl, rfl, ?_⟩
  refine ⟨_, consistent_empty.reserve name, fun n hn => ?_⟩
  obtain rfl := Option.some.inj hn
  exact ⟨[], name, [], rfl, by simp⟩

theorem propertyTypes_run {ps : List Property} {d d' : Draft} {ts : List TypeExpr}
    (h : (propertyTypes ps).run d = (ts, d')) :
    Grows d d' ∧ List.Forall₂ (fun _ t => ∀ n ∈ t.names, Known d' n) ps ts := by
  induction ps generalizing d ts with
  | nil =>
    cases h
    exact ⟨Grows.refl _, .nil⟩
  | cons p ps ih =>
    obtain ⟨t, d₁, htype, hgrows, hknown⟩ := schema_valueType_run true p.schema d
    rw [propertyTypes, run_bind, htype, run_bind] at h
    cases h
    obtain ⟨hgrows', hrest⟩ := ih rfl
    exact ⟨hgrows.trans hgrows', .cons (fun n hn => (hknown n hn).grown hgrows') hrest⟩

theorem parentType_run {d : Draft} {own : String} (hown : d.own = some own)
    (parent : Option Reference) :
    ∃ extended d', (Entity.parentType parent).run d = (extended, d') ∧ Grows d d' ∧
      (parent = none → extended = none) ∧
      ∀ r, parent = some r → ∃ id, extended = some id ∧ StandsFor d' r.location id := by
  cases parent with
  | none =>
    refine ⟨none, d, rfl, Grows.refl d, fun _ => rfl, fun r h => ?_⟩
    cases h
  | some r =>
    obtain ⟨id, d', hrun, hgrows, hstands, -⟩ := importFrom_run hown r.location r.typeName true
    have hparent : (Entity.parentType (some r)).run d = (some id, d') := by
      rw [Entity.parentType, Reference.importType, run_bind, hrun]
      rfl
    refine ⟨some id, d', hparent, hgrows, fun h => ?_, fun s hs => ?_⟩
    · cases h
    · obtain rfl := Option.some.inj hs
      exact ⟨id, rfl, hstands⟩

theorem typeDraft_declares (source : String) (hbody : e.body = .object properties) :
    ∃ name extended types, Founded (e.typeDraft source) ∧
      (e.typeDraft source).declarations = [interfaceText (e.description.getD "") name extended
        (properties.zipWith propertyText types)] ∧
      List.Forall₂ (fun _ t => ∀ n ∈ t.names, Known (e.typeDraft source) n) properties types ∧
      IsType e properties (e.typeDraft source) ⟨name, extended, properties.map Property.name⟩ := by
  obtain ⟨name, d, hname, hown, hlocation, hdecl, hfounded⟩ :=
    bindOwn_run e.reference.typeName e.reference.location source
  obtain ⟨extended, d₁, hparent, hgrows₁, hroot, hstands⟩ := parentType_run hown e.parent
  rcases htypes : (propertyTypes properties).run d₁ with ⟨types, d₂⟩
  obtain ⟨hgrows₂, hknown⟩ := propertyTypes_run htypes
  have hgrows := hgrows₁.trans hgrows₂
  have hmade : e.madeType source = (⟨name, extended, types⟩, d₂) := by
    rw [madeType, run_bind, hname, typeParts, hbody]
    simp only [run_bind, hparent, htypes]
    rfl
  have hfounded' : Founded (e.typeDraft source) := typeDraft_eq hmade ▸ hgrows.founded hfounded
  refine ⟨name, extended, types, hfounded', ?_⟩
  rw [typeDraft_eq hmade]
  refine ⟨?_, hknown, hgrows.location.trans hlocation, hgrows.own.trans hown, hroot, ?_, rfl⟩
  · simp only [hgrows.declarations, hdecl, List.nil_append, typeText, hbody]
  · intro parent hp
    obtain ⟨id, hid, hs⟩ := hstands parent hp
    exact ⟨id, hid, (hgrows₂.standsFor hs).declared _⟩

theorem baseModel_run (settings : Settings) {d : Draft} {own : String} (hown : d.own = some own)
    (parent : Option Reference) :
    ∃ base d', (Entity.baseModel settings parent).run d = (base, d') ∧ Grows d d' ∧
      (parent = none → BindsValue d' settings.formModule (.named "ObjectModel") base) ∧
      (∀ r, parent = some r → r.location ++ settings.modelSuffix = d.location → base = own) ∧
      ∀ r, parent = some r → r.location ++ settings.modelSuffix ≠ d.location →
        BindsValue d' (d.moduleSpecifier (r.location ++ settings.modelSuffix)) .defaultExport
          base := by
  cases parent with
  | none =>
    obtain ⟨base, d', hrun, hgrows, hbinds⟩ :=
      namedImport_run settings.formModule "ObjectModel" d
    exact ⟨base, d', hrun, hgrows, fun _ => hbinds, nofun, nofun⟩
  | some r =>
    obtain ⟨base, d', hrun, hgrows, -, hself, hother⟩ :=
      importFrom_run hown (r.location ++ settings.modelSuffix) (r.typeName ++ settings.modelSuffix)
        false
    refine ⟨base, d', hrun, hgrows, nofun, ?_, ?_⟩
    · rintro _ ⟨⟩
      exact hself
    · rintro _ ⟨⟩ hne
      exact hother hne rfl

theorem gets_of_accesses {accessors : List Accessor} {lookup : String}
    (h : List.Forall₂ (Accesses settings D) properties accessors)
    (hl : BindsValue D settings.formModule (.named "_getPropertyModel") lookup) :
    List.Forall₂ (Gets settings D) properties (accessors.map (getterOf lookup)) :=
  List.forall₂_map_right_iff.mpr (h.imp fun _ _ ha => ⟨ha.name, ha.name, hl, ha.model⟩)

theorem modelDraft_declares (hbody : e.body = .object properties)
    (hmodel : e.modelDraft settings source = .ok D) :
    ∃ name type base lookup accessors, Founded D ∧
      D.declarations = [modelText name type base lookup accessors] ∧
      List.Forall₂ (Accesses settings D) properties accessors ∧
      BindsValue D settings.formModule (.named "_getPropertyModel") lookup ∧
      IsModel settings e properties D ⟨name, type, base, accessors.map (getterOf lookup)⟩ := by
  have hrun := run_of_modelDraft settings hmodel
  -- the drafts between the steps: each has grown out of the one before
  obtain ⟨name, d, hname, hown, hlocation, hdecl, hfounded⟩ :=
    bindOwn_run (e.reference.typeName ++ settings.modelSuffix) (e.modelLocation settings) source
  obtain ⟨type, d₁, htype, hgrows₁, hstands, -⟩ :=
    importFrom_run hown e.reference.location e.reference.typeName true
  obtain ⟨base, d₂, hbase, hgrows₂, hroot, hself, hother⟩ :=
    baseModel_run settings (hgrows₁.own.trans hown) e.parent
  obtain ⟨lookup, d₃, hlookup, hgrows₃, hbinds⟩ :=
    namedImport_run settings.formModule "_getPropertyModel" d₂
  rw [Entity.buildModel, liftM_run_bind, hname] at hrun
  simp only [hbody, liftM_run_bind, Reference.importType, formClass, htype, hbase, hlookup] at hrun
  obtain ⟨accessors, d₄, haccessors, hrun⟩ := run_bind_ok hrun
  obtain ⟨hgrows₄, haccesses⟩ := accessors_run haccessors
  have hafterBase := hgrows₃.trans hgrows₄
  have hafterType := hgrows₂.trans hafterBase
  have hgrows := hgrows₁.trans hafterType
  have hD : D = { d₄ with declarations := d₄.declarations ++
      [Entity.modelText name type base lookup accessors] } := (Prod.mk.inj hrun).2.symm
  have hfounded' : Founded D := hD ▸ hgrows.founded hfounded
  have hlocation₁ : d₁.location = e.modelLocation settings := hgrows₁.location.trans hlocation
  have hlookup' : BindsValue D settings.formModule (.named "_getPropertyModel") lookup :=
    hD ▸ hgrows₄.bindsValue hbinds
  have haccesses' : List.Forall₂ (Accesses settings D) properties accessors := by
    rw [hD]
    exact haccesses.imp fun p a ha => ha.declared _
  refine ⟨name, type, base, lookup, accessors, hfounded', ?_, haccesses', hlookup', ?_⟩
  · rw [hD]
    simp only [hgrows.declarations, hdecl, List.nil_append]
  have hgets := gets_of_accesses haccesses' hlookup'
  rw [hD] at hgets ⊢
  refine ⟨hgrows.location.trans hlocation, hgrows.own.trans hown, ?_, ?_, ?_, ?_, hgets⟩
  · exact (hafterType.standsFor hstands).declared _
  · exact fun hnone => hafterBase.bindsValue (hroot hnone)
  · intro parent hp hsame
    refine hself parent hp ?_
    rw [hlocation₁, Entity.modelLocation, hsame]
  · intro parent hp hne
    have hne' : parent.location ++ settings.modelSuffix ≠ d₁.location := by
      rw [hlocation₁, Entity.modelLocation]
      exact mt (String.append_left_inj settings.modelSuffix).mp hne
    have hspec := hafterType.moduleSpecifier
      (parent.location ++ settings.modelSuffix)
    have hb := hafterBase.bindsValue (hother parent hp hne')
    rw [← hspec] at hb
    exact hb

theorem IsModel.known_base {c : ModelClass} (h : IsModel settings e properties D c) :
    Known D c.base := by
  cases hparent : e.parent with
  | none => exact known_of_bindsValue (h.root hparent)
  | some parent =>
    by_cases hsame : parent.location = e.reference.location
    · exact .inl (h.self parent hparent hsame ▸ h.own)
    · exact known_of_bindsValue (h.parent parent hparent hsame)

theorem items_propertyTexts {types : List TypeExpr}
    (h : List.Forall₂ (fun _ t => Named t) properties types) :
    List.Forall₂ (Item member) (properties.zipWith propertyText types)
      (properties.map Property.name) := by
  induction h with
  | nil => exact .nil
  | cons h _ ih => exact .cons (item_member _ h) ih

theorem IsType.known_extended {i : Interface} (h : IsType e properties D i) :
    ∀ n ∈ i.extended, Known D n := by
  intro n hn
  cases hparent : e.parent with
  | none => cases (h.root hparent).symm.trans hn
  | some parent =>
    obtain ⟨id, hid, hstands⟩ := h.parent parent hparent
    obtain rfl := Option.some.inj (hid.symm.trans hn)
    exact known_of_standsFor hstands

theorem modelDraft_read (hbody : e.body = .object properties)
    (hmodel : e.modelDraft settings source = .ok D) :
    Unambiguous D ∧ ∃ text c, Consists D text ∧ ModelClass.read? text = some c ∧
      IsModel settings e properties D c := by
  obtain ⟨name, type, base, lookup, accessors, hfounded, hdeclared, haccesses, hlookup, hclass⟩ :=
    modelDraft_declares hbody hmodel
  have hd (n : String) (hn : Known D n) : IsIdentifier n := isIdentifier_of_known hfounded hn
  have hread := read?_modelText (hd _ (.inl hclass.own)) (hd _ (known_of_standsFor hclass.type))
    (hd _ hclass.known_base) (hd _ (known_of_bindsValue hlookup))
    (namedAccessors_of_accesses haccesses hd)
  exact ⟨hfounded.unambiguous, _, _, consists_of_declarations hdeclared rfl, hread, hclass⟩

theorem typeDraft_read (source : String) (hbody : e.body = .object properties) :
    Unambiguous (e.typeDraft source) ∧
      ∃ text i, Consists (e.typeDraft source) (docComment (e.description.getD "") ++ text) ∧
        Interface.read? text = some i ∧
        (¬ Terminates (e.description.getD "") →
          Interface.read? (docComment (e.description.getD "") ++ text) = some i) ∧
        IsType e properties (e.typeDraft source) i := by
  obtain ⟨name, extended, types, hfounded, hdeclared, hknown, hinterface⟩ :=
    typeDraft_declares source hbody
  have hd (n : String) (hn : Known (e.typeDraft source) n) : IsIdentifier n :=
    isIdentifier_of_known hfounded hn
  have hitems := items_propertyTexts (hknown.imp fun _ _ h n hn => hd n (h n hn))
  have hname := hd name (.inl hinterface.own)
  have hparent : ∀ n ∈ extended, IsIdentifier n := fun n hn => hd n (hinterface.known_extended n hn)
  have hcomment : interfaceText (e.description.getD "") name extended
      (properties.zipWith propertyText types) = docComment (e.description.getD "") ++
        interfaceText "" name extended (properties.zipWith propertyText types) := by
    unfold interfaceText
    simp [docComment, String.append_assoc]
  have hconsists := consists_of_declarations hdeclared rfl
  have hempty : ¬ Terminates "" := by decide
  have halone := read?_interfaceText hempty hname hparent hitems
  have hwhole (h : ¬ Terminates (e.description.getD "")) :=
    read?_interfaceText h hname hparent hitems
  rw [hcomment] at hconsists hwhole
  exact ⟨hfounded.unambiguous, _, _, hconsists, halone, hwhole, hinterface⟩

theorem finish_mem_files {d : Document} (he : e ∈ d.entities)
    (hmodel : e.modelDraft settings source = .ok D) :
    ∀ file ∈ [(e.typeDraft source).finish, D.finish],
      file ∈ (Generation.ofDocument d settings source).files := by
  have hunit : Generation.ofEntity settings source e ∈ Generation.units d settings source :=
    List.mem_append_right _ (List.mem_map_of_mem he)
  rw [Generation.ofEntity, hmodel] at hunit
  exact fun file hfile => List.mem_flatMap.mpr ⟨_, hunit, hfile⟩

/-- Each entity with properties whose model is made has two files. One declares a class and the other
an interface, for the entity's own properties in their order, and each extends what stands in its
module for the immediate parent. The interface is read with the comment in front of it where the
description does not end that. -/
theorem extends_immediate_parent {d : Document} (he : e ∈ d.entities)
    (hbody : e.body = .object properties) (hmodel : e.modelDraft settings source = .ok D) :
    let T := e.typeDraft source
    let description := e.description.getD ""
    D.finish ∈ (Generation.ofDocument d settings source).files ∧
    T.finish ∈ (Generation.ofDocument d settings source).files ∧
    Unambiguous D ∧ Unambiguous T ∧
    (∃ text c, Consists D text ∧ ModelClass.read? text = some c ∧ IsModel settings e properties D c ∧
      ∀ parent, e.parent = some parent → parent.location ≠ e.reference.location →
        "import " ++ c.base ++ " from \"" ++
            D.moduleSpecifier (parent.location ++ settings.modelSuffix) ++ "\";" ∈
          D.imports.statements) ∧
    ∃ text i, Consists T (docComment description ++ text) ∧ Interface.read? text = some i ∧
      (¬ Terminates description → Interface.read? (docComment description ++ text) = some i) ∧
      IsType e properties T i := by
  intro T description
  have hfiles := finish_mem_files he hmodel
  rw [List.forall_mem_cons, List.forall_mem_singleton] at hfiles
  obtain ⟨hD, text, c, htext, hread, hclass⟩ := modelDraft_read hbody hmodel
  obtain ⟨hT, hinterface⟩ := typeDraft_read source hbody
  refine ⟨hfiles.2, hfiles.1, hD, hT, ⟨text, c, htext, hread, hclass, fun parent hp hne => ?_⟩,
    hinterface⟩
  exact statement_of_bindsValue (hclass.parent parent hp hne)

/-- An item that inherits from one of the same simple name in another package. -/
def item : Entity :=
  ⟨Reference.toComponent "shop.Item", some (Reference.toComponent "base.Item"),
    .object [⟨"label", .plain (.text []), true⟩], none⟩

def items : Document :=
  ⟨"", "", [], [item]⟩

/-- The parent's model keeps apart from the model of the same name that the module declares. -/
theorem item_extends_base_item :
    ∃ D, item.modelDraft {} "api" = .ok D ∧ ∃ text c, Consists D text ∧ ModelClass.read? text = some c ∧
      c.base ≠ c.name ∧ c.getters.map Getter.name = ["label"] ∧
      "import " ++ c.base ++ " from \"" ++ D.moduleSpecifier "base/ItemModel" ++ "\";" ∈
        D.imports.statements := by
  have hok : (item.modelDraft {} "api").toBool = true := by decide +kernel
  cases hmodel : item.modelDraft {} "api" with
  | error f =>
    rw [hmodel] at hok
    cases hok
  | ok D =>
    have he : item ∈ items.entities := List.mem_cons_self
    obtain ⟨-, -, hD, -, ⟨text, c, htext, hread, h, himport⟩, -⟩ :=
      extends_immediate_parent he rfl hmodel
    have hapart : (Reference.toComponent "base.Item").location ≠ item.reference.location := by
      decide +kernel
    have hbase := h.parent _ rfl hapart
    have hstatement := himport _ rfl hapart
    have hlocation : (Reference.toComponent "base.Item").location ++ ({} : Settings).modelSuffix =
        "base/ItemModel" := by decide +kernel
    rw [hlocation] at hstatement
    refine ⟨D, rfl, text, c, htext, hread, ?_, ?_, hstatement⟩
    · intro hsame
      exact hD.own _ hbase (hsame ▸ h.own)
    · have hgetters := h.getters
      generalize c.getters = getters at hgetters ⊢
      cases hgetters with
      | cons hg hnil =>
        cases hnil
        exact congrArg (fun n => [n]) hg.name

end TypedClient.Proofs.Inheritance
