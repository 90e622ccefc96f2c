import TypedClient.Proofs.Client.EndpointComments
import TypedClient.Proofs.Client.EntityImports

namespace TypedClient.Proofs.EntityComments

open TypedClient.Module TypedClient.Entity TypedClient.Proofs.BlockComments
open TypedClient.Proofs.NeutralText TypedClient.Proofs.FreshName TypedClient.Proofs.ModuleComments
open TypedClient.Proofs.TidyDrafts TypedClient.Proofs.Mentions TypedClient.Proofs.SchemaWork
open TypedClient.Proofs.PlainSchemas TypedClient.Proofs.EndpointComments
open TypedClient.Proofs.EntityParts TypedClient.Proofs.HeldNames TypedClient.Proofs.SchemaNames

variable {settings : Settings} {source : String}

theorem neutral_enumText {name : String} (h : IsIdentifier name) (values : List String) :
    Neutral (enumText name values) := by
  have hname := neutral_identifier h
  have hvalues : Neutral (String.join (values.map fun v =>
      "\n  " ++ propertyKey v ++ " = " ++ quoted v ++ ",")) := by
    refine neutral_join (List.forall_mem_map.mpr fun v _ => ?_)
    have hkey := neutral_between (s := "\n  ") (u := " = ") (by decide) (neutral_propertyKey v)
      (by decide)
    exact (hkey.append (neutral_quoted v)).plain (by decide)
  unfold enumText defaultExport
  -- reducible, so that the texts named above are not taken apart themselves
  repeat' with_reducible apply Neutral.append
  all_goals first | with_reducible assumption | exact neutral_of_plain (by decide)

theorem neutral_propertyText (p : Property) {type : TypeExpr} (h : Named type) :
    Neutral (propertyText p type) := by
  have hkey := neutral_propertyKey p.name
  have hmark : Neutral (if !p.required || type.isOptional then "?" else "") := by
    split <;> exact neutral_of_plain (by decide)
  have htype := h.required.neutral
  unfold propertyText
  repeat' with_reducible apply Neutral.append
  all_goals first | with_reducible assumption | exact neutral_of_plain (by decide)

theorem written_interfaceText (description : String) {name : String} {parent : Option String}
    {properties : List String} (hn : IsIdentifier name) (hp : ∀ n ∈ parent, IsIdentifier n)
    (hs : ∀ p ∈ properties, Neutral p) :
    Written (docBodies description) (interfaceText description name parent properties) := by
  have hdescription := written_docComment description
  have hname := neutral_identifier hn
  have hextends : Neutral (extendsText parent) := by
    cases parent with
    | none => exact neutral_of_plain rfl
    | some n => exact (neutral_of_plain (by decide)).append (neutral_identifier (hp n rfl))
  have hproperties := neutral_join hs
  unfold interfaceText defaultExport
  repeat with_reducible refine Written.neutral ?_ ?_
  repeat' with_reducible apply Neutral.append
  all_goals first | with_reducible assumption | exact neutral_of_plain (by decide)

theorem yields_propertyTypes (ps : List Property)
    (h : Placed settings (ps.flatMap fun p => schemaTypes p.schema)) :
    Yields source (fun ts => ∀ t ∈ ts, Named t) (propertyTypes ps) := by
  induction ps with
  | nil => exact .pure nofun
  | cons p ps ih =>
    rw [List.flatMap_cons] at h
    exact (yields_valueType true p.schema h.append.1).bind fun _ htype =>
      (ih h.append.2).map fun _ hrest => List.forall_mem_cons.mpr ⟨htype, hrest⟩

theorem yields_parentType (parent : Option Reference)
    (h : Placed settings (parent.toList.map (Mention.mk .type))) :
    Yields source (fun n => ∀ m ∈ n, IsIdentifier m) (parentType parent) := by
  cases parent with
  | none => exact .pure nofun
  | some r =>
    exact (yields_mention h (List.mem_singleton_self _) true).map fun n hn m hm =>
      Option.some.inj hm ▸ hn

def typeDescriptions (e : Entity) : List String :=
  match e.body with
  | .choices _ => []
  | .object _ => [e.description.getD ""]

theorem yields_typeParts (e : Entity) (h : Placed settings (Mentions.mentions e .type))
    {name : String} (hname : IsIdentifier name) :
    Yields source (fun t => Written ((typeDescriptions e).flatMap docBodies) (e.typeText t))
      (e.typeParts name) := by
  revert h
  unfold Mentions.mentions typeDescriptions typeText typeParts
  cases e.body with
  | choices values => exact fun _ => .pure (.code (neutral_enumText hname values))
  | object properties =>
    intro h
    refine (yields_parentType e.parent h.append.1).bind fun parent hparent =>
      (yields_propertyTypes properties h.append.2).map fun types htypes => ?_
    dsimp only
    rw [List.flatMap_singleton]
    refine written_interfaceText _ hname hparent ?_
    rw [← List.map_uncurry_zip_eq_zipWith, List.forall_mem_map]
    exact fun pt hpt => neutral_propertyText pt.1 (htypes pt.2 (List.of_mem_zip hpt).2)

theorem exists_append_defaultExport (text name : String) :
    ∃ last, text ++ defaultExport name = last ++ ";" := by
  refine ⟨text ++ ("\n\x7d\nexport default " ++ name), ?_⟩
  unfold defaultExport
  exact String.append_assoc.symm

theorem documented_declaration {d : Draft} {descriptions : List String}
    {declaration text name : String} (hd : Tidy source d)
    (htext : declaration = text ++ defaultExport name)
    (h : Written (descriptions.flatMap docBodies) declaration) :
    Documented source descriptions
      { d with declarations := d.declarations ++ [declaration] } := by
  obtain ⟨last, hlast⟩ := exists_append_defaultExport text name
  have hdeclared : d.declarations ++ [declaration] = [] ++ [last ++ ";"] := by
    rw [hd.declarations, htext, hlast]
  refine ⟨hd.source, written_contents hd.imports hdeclared ?_⟩
  have hbreak : Neutral "\n\n" := neutral_of_plain (by decide)
  have hall := Written.append (.code hbreak) h
  simpa [hd.declarations] using hall

theorem exists_typeText_eq (e : Entity) (t : TypeParts) :
    ∃ text, e.typeText t = text ++ defaultExport t.name := by
  unfold typeText
  cases e.body <;> exact ⟨_, rfl⟩

theorem documented_typeDraft (e : Entity) (h : Placed settings (Mentions.mentions e .type)) :
    Documented source (typeDescriptions e) (e.typeDraft source) := by
  have hown : Yields source IsIdentifier (Draft.bindOwn e.reference.typeName) := .bindOwn _
  have hmake := hown.bind fun name hname => yields_typeParts e h hname
  obtain ⟨htext, htidy⟩ := hmake _ (tidy_empty e.reference.location source)
  obtain ⟨text, hend⟩ := exists_typeText_eq e (e.madeType source).1
  have hmade : e.madeType source = ((e.madeType source).1, (e.madeType source).2) := rfl
  rw [typeDraft_eq hmade]
  exact documented_declaration htidy hend htext

structure NamedAccessor (a : Accessor) : Prop where
  model : IsIdentifier a.model
  modelType : Named a.modelType
  validators : ∀ e ∈ a.validators, Coded e.text

theorem NamedAccessor.neutral {a : Accessor} {lookup : String} (h : NamedAccessor a)
    (hl : IsIdentifier lookup) : Neutral (a.text lookup) := by
  have hkey := neutral_propertyKey a.name
  have hquoted := neutral_quoted a.name
  have hlookup := neutral_identifier hl
  have hmodel := neutral_identifier h.model
  have htype := h.modelType.neutral
  have hvalidators := (coded_listText h.validators).neutral
  unfold Accessor.text
  repeat' with_reducible apply Neutral.append
  all_goals first | with_reducible assumption | exact neutral_of_plain (by decide)

theorem namedAccessor_of_accesses {d : Draft} {p : Property} {a : Accessor}
    (h : Accesses settings d p a) (hd : ∀ n, Known d n → IsIdentifier n) : NamedAccessor a :=
  ⟨hd _ (known_of_models h.model), fun n hn => hd n (h.modelType n hn),
    coded_validators h.validators hd⟩

theorem namedAccessors_of_accesses {d : Draft} {ps : List Property} {as : List Accessor}
    (h : List.Forall₂ (Accesses settings d) ps as) (hd : ∀ n, Known d n → IsIdentifier n) :
    ∀ a ∈ as, NamedAccessor a := by
  induction h with
  | nil => exact nofun
  | cons h _ ih => exact List.forall_mem_cons.mpr ⟨namedAccessor_of_accesses h hd, ih⟩

theorem yields_accessors (entity : String) (ps : List Property)
    (h : Placed settings (ps.flatMap accessorMentions)) :
    YieldsOk source (fun as => ∀ a ∈ as, NamedAccessor a) (ps.mapM (accessor settings entity)) := by
  intro d hd
  obtain ⟨-, htidy⟩ := tidyOk_of_makes (makes_accessors settings entity ps) h d hd
  refine ⟨fun as has => ?_, htidy⟩
  exact namedAccessors_of_accesses (accessors_run (Prod.ext has rfl)).2 fun n => htidy.isIdentifier

theorem neutral_modelText {name type base lookup : String} {accessors : List Accessor}
    (hn : IsIdentifier name) (ht : IsIdentifier type) (hb : IsIdentifier base)
    (hl : IsIdentifier lookup) (ha : ∀ a ∈ accessors, NamedAccessor a) :
    Neutral (modelText name type base lookup accessors) := by
  have hname := neutral_identifier hn
  have htype := neutral_identifier ht
  have hbase := neutral_identifier hb
  have haccessors := neutral_join (List.forall_mem_map.mpr fun a h => (ha a h).neutral hl)
  unfold modelText defaultExport
  repeat' with_reducible apply Neutral.append
  all_goals first | with_reducible assumption | exact neutral_of_plain (by decide)

theorem neutral_enumModelText {name type base key : String} (hn : IsIdentifier name)
    (ht : IsIdentifier type) (hb : IsIdentifier base) (hk : IsIdentifier key) :
    Neutral (enumModelText name type base key) := by
  have hname := neutral_identifier hn
  have htype := neutral_identifier ht
  have hbase := neutral_identifier hb
  have hkey := neutral_identifier hk
  unfold enumModelText defaultExport
  repeat' with_reducible apply Neutral.append
  all_goals first | with_reducible assumption | exact neutral_of_plain (by decide)

theorem yields_baseModel (parent : Option Reference)
    (h : Placed settings (parent.toList.map (Mention.mk .model))) :
    Yields source IsIdentifier (baseModel settings parent) := by
  cases parent with
  | none => exact yields_formClass h (by decide)
  | some r => exact yields_mention h (List.mem_singleton_self _) false

theorem yields_modelParts (e : Entity) (h : Placed settings (Mentions.mentions e .model))
    {name : String} (hname : IsIdentifier name) :
    YieldsOk source (fun m => Neutral (e.modelDeclaration m)) (e.modelParts settings name) := by
  revert h
  unfold Mentions.mentions modelDeclaration modelParts
  cases e.body with
  | choices values =>
    intro h
    exact (YieldsOk.lift (yields_mention h (List.mem_singleton_self _) false)).bind fun _ htype =>
      (YieldsOk.lift (yields_formClass h (by decide))).bind fun _ hbase =>
        (YieldsOk.lift (yields_formClass h (by decide))).map fun _ hkey =>
          neutral_enumModelText hname htype hbase hkey
  | object properties =>
    intro h
    have htype : Yields source IsIdentifier e.reference.importType :=
      yields_mention h List.mem_cons_self true
    have hbase : Yields source IsIdentifier (baseModel settings e.parent) :=
      yields_baseModel e.parent (h.append.1.of_subset (List.subset_cons_self _ _))
    have hkey : Yields source IsIdentifier (formClass settings "_getPropertyModel") :=
      yields_formClass h (by decide)
    have haccessors : YieldsOk source (fun as => ∀ a ∈ as, NamedAccessor a)
        (properties.mapM (accessor settings e.name)) := yields_accessors e.name properties h.append.2
    exact (YieldsOk.lift htype).bind fun _ htype => (YieldsOk.lift hbase).bind fun _ hbase =>
      (YieldsOk.lift hkey).bind fun _ hkey => haccessors.map fun _ haccessors =>
        neutral_modelText hname htype hbase hkey haccessors

theorem exists_modelDeclaration_eq (e : Entity) (m : ModelParts) :
    ∃ text, e.modelDeclaration m = text ++ defaultExport m.name := by
  unfold modelDeclaration
  cases e.body <;> exact ⟨_, rfl⟩

theorem documented_modelDraft {e : Entity} {d : Draft}
    (h : Placed settings (Mentions.mentions e .model))
    (hd : e.modelDraft settings source = .ok d) : Documented source [] d := by
  have hown : YieldsOk source IsIdentifier
      (liftM (Draft.bindOwn (e.reference.typeName ++ settings.modelSuffix)) : Building String) :=
    .lift (.bindOwn _)
  have hmake := hown.bind fun name hname => yields_modelParts e h hname
  obtain ⟨htext, htidy⟩ := hmake _ (tidy_empty (e.modelLocation settings) source)
  have hrun := EntityImports.run_of_modelDraft settings hd
  rw [buildModel_eq, ← bind_assoc] at hrun
  obtain ⟨m, d', hparts, hdeclared⟩ := DraftWork.run_bind_ok hrun
  rw [hparts] at htext htidy
  cases hdeclared
  obtain ⟨text, hend⟩ := exists_modelDeclaration_eq e m
  exact documented_declaration htidy hend (.code (htext m rfl))

end TypedClient.Proofs.EntityComments
