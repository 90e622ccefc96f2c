import TypedClient.Proofs.Client.FunctionReading
import TypedClient.Proofs.Client.Inheritance
import TypedClient.Proofs.Client.ParameterNames
import TypedClient.Proofs.Document.EntityParents

namespace TypedClient.Proofs.DeclaredMembers

open TypedClient.Module TypedClient.Entity TypedClient.Literal TypedClient.Schema
open TypedClient.Proofs.CallReading (text?)
open TypedClient.Proofs.DistinctKeys
open TypedClient.Proofs.EntityParents TypedClient.Proofs.FunctionReader
open TypedClient.Proofs.FunctionReading TypedClient.Proofs.Inheritance
open TypedClient.Proofs.LiteralGrammar TypedClient.Proofs.SchemaReading
open TypedClient.Proofs.ParameterNames (distinct_properties)

def key? (cs : List Char) : Option String :=
  match text? cs with
  | some (key, _) => some key
  | none => (name? cs).map Prod.fst

def declared? (member : String) : Option String :=
  key? member.toList

def accessed? (member : String) : Option String :=
  (keyword? "get" member.toList).bind key?

def BranchesApart (component : Json) : Prop :=
  ∀ branches, HasBranches component branches → branches.Pairwise fun b b' =>
    ∀ name property property', HasProperty b name property → ¬ HasProperty b' name property'

variable {settings : Settings} {source : String} {b r : List Char} {doc component : Json}
  {D : Document} {e : Entity} {properties : List Property}

theorem key?_append (hb : Blanks b) (hr : Stops r) (name : String) :
    key? (b ++ ((propertyKey name).toList ++ r)) = some name := by
  have hread := EntityReader.reads_key hb name hr
  rw [EntityReader.Reads, EntityReader.key?] at hread
  rw [key?]
  cases htext : text? (b ++ ((propertyKey name).toList ++ r)) with
  | none =>
    rw [htext, Option.none_or] at hread
    rw [hread]
    rfl
  | some s =>
    rw [htext, Option.some_or] at hread
    exact congrArg some (Prod.mk.inj (Option.some.inj hread)).1

theorem stops_append {s : String} (h : ∃ c cs, s.toList = c :: cs ∧ isWordPart c = false)
    (t : String) : Stops (s ++ t).toList := by
  obtain ⟨c, cs, hs, hc⟩ := h
  rw [String.toList_append, hs]
  exact stops_cons hc _

theorem declared?_propertyText (p : Property) (type : TypeExpr) :
    declared? (propertyText p type) = some p.name := by
  have hblanks : Blanks "\n  ".toList := blanks_of_all rfl
  have htext : ∃ rest, propertyText p type = "\n  " ++ (propertyKey p.name ++ rest) ∧
      Stops rest.toList := by
    unfold propertyText
    split
    · refine ⟨"?" ++ (": " ++ (type.required.text ++ ";")), by simp only [String.append_assoc], ?_⟩
      exact stops_append ⟨'?', [], rfl, by decide⟩ _
    · refine ⟨": " ++ (type.required.text ++ ";"),
        by simp only [String.append_assoc, String.append_empty], ?_⟩
      exact stops_append ⟨':', [' '], rfl, by decide⟩ _
  obtain ⟨rest, htext, hrest⟩ := htext
  rw [declared?, htext, String.toList_append, String.toList_append, key?_append hblanks hrest]

theorem accessed?_text (lookup : String) (a : Accessor) :
    accessed? (a.text lookup) = some a.name := by
  have hblanks : Blanks "\n\n  ".toList := blanks_of_all rfl
  have hspace : Blanks " ".toList := blanks_of_all rfl
  have htext : ∃ rest, a.text lookup = "\n\n  get " ++ (propertyKey a.name ++ ("(): " ++ rest)) := by
    unfold Accessor.text
    simp only [String.append_assoc]
    exact ⟨_, rfl⟩
  obtain ⟨rest, htext⟩ := htext
  have hget : "\n\n  get ".toList = "\n\n  ".toList ++ ("get".toList ++ " ".toList) := rfl
  have hstops : Stops ("(): " ++ rest).toList := stops_append ⟨'(', _, rfl, by decide⟩ rest
  generalize "(): " ++ rest = behind at htext hstops
  have hbehind : Stops (" ".toList ++ ((propertyKey a.name).toList ++ behind.toList)) :=
    stops_cons (by decide) _
  have hkeyword := keyword?_append hblanks (by decide : isBareKey "get".toList = true) hbehind
  rw [accessed?, htext, String.toList_append, String.toList_append, hget, List.append_assoc,
    List.append_assoc, hkeyword, Option.bind_some, key?_append hspace hstops]

theorem map_declared? {R : Property → TypeExpr → Prop} {types : List TypeExpr}
    (h : List.Forall₂ R properties types) :
    (properties.zipWith propertyText types).map declared? =
      (properties.map Property.name).map some := by
  induction h with
  | nil => rfl
  | cons _ _ ih =>
    rw [List.zipWith_cons_cons, List.map_cons, List.map_cons, List.map_cons, declared?_propertyText, ih]

theorem map_accessed? {accessors : List Accessor}
    (h : accessors.map Accessor.name = properties.map Property.name) (lookup : String) :
    (accessors.map (Accessor.text lookup)).map accessed? = (properties.map Property.name).map some := by
  rw [← h]
  simp only [List.map_map, Function.comp_def, accessed?_text]

def declaredNames (s : Schema) : List String :=
  match s.shape with
  | .object properties => properties.map Property.name
  | _ => []

theorem declaredNames_object {s : Schema} (h : s.shape = .object properties) :
    declaredNames s = properties.map Property.name := by
  rw [declaredNames, h]

theorem names_branchProperties (schemas : List Schema) :
    (Document.branchProperties schemas).map Property.name = schemas.flatMap declaredNames := by
  rw [Document.branchProperties, List.map_flatMap]
  congr 1
  funext s
  rw [declaredNames]
  cases s.shape <;> rfl

theorem mem_declaredNames_iff {schema : Json} {name : String} :
    name ∈ declaredNames (ofJson schema) ↔ ∃ property, HasProperty schema name property := by
  by_cases hs : ∃ properties, (ofJson schema).shape = .object properties
  · obtain ⟨properties, hs⟩ := hs
    rw [declaredNames_object hs, List.mem_map]
    constructor
    · rintro ⟨p, hp, hname⟩
      obtain ⟨property, h, -⟩ := (mem_properties_iff hs).mp ⟨p, hp, hname, rfl⟩
      exact ⟨property, h⟩
    · rintro ⟨property, h⟩
      obtain ⟨p, hp, hname, -⟩ := (mem_properties_iff hs).mpr ⟨property, h, rfl⟩
      exact ⟨p, hp, hname⟩
  · constructor
    · intro hname
      rw [declaredNames] at hname
      split at hname
      · rename_i hobject
        exact absurd ⟨_, hobject⟩ hs
      · cases hname
    · rintro ⟨property, properties, -, hobject, -⟩
      exact absurd ⟨_, hobject⟩ hs

theorem nodup_declaredNames {schema : Json} (h : KeyedOnce schema) :
    (declaredNames (ofJson schema)).Nodup := by
  rw [declaredNames]
  split
  · rename_i properties hs
    exact distinct_properties h hs
  · exact List.nodup_nil

theorem keyedOnce_branches {branches : List Json} (h : KeyedOnce component)
    (hb : HasBranches component branches) : ∀ b ∈ branches, KeyedOnce b := by
  obtain ⟨kind, schemas, entries, -, hentries, rfl⟩ := hb
  intro b hmem
  exact keyedOnce_array_iff.mp (h.get? hentries) b (List.mem_filter.mp hmem).1

theorem disjoint_declaredNames_iff {b b' : Json} :
    (declaredNames (ofJson b)).Disjoint (declaredNames (ofJson b')) ↔
      ∀ name property property', HasProperty b name property → ¬ HasProperty b' name property' := by
  constructor
  · intro h name property property' hp hp'
    exact h (mem_declaredNames_iff.mpr ⟨property, hp⟩) (mem_declaredNames_iff.mpr ⟨property', hp'⟩)
  · intro h name hname hname'
    obtain ⟨property, hp⟩ := mem_declaredNames_iff.mp hname
    obtain ⟨property', hp'⟩ := mem_declaredNames_iff.mp hname'
    exact h name property property' hp hp'

theorem nodup_flatMap_declaredNames_iff {branches : List Json} (h : ∀ b ∈ branches, KeyedOnce b) :
    (branches.flatMap fun b => declaredNames (ofJson b)).Nodup ↔
      branches.Pairwise fun b b' =>
        ∀ name property property', HasProperty b name property → ¬ HasProperty b' name property' := by
  rw [List.nodup_flatMap, and_iff_right fun b hb => nodup_declaredNames (h b hb)]
  exact List.Pairwise.iff fun b b' => disjoint_declaredNames_iff

/-- The properties of an entity have different names just when no two branches declare one name. -/
theorem nodup_names_iff {full : String} (hkeys : KeyedOnce component)
    (hbody : (Document.readEntity full component).body = .object properties) :
    (properties.map Property.name).Nodup ↔ BranchesApart component := by
  rw [Document.readEntity] at hbody
  -- what is no composition has no branches
  have hnot (h : ∀ kind schemas, (ofJson component).shape ≠ .composed kind schemas) :
      BranchesApart component := by
    intro branches hb
    obtain ⟨kind, hs⟩ := hb.read
    exact absurd hs (h kind _)
  have hempty (h : EntityBody.object [] = .object properties) :
      (properties.map Property.name).Nodup := by
    obtain rfl := EntityBody.object.inj h
    exact List.nodup_nil
  cases hs : (ofJson component).shape with
  | composed kind schemas =>
    rw [hs] at hbody
    obtain rfl := EntityBody.object.inj hbody
    obtain ⟨branches, hb, rfl⟩ := exists_hasBranches hs
    rw [names_branchProperties, List.flatMap_map,
      nodup_flatMap_declaredNames_iff (keyedOnce_branches hkeys hb)]
    constructor
    · intro h branches' hb'
      exact hb.unique hb' ▸ h
    · exact fun h => h branches hb
  | object ps =>
    rw [hs] at hbody
    obtain rfl := EntityBody.object.inj hbody
    exact iff_of_true (distinct_properties hkeys hs) (hnot fun kind schemas h => by cases hs.symm.trans h)
  | text cs =>
    rw [hs] at hbody
    cases cs with
    | nil => exact iff_of_true (hempty hbody) (hnot fun kind schemas h => by cases hs.symm.trans h)
    | cons c cs => cases hbody
  | _ =>
    rw [hs] at hbody
    exact iff_of_true (hempty hbody) (hnot fun kind schemas h => by cases hs.symm.trans h)

theorem keyedOnce_component (h : KeyedOnce doc) : ∀ c ∈ components doc, KeyedOnce c.2 := by
  intro c hc
  rw [components] at hc
  cases hschemas : (doc.get? "components").bind (Json.get? "schemas") with
  | none =>
    rw [hschemas] at hc
    cases hc
  | some j =>
    obtain ⟨js, hjs, hj⟩ := Option.bind_eq_some_iff.mp hschemas
    rw [hschemas] at hc
    cases j with
    | object members => exact ((h.get? hjs).get? hj).of_object? rfl c hc
    | _ => cases hc

/-- The interface of an entity, and the class of its model if that is made, have one member for each of
the entity's properties. Neither has two members of one name just when no two branches of the
component declare one name. -/
theorem members_once_iff (hkeys : KeyedOnce doc) (hD : Document.ofJson doc = .ok D)
    (he : e ∈ D.entities) (hbody : e.body = .object properties) (settings : Settings)
    (source : String) : ∃ (name : String) (component : Json),
      (name, component) ∈ components doc ∧ e.reference = Reference.toComponent name ∧
      (∃ own extended texts, (e.typeDraft source).declarations =
          [interfaceText (e.description.getD "") own extended texts] ∧
        texts.map declared? = (properties.map Property.name).map some ∧
        ((texts.map declared?).Nodup ↔ BranchesApart component)) ∧
      ∀ model, e.modelDraft settings source = .ok model → ∃ own type base lookup accessors,
        model.declarations = [modelText own type base lookup accessors] ∧
        (accessors.map (Accessor.text lookup)).map accessed? =
          (properties.map Property.name).map some ∧
        (((accessors.map (Accessor.text lookup)).map accessed?).Nodup ↔ BranchesApart component) := by
  rw [entities_eq hD] at he
  obtain ⟨⟨name, component⟩, hcomponent, rfl⟩ := List.mem_map.mp he
  have hnodup : ((properties.map Property.name).map some).Nodup ↔ BranchesApart component := by
    rw [List.nodup_map_iff fun _ _ => Option.some.inj]
    exact nodup_names_iff (keyedOnce_component hkeys _ hcomponent) hbody
  refine ⟨name, component, hcomponent, rfl, ?_, ?_⟩
  · obtain ⟨own, extended, types, -, hdeclared, htypes, -⟩ := typeDraft_declares source hbody
    have hnames := map_declared? htypes
    refine ⟨own, extended, _, hdeclared, hnames, ?_⟩
    rw [hnames]
    exact hnodup
  · intro model hmodel
    obtain ⟨own, type, base, lookup, accessors, -, hdeclared, haccesses, -, -⟩ :=
      modelDraft_declares hbody hmodel
    have hnames := map_accessed? (SchemaNames.map_name_accessors haccesses) lookup
    refine ⟨own, type, base, lookup, accessors, hdeclared, hnames, ?_⟩
    rw [hnames]
    exact hnodup

def objectWith (key type : String) : Json :=
  .object [("type", .string "object"),
    ("properties", .object [(key, .object [("type", .string type)])])]

/-- An account has an identifier, and what its second branch declares. -/
def account (key : String) : Json :=
  .object [("allOf", .array [objectWith "id" "string", objectWith key "integer"])]

theorem account_members : ∃ own extended texts,
    ((Document.readEntity "Account" (account "owner")).typeDraft "api").declarations =
      [interfaceText "" own extended texts] ∧
    texts.map declared? = [some "id", some "owner"] ∧ BranchesApart (account "owner") := by
  have hkeys : KeyedOnce (document "Account" (account "owner")) := by
    simp [document, account, objectWith]
  obtain ⟨name, component, hcomponent, -, ⟨own, extended, texts, hdeclared, hnames, honce⟩, -⟩ :=
    members_once_iff hkeys (ofJson_document _ _) (List.mem_singleton_self _) rfl {} "api"
  obtain ⟨rfl, rfl⟩ := Prod.mk.inj (List.mem_singleton.mp hcomponent)
  refine ⟨own, extended, texts, hdeclared, hnames, honce.mp ?_⟩
  rw [hnames]
  decide

/-- Where both branches declare the identifier, so do two members of the interface, and two of the
class. -/
theorem account_id_twice :
    Document.ofJson (document "Account" (account "id")) =
      .ok ⟨"", "", [], [Document.readEntity "Account" (account "id")]⟩ ∧
    ((Document.readEntity "Account" (account "id")).typeDraft "api").declarations =
      [interfaceText "" "Account" none ["\n  id?: string;", "\n  id?: number;"]] ∧
    declared? "\n  id?: string;" = some "id" ∧ declared? "\n  id?: number;" = some "id" ∧
    ((Document.readEntity "Account" (account "id")).modelDraft {} "api").toOption.map
        Draft.declarations =
      some [modelText "AccountModel" "Account" "ObjectModel" "_getPropertyModel"
        [⟨"id", "StringModel", .reference "StringModel", [.bool false]⟩,
          ⟨"id", "NumberModel", .reference "NumberModel", [.bool false]⟩]] := by
  refine ⟨ofJson_document _ _, ?_, ?_, ?_, ?_⟩
  · decide +kernel
  · decide +kernel
  · decide +kernel
  · decide +kernel

end TypedClient.Proofs.DeclaredMembers
