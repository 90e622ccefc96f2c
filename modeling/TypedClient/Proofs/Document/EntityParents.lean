import Mathlib.Data.List.Forall2
import TypedClient.Proofs.Client.SchemaReading
import TypedClient.Proofs.Document.DeclaredOperations

namespace TypedClient.Proofs.EntityParents

open TypedClient.Schema TypedClient.Proofs.SchemaReading

def listed? (kind : Composition) (schema : Json) : Option (List Json) :=
  (schema.get? kind.key).bind Json.array?

/-- The composition that a schema is, with its branches. A reference is none, and only the first kind
that is listed counts. -/
def composed? (schema : Json) : Option (Composition × List Json) :=
  if (schema.getString? "$ref").isSome then none
  else ((listed? .oneOf schema).map (Composition.oneOf, ·)).or
    (((listed? .anyOf schema).map (Composition.anyOf, ·)).or
      ((listed? .allOf schema).map (Composition.allOf, ·)))

def target? (schema : Json) : Option Reference :=
  (schema.getString? "$ref").map Reference.ofText

def firstTarget? (branches : List Json) : Option Reference :=
  (branches.filter fun b => !isNullBranch b).findSome? target?

def inherited? (component : Json) : Option Reference :=
  match composed? component with
  | some (.allOf, branches) => firstTarget? branches
  | _ => none

/-- A reference is among the branches of a component that is one of them, or any of them. -/
def RefersToAlternative (component : Json) : Prop :=
  ∃ kind branches, composed? component = some (kind, branches) ∧ kind ≠ .allOf ∧
    (firstTarget? branches).isSome

def components (doc : Json) : List (String × Json) :=
  (((doc.get? "components").bind (Json.get? "schemas")).bind Json.object?).getD []

variable {schema : Json} {ms : List (String × Json)} {t : Table} {type : Option String}
  {kind : Composition} {branches : List Json} {schemas : List Schema}

theorem shape_object (ms : List (String × Json)) :
    (ofJson (.object ms)).shape = (table ms).shape.1 := by
  rw [ofJson_object]
  rfl

theorem ref_table (ms : List (String × Json)) :
    (Table.json? (table ms) "$ref").bind Json.string? = (Json.object ms).getString? "$ref" := by
  rw [json?_table]
  rfl

theorem composed?_eq_find (schema : Json) : composed? schema =
    if (schema.getString? "$ref").isSome then none
    else (Composition.all.find? fun k => (listed? k schema).isSome).bind fun k =>
      (listed? k schema).map (k, ·) := by
  rw [composed?, Composition.all]
  cases h₁ : listed? .oneOf schema <;> cases h₂ : listed? .anyOf schema <;>
    cases h₃ : listed? .allOf schema <;> simp [h₁, h₂, h₃]

theorem shape_of_composed? (h : composed? schema = some (kind, branches)) :
    (ofJson schema).shape =
      .composed kind ((branches.filter fun b => !isNullBranch b).map ofJson) := by
  rw [composed?_eq_find, Option.ite_none_left_eq_some] at h
  obtain ⟨href, h⟩ := h
  obtain ⟨kind', hfind, h⟩ := Option.bind_eq_some_iff.mp h
  obtain ⟨branches', hlisted, h⟩ := Option.map_eq_some_iff.mp h
  obtain ⟨rfl, rfl⟩ := Prod.mk.inj h
  obtain ⟨j, hj, harray⟩ := Option.bind_eq_some_iff.mp hlisted
  obtain ⟨ms, rfl, hlookup⟩ := eq_object_of_get? hj
  cases j with
  | array js =>
    obtain rfl := Option.some.inj harray
    rw [Option.not_isSome_iff_eq_none, ← ref_table] at href
    have hkind : Composition.all.find? (fun k =>
        ((Table.json? (table ms) k.key).bind Json.array?).isSome) = some kind' := by
      simp only [json?_table]
      exact hfind
    rw [shape_object, Table.shape, href, hkind]
    exact congrArg _ (itemFacets_branches hlookup)
  | _ => cases harray

theorem typedShape_ne_reference (r : Reference) : t.typedShape type ≠ .reference r := by
  have hobject : t.objectShape ≠ .reference r := by
    obtain ⟨_, hs⟩ | hs | ⟨_, hs⟩ := objectShape_cases t <;> rw [hs] <;> nofun
  unfold Table.typedShape
  split
  · nofun
  · nofun
  · nofun
  · nofun
  · nofun
  · exact hobject
  · nofun
  · split
    · nofun
    split
    · exact hobject
    · nofun

theorem shape_eq_reference_iff (r : Reference) :
    (ofJson schema).shape = .reference r ↔ target? schema = some r := by
  cases schema with
  | object ms =>
    rw [shape_object, Table.shape, ref_table, target?]
    cases (Json.object ms).getString? "$ref" with
    | some target => simp
    | none =>
      simp only [Option.map_none, reduceCtorEq, iff_false]
      split
      · nofun
      · exact typedShape_ne_reference r
  | _ => exact ⟨nofun, nofun⟩

theorem shape_of_composed?_eq_none (h : composed? schema = none) :
    (ofJson schema).shape ≠ .composed kind schemas := by
  intro hs
  obtain ⟨ms, rfl⟩ := object_of_shape hs nofun
  have hlisted : (listed? kind (.object ms)).isSome := by
    have hlist := (shaped_object hs).branches_eq.1
    rwa [json?_table] at hlist
  have href : (Json.object ms).getString? "$ref" = none := by
    rw [← Option.map_eq_none_iff (f := Reference.ofText), Option.eq_none_iff_forall_ne_some]
    intro r hr
    cases ((shape_eq_reference_iff r).mpr hr).symm.trans hs
  rw [composed?, href, if_neg (by simp), Option.or_eq_none_iff, Option.or_eq_none_iff] at h
  simp only [Option.map_eq_none_iff] at h
  obtain ⟨honeOf, hanyOf, hallOf⟩ := h
  -- the kind that was found first is listed, so it is none of the three that are not
  cases kind <;> simp_all

theorem firstReference?_eq (branches : List Json) :
    Document.firstReference? ((branches.filter fun b => !isNullBranch b).map ofJson) =
      firstTarget? branches := by
  rw [Document.firstReference?, firstTarget?, List.findSome?_map]
  congr 1
  funext b
  apply Option.ext
  intro r
  rw [← shape_eq_reference_iff]
  dsimp only [Function.comp_apply]
  split <;> simp_all

/-- The parent of an entity, whatever the branches of its component are to each other. -/
theorem readEntity_parent (name : String) (component : Json) :
    (Document.readEntity name component).parent =
      (composed? component).bind fun c => firstTarget? c.2 := by
  rw [Document.readEntity]
  cases h : composed? component with
  | some c =>
    obtain ⟨kind, branches⟩ := c
    rw [shape_of_composed? h]
    exact firstReference?_eq branches
  | none =>
    have hs : ∀ kind schemas, (ofJson component).shape ≠ .composed kind schemas := fun _ _ =>
      shape_of_composed?_eq_none h
    dsimp only
    split
    · rfl
    · rfl
    · rename_i hc
      exact absurd hc (hs _ _)
    · rfl

theorem parent_eq_inherited?_iff (name : String) (component : Json) :
    (Document.readEntity name component).parent = inherited? component ↔
      ¬ RefersToAlternative component := by
  rw [readEntity_parent, inherited?, RefersToAlternative]
  cases h : composed? component with
  | none => simp
  | some c =>
    obtain ⟨kind, branches⟩ := c
    cases kind <;> simp [Option.isSome_iff_ne_none]

theorem entities_eq {doc : Json} {D : Document} (hdoc : Document.ofJson doc = .ok D) :
    D.entities = (components doc).map fun c => Document.readEntity c.1 c.2 :=
  (DeclaredOperations.parts_of_ofJson hdoc).2

/-- Each component has its entity. The entity has the parent that the component inherits from, unless
a reference is among the component's alternatives. -/
theorem parents_inherited {doc : Json} {D : Document} (hdoc : Document.ofJson doc = .ok D) :
    List.Forall₂ (fun c e => e.reference = Reference.toComponent c.1 ∧
      (e.parent = inherited? c.2 ↔ ¬ RefersToAlternative c.2)) (components doc) D.entities := by
  rw [entities_eq hdoc, List.forall₂_map_right_iff, List.forall₂_same]
  intro c _
  exact ⟨rfl, parent_eq_inherited?_iff c.1 c.2⟩

def referTo (name : String) : Json :=
  .object [("$ref", .string ("#/components/schemas/" ++ name))]

def document (name : String) (component : Json) : Json :=
  .object [("openapi", .string "3.0.0"),
    ("components", .object [("schemas", .object [(name, component)])])]

theorem ofJson_document (name : String) (component : Json) :
    Document.ofJson (document name component) =
      .ok ⟨"", "", [], [Document.readEntity name component]⟩ := by
  have hversion : Text.startsWith "3." "3.0.0" = true := rfl
  have hopenapi : (document name component).getString? "openapi" = some "3.0.0" := rfl
  rw [Document.ofJson, hopenapi, Option.getD_some, if_pos hversion]
  rfl

def dog : Json :=
  .object [("allOf", .array [.object [("type", .string "null")],
    .object [("type", .string "object"), ("properties", .object [("name", .object [])])],
    referTo "Animal", referTo "Pet"])]

theorem dog_extends_animal : ∃ D, Document.ofJson (document "Dog" dog) = .ok D ∧
    D.entities.map Entity.parent = [some (Reference.toComponent "Animal")] := by
  refine ⟨_, ofJson_document _ _, ?_⟩
  cases parents_inherited (ofJson_document "Dog" dog) with
  | cons h _ =>
    have halternative : ¬ RefersToAlternative dog := by
      rintro ⟨kind, branches, hcomposed, hkind, -⟩
      cases hcomposed
      exact hkind rfl
    have hparent := h.2.mpr halternative
    have htarget : inherited? dog = some (Reference.toComponent "Animal") := rfl
    rw [List.map_singleton, hparent, htarget]

def pet : Json :=
  .object [("oneOf", .array [referTo "Cat", referTo "Dog"])]

/-- A pet inherits from nothing, but its entity extends the cat. -/
theorem pet_extends_cat : inherited? pet = none ∧
    ∃ D, Document.ofJson (document "Pet" pet) = .ok D ∧
      D.entities.map Entity.parent = [some (Reference.toComponent "Cat")] :=
  ⟨rfl, _, ofJson_document _ _, rfl⟩

end TypedClient.Proofs.EntityParents
