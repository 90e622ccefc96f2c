import TypedClient.Schema.Reading

namespace TypedClient.Proofs.SchemaReading

open TypedClient.Schema

theorem lookup_table (key : String) (ms : List (String × Json)) :
    (table ms).lookup key = (ms.lookup key).map fun j => (j, facets j) := by
  induction ms with
  | nil => rfl
  | cons m ms ih =>
    obtain ⟨k, j⟩ := m
    rw [table, List.lookup_cons, List.lookup_cons, ih]
    cases key == k <;> rfl

theorem json?_table (key : String) (ms : List (String × Json)) :
    Table.json? (table ms) key = ms.lookup key := by
  rw [Table.json?, lookup_table, Option.map_map]
  exact Option.map_id'

theorem itemFacets_eq (js : List Json) : itemFacets js = js.map fun j => (j, ofJson j) := by
  induction js with
  | nil => rfl
  | cons j js ih => rw [itemFacets, ih, List.map_cons, ofJson]

theorem table_eq (ms : List (String × Json)) :
    table ms = ms.map fun m => (m.1, m.2, facets m.2) := by
  induction ms with
  | nil => rfl
  | cons m ms ih => rw [table, ih, List.map_cons]

theorem facets_object (ms : List (String × Json)) :
    facets (.object ms) = ⟨(table ms).schema, [], (table ms).map fun m => (m.1, m.2.2.schema)⟩ := by
  rw [facets]

theorem ofJson_object (ms : List (String × Json)) : ofJson (.object ms) = (table ms).schema := by
  rw [ofJson, facets_object]

theorem annotations_ofJson (j : Json) :
    (ofJson j).annotations = annotationTexts (j.get? "x-annotations") ∧
      (ofJson j).constraints = annotationTexts (j.get? "x-validation-constraints") := by
  cases j with
  | object ms =>
    simp only [ofJson_object, Table.schema, json?_table]
    exact ⟨rfl, rfl⟩
  | _ => exact ⟨rfl, rfl⟩

def IsLeaf : Shape → Prop
  | .text _ | .number | .integer | .boolean | .unknown => True
  | _ => False

inductive Shaped (t : Table) (s : Shape) : Prop
  | reference (r : Reference) (h : s = .reference r)
  | composed (kind : Composition) (hlist : ((t.json? kind.key).bind Json.array?).isSome)
      (h : s = .composed kind (((((t.facets? kind.key).map Facets.items).getD []).filter
        fun b => !isNullBranch b.1).map Prod.snd))
  | array (h : s = t.arrayShape)
  | object (h : s = t.objectShape)
  | leaf (h : IsLeaf s)

section Shapes

variable {t : Table} {s : Shape}

theorem shaped_typedShape (t : Table) (type : Option String) : Shaped t (t.typedShape type) := by
  unfold Table.typedShape
  split
  · exact .leaf trivial
  · exact .leaf trivial
  · exact .leaf trivial
  · exact .leaf trivial
  · exact .array rfl
  · exact .object rfl
  · exact .leaf trivial
  · split
    · exact .array rfl
    split
    · exact .object rfl
    · exact .leaf trivial

theorem shaped_shape (t : Table) : Shaped t t.shape.1 := by
  unfold Table.shape
  split
  · exact .reference _ rfl
  split
  · rename_i hfind
    have hlist := List.find?_some hfind
    exact .composed _ hlist rfl
  · exact shaped_typedShape t _

theorem objectShape_cases (t : Table) :
    (∃ properties, t.objectShape = .object properties) ∨ t.objectShape = .anyMap ∨
      ∃ values, t.objectShape = .map values := by
  unfold Table.objectShape
  split
  · exact .inl ⟨_, rfl⟩
  split
  · exact .inr (.inl rfl)
  · exact .inr (.inr ⟨_, rfl⟩)
  · exact .inl ⟨_, rfl⟩

theorem Shaped.object_eq {properties : List Property} (h : Shaped t (.object properties)) :
    t.objectShape = .object properties := by
  cases h with
  | reference r h => cases h
  | composed kind hlist h => cases h
  | array h => cases h
  | object h => exact h.symm
  | leaf h => exact h.elim

theorem Shaped.array_eq {items : Schema} (h : Shaped t (.array items)) :
    t.arrayShape = .array items := by
  cases h with
  | reference r h => cases h
  | composed kind hlist h => cases h
  | array h => exact h.symm
  | object h =>
    obtain ⟨_, hs⟩ | hs | ⟨_, hs⟩ := objectShape_cases t <;> rw [hs] at h <;> cases h
  | leaf h => exact h.elim

theorem Shaped.branches_eq {kind : Composition} {branches : List Schema}
    (h : Shaped t (.composed kind branches)) :
    ((t.json? kind.key).bind Json.array?).isSome ∧ branches =
      ((((t.facets? kind.key).map Facets.items).getD []).filter fun b => !isNullBranch b.1).map
        Prod.snd := by
  cases h with
  | reference r h => cases h
  | composed kind hlist h =>
    cases h
    exact ⟨hlist, rfl⟩
  | array h => cases h
  | object h =>
    obtain ⟨_, hs⟩ | hs | ⟨_, hs⟩ := objectShape_cases t <;> rw [hs] at h <;> cases h
  | leaf h => exact h.elim

end Shapes

def HasProperty (schema : Json) (name : String) (property : Json) : Prop :=
  ∃ properties members, (ofJson schema).shape = .object properties ∧
    schema.get? "properties" = some (.object members) ∧ (name, property) ∈ members

def HasItems (schema items : Json) : Prop :=
  ∃ s, (ofJson schema).shape = .array s ∧ schema.get? "items" = some items

def HasBranches (schema : Json) (branches : List Json) : Prop :=
  ∃ kind schemas entries, (ofJson schema).shape = .composed kind schemas ∧
    schema.get? kind.key = some (.array entries) ∧
    branches = entries.filter fun b => !isNullBranch b

theorem shaped_object {ms : List (String × Json)} {s : Shape}
    (h : (ofJson (.object ms)).shape = s) : Shaped (table ms) s := by
  rw [← h, ofJson_object]
  exact shaped_shape (table ms)

theorem eq_object_of_get? {schema j : Json} {key : String} (h : schema.get? key = some j) :
    ∃ ms, schema = .object ms ∧ ms.lookup key = some j := by
  cases schema with
  | object ms => exact ⟨ms, rfl, h⟩
  | _ => cases h

theorem object_of_shape {schema : Json} {s : Shape} (h : (ofJson schema).shape = s)
    (hs : s ≠ .unknown) : ∃ ms, schema = .object ms := by
  cases schema with
  | object ms => exact ⟨ms, rfl⟩
  | _ => exact absurd h.symm hs

theorem objectShape_members {ms members : List (String × Json)}
    (h : ms.lookup "properties" = some (.object members)) : ∃ required : String → Bool,
      (table ms).objectShape =
        .object (members.map fun m => ⟨m.1, ofJson m.2, required m.1⟩) := by
  rw [Table.objectShape, lookup_table, h, Option.map_some, facets_object, table_eq]
  dsimp only
  rw [List.map_map, List.map_map]
  exact ⟨_, rfl⟩

theorem objectShape_empty {t : Table} {properties : List Property}
    (h : t.objectShape = .object properties)
    (hnone : ∀ members f, t.lookup "properties" ≠ some (.object members, f)) : properties = [] := by
  unfold Table.objectShape at h
  split at h
  · rename_i hlookup
    exact absurd hlookup (hnone _ _)
  split at h
  · cases h
  · cases h
  · cases h
    rfl

/-- The properties of an object schema are the members under `properties`, if an object stands
there. -/
theorem properties_cases {ms : List (String × Json)} {properties : List Property}
    (hs : (ofJson (.object ms)).shape = .object properties) :
    (∃ members, ∃ required : String → Bool, ms.lookup "properties" = some (.object members) ∧
      properties = members.map fun m => ⟨m.1, ofJson m.2, required m.1⟩) ∨
    ((∀ members, ms.lookup "properties" ≠ some (.object members)) ∧ properties = []) := by
  have hobject := (shaped_object hs).object_eq
  by_cases hmembers : ∃ members, ms.lookup "properties" = some (.object members)
  · obtain ⟨members, hmembers⟩ := hmembers
    obtain ⟨required, hshape⟩ := objectShape_members hmembers
    exact .inl ⟨members, required, hmembers, (Shape.object.inj (hshape.symm.trans hobject)).symm⟩
  · refine .inr ⟨fun members hlookup => hmembers ⟨members, hlookup⟩, ?_⟩
    refine objectShape_empty hobject fun members f hlookup => hmembers ⟨members, ?_⟩
    rw [lookup_table] at hlookup
    obtain ⟨j, hj, hpair⟩ := Option.map_eq_some_iff.mp hlookup
    rw [hj, (Prod.mk.inj hpair).1]

theorem mem_properties_iff {schema : Json} {properties : List Property} {name : String} {s : Schema}
    (hs : (ofJson schema).shape = .object properties) :
    (∃ p ∈ properties, p.name = name ∧ p.schema = s) ↔
      ∃ property, HasProperty schema name property ∧ s = ofJson property := by
  obtain ⟨ms, rfl⟩ := object_of_shape hs nofun
  obtain ⟨members, required, hmembers, rfl⟩ | ⟨hmembers, rfl⟩ := properties_cases hs
  · constructor
    · rintro ⟨p, hp, rfl, rfl⟩
      obtain ⟨⟨name, property⟩, hmem, rfl⟩ := List.mem_map.mp hp
      exact ⟨property, ⟨_, members, hs, hmembers, hmem⟩, rfl⟩
    · rintro ⟨property, ⟨_, members', -, hmembers', hmem⟩, rfl⟩
      obtain rfl := Json.object.inj (Option.some.inj (hmembers.symm.trans hmembers'))
      exact ⟨_, List.mem_map_of_mem hmem, rfl, rfl⟩
  · constructor
    · rintro ⟨p, hp, -⟩
      cases hp
    · rintro ⟨property, ⟨_, members, -, hlookup, -⟩, -⟩
      exact absurd hlookup (hmembers members)

theorem HasItems.read {schema items : Json} (h : HasItems schema items) :
    (ofJson schema).shape = .array (ofJson items) := by
  obtain ⟨s, hs, hitems⟩ := h
  obtain ⟨ms, rfl, hlookup⟩ := eq_object_of_get? hitems
  have harray := (shaped_object hs).array_eq
  rw [Table.arrayShape, Table.facets?, lookup_table, hlookup] at harray
  rw [hs, ← harray]
  rfl

theorem itemFacets_branches {ms : List (String × Json)} {kind : Composition} {entries : List Json}
    (h : ms.lookup kind.key = some (.array entries)) :
    ((((Table.facets? (table ms) kind.key).map Facets.items).getD []).filter
      fun b => !isNullBranch b.1).map Prod.snd =
      (entries.filter fun b => !isNullBranch b).map ofJson := by
  have hitems : ((Table.facets? (table ms) kind.key).map Facets.items).getD [] =
      entries.map fun j => (j, ofJson j) := by
    rw [Table.facets?, lookup_table, h, ← itemFacets_eq]
    simp only [Option.map_some, Option.getD_some, facets]
  rw [hitems, List.filter_map, List.map_map]
  rfl

theorem HasBranches.read {schema : Json} {branches : List Json} (h : HasBranches schema branches) :
    ∃ kind, (ofJson schema).shape = .composed kind (branches.map ofJson) := by
  obtain ⟨kind, schemas, entries, hs, hentries, rfl⟩ := h
  obtain ⟨ms, rfl, hlookup⟩ := eq_object_of_get? hentries
  obtain ⟨-, hbranches⟩ := (shaped_object hs).branches_eq
  rw [itemFacets_branches hlookup] at hbranches
  exact ⟨kind, hs.trans (congrArg (Shape.composed kind) hbranches)⟩

theorem HasBranches.unique {schema : Json} {branches branches' : List Json}
    (h : HasBranches schema branches) (h' : HasBranches schema branches') :
    branches = branches' := by
  obtain ⟨kind, schemas, entries, hs, hentries, rfl⟩ := h
  obtain ⟨kind', schemas', entries', hs', hentries', rfl⟩ := h'
  obtain ⟨rfl, -⟩ := Shape.composed.inj (hs.symm.trans hs')
  obtain rfl := Json.array.inj (Option.some.inj (hentries.symm.trans hentries'))
  rfl

theorem exists_hasBranches {schema : Json} {kind : Composition} {schemas : List Schema}
    (hs : (ofJson schema).shape = .composed kind schemas) :
    ∃ branches, HasBranches schema branches ∧ schemas = branches.map ofJson := by
  obtain ⟨ms, rfl⟩ := object_of_shape hs nofun
  obtain ⟨hlist, hbranches⟩ := (shaped_object hs).branches_eq
  rw [json?_table] at hlist
  cases hlookup : ms.lookup kind.key with
  | none =>
    rw [hlookup] at hlist
    cases hlist
  | some j =>
    cases j with
    | array entries =>
      rw [itemFacets_branches hlookup] at hbranches
      exact ⟨_, ⟨kind, schemas, entries, hs, hlookup, rfl⟩, hbranches⟩
    | _ =>
      rw [hlookup] at hlist
      cases hlist

end TypedClient.Proofs.SchemaReading
