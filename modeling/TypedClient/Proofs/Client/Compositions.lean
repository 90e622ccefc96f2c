import TypedClient.Proofs.Client.ResolvedSchemas

namespace TypedClient

variable {settings : Settings}

/-- Shapes that types, model classes, model types and item validators are made for in the same way: the
same results from each draft, and the same drafts afterwards. -/
structure Shape.Alike (settings : Settings) (a b : Shape) : Prop where
  valueType : ∀ mark, a.valueType mark = b.valueType mark
  model : a.model settings = b.model settings
  modelType : a.modelType settings = b.modelType settings
  itemValidators : a.itemValidators settings = b.itemValidators settings

namespace Schema

/-- Schemas that types, model classes, model types and validators are made for in the same way. -/
structure Alike (settings : Settings) (s t : Schema) : Prop where
  valueType : ∀ mark, s.valueType mark = t.valueType mark
  model : s.model settings = t.model settings
  modelType : s.modelType settings = t.modelType settings
  validators : s.validators settings = t.validators settings

variable {s t : Schema}

theorem sizeOf_lt_of_resolve {shape : Shape} (h : s.resolve.shape = shape)
    (ht : sizeOf t < sizeOf shape) : sizeOf t < sizeOf s := by
  have hresolve := sizeOf_resolve_le s
  have hshape := sizeOf_shape_lt s.resolve
  rw [h] at hshape
  omega

theorem sizeOf_property_lt {properties : List Property} {p : Property} (h : p ∈ properties) :
    sizeOf p.schema < sizeOf (Shape.object properties) := by
  have hmem := List.sizeOf_lt_of_mem h
  obtain ⟨name, schema, required⟩ := p
  simp only [Property.mk.sizeOf_spec] at hmem
  simp only [Shape.object.sizeOf_spec]
  omega

/-- A schema with every composition in it replaced by the shape that it resolves to, and one without
branches by the unknown shape. The modifiers stay. -/
def uncomposed (s : Schema) : Schema :=
  { s with shape := match _h : s.resolve.shape with
      | .array items => .array items.uncomposed
      | .map values => .map values.uncomposed
      | .object properties =>
        .object (properties.attach.map fun p => { p.1 with schema := p.1.schema.uncomposed })
      | .composed _ _ => .unknown
      | shape => shape }
termination_by sizeOf s
decreasing_by
  · exact sizeOf_lt_of_resolve ‹_› (by simp only [Shape.array.sizeOf_spec]; omega)
  · exact sizeOf_lt_of_resolve ‹_› (by simp only [Shape.map.sizeOf_spec]; omega)
  · exact sizeOf_lt_of_resolve ‹_› (sizeOf_property_lt p.2)

inductive Uncomposed : Schema → Prop
  | intro {s : Schema} (shape : ∀ kind branches, s.shape ≠ .composed kind branches)
      (items : ∀ t, s.shape = .array t → Uncomposed t)
      (values : ∀ t, s.shape = .map t → Uncomposed t)
      (properties : ∀ ps, s.shape = .object ps → ∀ p ∈ ps, Uncomposed p.schema) : Uncomposed s

theorem uncomposed_uncomposed (s : Schema) : s.uncomposed.Uncomposed := by
  induction s using Schema.uncomposed.induct with
  | case1 s items values properties =>
    rw [uncomposed]
    split
    · rename_i hs
      exact .intro nofun (by rintro t ⟨⟩; exact items _ hs) nofun nofun
    · rename_i hs
      exact .intro nofun nofun (by rintro t ⟨⟩; exact values _ hs) nofun
    · rename_i hs
      refine .intro nofun nofun nofun ?_
      rintro _ ⟨⟩ q hq
      obtain ⟨p, -, rfl⟩ := List.mem_map.mp hq
      exact properties _ hs p
    · exact .intro nofun nofun nofun nofun
    · rename_i harray hmap hobject hcomposed
      exact .intro hcomposed (fun t ht => absurd ht (harray t)) (fun t ht => absurd ht (hmap t))
        fun ps hps => absurd hps (hobject ps)

end Schema

section Alike

variable {a b : Shape} {s t : Schema}

theorem Shape.Alike.refl (a : Shape) : a.Alike settings a :=
  ⟨fun _ => rfl, rfl, rfl, rfl⟩

theorem Shape.Alike.trans {c : Shape} (h : a.Alike settings b) (h' : b.Alike settings c) :
    a.Alike settings c :=
  ⟨fun mark => (h.valueType mark).trans (h'.valueType mark), h.model.trans h'.model,
    h.modelType.trans h'.modelType, h.itemValidators.trans h'.itemValidators⟩

theorem Shape.Alike.symm (h : a.Alike settings b) : b.Alike settings a :=
  ⟨fun mark => (h.valueType mark).symm, h.model.symm, h.modelType.symm, h.itemValidators.symm⟩

theorem Schema.alike_resolve (settings : Settings) (s : Schema) :
    s.resolve.shape.Alike settings s.shape :=
  ⟨fun mark => s.valueType_resolve mark, s.model_resolve settings, s.modelType_resolve settings,
    s.itemValidators_resolve settings⟩

theorem Schema.alike_of_shape (h : s.shape.Alike settings t.shape) (hn : s.nullable = t.nullable)
    (ha : s.annotations = t.annotations) (hc : s.constraints = t.constraints) :
    s.Alike settings t := by
  obtain ⟨shape, nullable, annotations, constraints, format, description⟩ := s
  obtain ⟨shape', nullable', annotations', constraints', format', description'⟩ := t
  dsimp only at h hn ha hc
  subst hn ha hc
  refine ⟨fun mark => ?_, h.model, ?_, ?_⟩
  · rw [Schema.valueType, Schema.valueType, h.valueType mark]
  · rw [Schema.modelType, Schema.modelType, h.modelType]
  · rw [Schema.validators, Schema.validators, h.itemValidators]

theorem Schema.Alike.array (h : s.Alike settings t) : (Shape.array s).Alike settings (.array t) := by
  refine ⟨fun mark => ?_, rfl, ?_, ?_⟩
  · rw [Shape.valueType, Shape.valueType, h.valueType mark]
  · rw [Shape.modelType, Shape.modelType, h.valueType false, h.modelType]
  · rw [Shape.itemValidators, Shape.itemValidators, h.model, h.validators]

theorem Schema.Alike.map (h : s.Alike settings t) : (Shape.map s).Alike settings (.map t) := by
  refine ⟨fun mark => ?_, rfl, ?_, rfl⟩
  · rw [Shape.valueType, Shape.valueType, h.valueType mark]
  · rw [Shape.modelType, Shape.modelType, h.valueType false]

theorem Shape.alike_object (settings : Settings) (ps qs : List Property) :
    (Shape.object ps).Alike settings (.object qs) :=
  ⟨fun _ => rfl, rfl, rfl, rfl⟩

theorem Shape.alike_no_branches (settings : Settings) (kind : Composition) :
    Shape.unknown.Alike settings (.composed kind []) :=
  ⟨fun _ => rfl, rfl, rfl, rfl⟩

theorem Shape.alike_branch (settings : Settings) (kind : Composition) (b : Schema)
    (bs : List Schema) : (Shape.composed kind (b :: bs)).Alike settings b.shape := by
  have h := (Schema.plain (.composed kind (b :: bs))).alike_resolve settings
  rw [Schema.resolve_branch (s := .plain (.composed kind (b :: bs))) rfl] at h
  exact h.symm.trans (b.alike_resolve settings)

theorem Schema.shape_uncomposed (settings : Settings) (s : Schema)
    (items : ∀ items, s.resolve.shape = .array items → items.uncomposed.Alike settings items)
    (values : ∀ values, s.resolve.shape = .map values → values.uncomposed.Alike settings values) :
    s.uncomposed.shape.Alike settings s.resolve.shape := by
  rw [Schema.uncomposed]
  dsimp only
  split
  · rename_i hs
    rw [hs]
    exact (items _ hs).array
  · rename_i hs
    rw [hs]
    exact (values _ hs).map
  · rename_i hs
    rw [hs]
    exact Shape.alike_object settings _ _
  · rename_i kind branches hs
    rw [hs]
    -- a composition that is left over has no branches
    cases branches with
    | nil => exact Shape.alike_no_branches settings kind
    | cons b bs => exact absurd hs (s.resolved kind b bs)
  · exact Shape.Alike.refl _

/-- Types, model classes, model types and validators are made in the same way, and the drafts left the
same, whether a schema has compositions or what they resolve to. -/
theorem Schema.uncomposed_alike (settings : Settings) (s : Schema) :
    s.uncomposed.Alike settings s := by
  induction s using Schema.uncomposed.induct with
  | case1 s items values properties =>
    have hshape := (s.shape_uncomposed settings items values).trans (s.alike_resolve settings)
    refine alike_of_shape hshape ?_ ?_ ?_ <;> rw [uncomposed]

end Alike

end TypedClient
