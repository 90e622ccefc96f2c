import TypedClient.Proofs.Client.Compositions
import TypedClient.Proofs.Client.SchemaReading

namespace TypedClient.Proofs.NullSpellings

open TypedClient.Schema TypedClient.Proofs.SchemaReading

def detailKeys : List String :=
  ["enum", "items", "properties", "required", "additionalProperties"]

def precedingKeys : List String :=
  ["$ref", "oneOf", "anyOf", "allOf"]

def validatorKeys : List String :=
  ["x-annotations", "x-validation-constraints"]

/-- Members of a schema that declares one type, which is not null, and says nothing else about null
and nothing about references, compositions and validators. -/
structure Typed (ms : List (String × Json)) (type : String) : Prop where
  declared : ms.lookup "type" = some (.string type)
  ne_null : type ≠ "null"
  absent : ∀ key ∈ "nullable" :: precedingKeys ++ validatorKeys, ms.lookup key = none

/-- The same members but for one key, which is new or has another value. -/
structure Changed (key : String) (value : Json) (ms ms' : List (String × Json)) : Prop where
  changed : ms'.lookup key = some value
  kept : ∀ k, k ≠ key → ms'.lookup k = ms.lookup k

inductive Both (a b : Json) : List Json → Prop
  | straight : Both a b [a, b]
  | reversed : Both a b [b, a]

def nullSchema : Json :=
  .object [("type", .string "null")]

/-- The spellings of a schema that admits what some members say, and null. -/
inductive AdmitsNull (ms : List (String × Json)) (type : String) : Json → Prop
  | flag {ms' : List (String × Json)} (h : Changed "nullable" (.bool true) ms ms') :
      AdmitsNull ms type (.object ms')
  | types {ms' : List (String × Json)} {types : List Json}
      (ht : Both (.string type) (.string "null") types) (h : Changed "type" (.array types) ms ms') :
      AdmitsNull ms type (.object ms')
  | branches {branches : List Json} (kind : Composition)
      (hb : Both (.object ms) nullSchema branches) :
      AdmitsNull ms type (.object [(kind.key, .array branches)])

variable {ms ms' : List (String × Json)} {type : String} {a b : Json} {t u : Table}

/-- A schema that admits null, carries no validators, and is generated for like the type that some
members declare. -/
structure Spelled (settings : Settings) (ms : List (String × Json)) (type : String) (s : Schema) :
    Prop where
  shape : s.shape.Alike settings ((table ms).typedShape (some type))
  nullable : s.nullable = true
  annotations : s.annotations = []
  constraints : s.constraints = []

theorem typedShape_congr (h : ∀ key ∈ detailKeys, u.lookup key = t.lookup key)
    (type : Option String) : u.typedShape type = t.typedShape type := by
  simp only [detailKeys, List.forall_mem_cons] at h
  obtain ⟨henum, hitems, hproperties, hrequired, hadditional, -⟩ := h
  have harray : u.arrayShape = t.arrayShape := by
    rw [Table.arrayShape, Table.facets?, hitems]
    rfl
  have hobject : u.objectShape = t.objectShape := by
    rw [Table.objectShape, Table.json?, hproperties, hrequired, hadditional]
    rfl
  unfold Table.typedShape
  rw [Table.json?, henum, harray, hobject, hitems, hproperties, hadditional]
  rfl

theorem shape_of_absent (h : ∀ key ∈ precedingKeys, t.json? key = none) :
    t.shape = (t.typedShape (declaredType (t.json? "type")).1,
      (declaredType (t.json? "type")).2) := by
  simp only [precedingKeys, List.forall_mem_cons] at h
  obtain ⟨href, honeOf, hanyOf, hallOf, -⟩ := h
  have hnone : Composition.all.find? (fun k => ((t.json? k.key).bind Json.array?).isSome) = none := by
    simp [Composition.all, Composition.key, honeOf, hanyOf, hallOf]
  rw [Table.shape, href, hnone]
  rfl

theorem Typed.shape_table (ht : Typed ms type) :
    (table ms).shape = ((table ms).typedShape (some type), decide (type = "null")) := by
  have hpreceding : ∀ key ∈ precedingKeys, (table ms).json? key = none := fun key hkey =>
    (json?_table key ms).trans (ht.absent key (List.mem_append_left _ (List.mem_cons_of_mem _ hkey)))
  rw [shape_of_absent hpreceding, json?_table, ht.declared]
  rfl

/-- Where the change still declares the type, and null besides, nothing else has changed. -/
theorem Typed.spelled_changed {key : String} {value : Json} (settings : Settings)
    (ht : Typed ms type) (h : Changed key value ms ms')
    (hkey : key ∉ detailKeys ++ precedingKeys ++ validatorKeys)
    (htype : (declaredType (ms'.lookup "type")).1 = some type)
    (hnull : (((ms'.lookup "nullable").bind Json.bool?).getD false ||
      (declaredType (ms'.lookup "type")).2) = true) :
    Spelled settings ms type (ofJson (.object ms')) := by
  rw [List.mem_append, List.mem_append, not_or, not_or] at hkey
  obtain ⟨⟨hdetail, hpreceding⟩, hvalidator⟩ := hkey
  have habsent : ∀ k ∈ precedingKeys ++ validatorKeys, ms'.lookup k = none := by
    intro k hk
    have hne : k ≠ key := by
      rintro rfl
      exact (List.mem_append.mp hk).elim hpreceding hvalidator
    rw [h.kept k hne]
    exact ht.absent k (List.mem_cons_of_mem _ hk)
  have hshape : (table ms').shape =
      ((table ms).typedShape (some type), (declaredType (ms'.lookup "type")).2) := by
    have hnone : ∀ k ∈ precedingKeys, (table ms').json? k = none := fun k hk =>
      (json?_table k ms').trans (habsent k (List.mem_append_left _ hk))
    rw [shape_of_absent hnone, json?_table, htype]
    refine congrArg (·, _) (typedShape_congr (fun k hk => ?_) _)
    rw [lookup_table, lookup_table, h.kept k (ne_of_mem_of_not_mem hk hdetail)]
  obtain ⟨ha, hc⟩ := annotations_ofJson (.object ms')
  refine ⟨?_, ?_, ?_, ?_⟩
  · rw [ofJson_object, Table.schema, hshape]
    exact Shape.Alike.refl _
  · rw [ofJson_object, Table.schema, hshape, json?_table]
    exact hnull
  · rw [ha, Json.get?, habsent _ (by decide)]
    rfl
  · rw [hc, Json.get?, habsent _ (by decide)]
    rfl

theorem declaredType_both {types : List Json} (h : Both (.string type) (.string "null") types)
    (hne : type ≠ "null") : declaredType (some (.array types)) = (some type, true) := by
  cases h <;> simp [declaredType, Json.string?, hne]

theorem ofJson_branches (kind : Composition) (entries : List Json) :
    ofJson (.object [(kind.key, .array entries)]) =
      { plain (.composed kind ((entries.filter fun b => !isNullBranch b).map ofJson)) with
        nullable := entries.any isNullBranch } := by
  have htable : table [(kind.key, .array entries)] = [(kind.key, .array entries,
      ⟨plain .unknown, entries.map fun j => (j, ofJson j), []⟩)] := by
    rw [table, table, facets, itemFacets_eq]
  have hfilter : ((entries.map fun j => (j, ofJson j)).filter fun b => !isNullBranch b.1).map
      Prod.snd = (entries.filter fun b => !isNullBranch b).map ofJson := by
    rw [List.filter_map, List.map_map]
    rfl
  have hany : (entries.map fun j => (j, ofJson j)).any (fun b => isNullBranch b.1) =
      entries.any isNullBranch := by
    rw [List.any_map]
    rfl
  rw [ofJson_object, htable, ← hfilter, ← hany]
  cases kind <;> rfl

theorem Typed.ofJson_both (ht : Typed ms type) {entries : List Json}
    (h : Both (.object ms) nullSchema entries) (kind : Composition) :
    ofJson (.object [(kind.key, .array entries)]) =
      { plain (.composed kind [ofJson (.object ms)]) with nullable := true } := by
  have hself : isNullBranch (.object ms) = false := by
    rw [isNullBranch, Json.getString?, Json.get?, ht.declared]
    simpa [Json.string?] using ht.ne_null
  have hnull : isNullBranch nullSchema = true := rfl
  rw [ofJson_branches]
  cases h <;> simp [hself, hnull]

theorem AdmitsNull.spelled (settings : Settings) (ht : Typed ms type) (h : AdmitsNull ms type a) :
    Spelled settings ms type (ofJson a) := by
  cases h with
  | @flag ms' h =>
    have hkept : ms'.lookup "type" = some (.string type) :=
      (h.kept "type" (by decide)).trans ht.declared
    refine ht.spelled_changed settings h (by decide) ?_ ?_
    · rw [hkept]
      rfl
    · rw [h.changed]
      rfl
  | @types ms' types hb h =>
    have htypes := declaredType_both hb ht.ne_null
    refine ht.spelled_changed settings h (by decide) ?_ ?_
    · rw [h.changed, htypes]
    · rw [h.changed, htypes, Bool.or_true]
  | @branches branches kind hb =>
    have hshape : (ofJson (.object ms)).shape = (table ms).typedShape (some type) := by
      rw [ofJson_object, Table.schema, ht.shape_table]
    rw [ht.ofJson_both hb kind]
    exact ⟨hshape ▸ Shape.alike_branch settings kind _ [], rfl, rfl, rfl⟩

/-- A schema of one type that is made to admit null is generated for in the same way, and leaves the
same drafts, however that is spelled. -/
theorem spellings_alike (settings : Settings) (ht : Typed ms type) (ha : AdmitsNull ms type a)
    (hb : AdmitsNull ms type b) : (ofJson a).Alike settings (ofJson b) := by
  have hsa := ha.spelled settings ht
  have hsb := hb.spelled settings ht
  exact alike_of_shape (hsa.shape.trans hsb.shape.symm) (hsa.nullable.trans hsb.nullable.symm)
    (hsa.annotations.trans hsb.annotations.symm) (hsa.constraints.trans hsb.constraints.symm)

def names : List (String × Json) :=
  [("type", .string "array"),
    ("items", .object [("type", .string "string"), ("nullable", .bool true)])]

def listedNames : Json :=
  .object [("type", .array [.string "null", .string "array"]),
    ("items", .object [("type", .string "string"), ("nullable", .bool true)])]

def combinedNames : Json :=
  .object [("allOf", .array [.object names, nullSchema])]

theorem changed_names : Changed "type" (.array [.string "null", .string "array"]) names
    [("type", .array [.string "null", .string "array"]),
      ("items", .object [("type", .string "string"), ("nullable", .bool true)])] := by
  refine ⟨rfl, fun k hk => ?_⟩
  have hne : (k == "type") = false := beq_false_of_ne hk
  simp only [names, List.lookup_cons, hne]

theorem spellings_of_names :
    Typed names "array" ∧ AdmitsNull names "array" listedNames ∧
      AdmitsNull names "array" combinedNames ∧
      (ofJson listedNames).Alike {} (ofJson combinedNames) ∧
      (((ofJson combinedNames).valueType true).run { location := "Names", source := "api" }).1.text =
        "ReadonlyArray<string | undefined> | undefined" := by
  have htyped : Typed names "array" := by
    refine ⟨rfl, by decide, ?_⟩
    simp [names, precedingKeys, validatorKeys]
  have hlisted : AdmitsNull names "array" listedNames := .types .reversed changed_names
  have hcombined : AdmitsNull names "array" combinedNames := .branches .allOf .straight
  exact ⟨htyped, hlisted, hcombined, spellings_alike {} htyped hlisted hcombined, by decide +kernel⟩

end TypedClient.Proofs.NullSpellings
