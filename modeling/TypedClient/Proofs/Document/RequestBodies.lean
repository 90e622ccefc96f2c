import TypedClient.Proofs.Client.MarkedTypes
import TypedClient.Proofs.Client.SchemaWork
import TypedClient.Proofs.Document.DeclaredParameters
import TypedClient.Proofs.Module.SettledBindings

namespace TypedClient.Proofs.RequestBodies

open TypedClient.Document TypedClient.Module TypedClient.Text
open TypedClient.Proofs.DeclaredOperations TypedClient.Proofs.DeclaredParameters
open TypedClient.Proofs.MarkedTypes TypedClient.Proofs.SchemaWork TypedClient.Proofs.SettledBindings

def HasRequest (operation schema : Json) : Prop :=
  contentSchema? (operation.get? "requestBody") = some schema

def HasResponse (operation schema : Json) : Prop :=
  ∃ responses status response, operation.get? "responses" = some (.object responses) ∧
    responses.find? (fun r => startsWith "2" r.1) = some (status, response) ∧
    contentSchema? (some response) = some schema

/-- A schema that has a type in a draft, and in every later state of the draft again. -/
structure HasType (d : Draft) (s : Schema) (t : TypeExpr) (e : Draft) : Prop where
  run : (s.valueType true).run d = (t, e)
  again : Gives e (s.valueType true) t

variable {schema : Json} {c c' : Declaration} {s : Schema} {d e : Draft} {t : TypeExpr}

theorem hasType_of_run (h : (s.valueType true).run d = (t, e)) : HasType d s t e := by
  refine ⟨h, fun e' he => ?_⟩
  have hwork := (makes_schema_valueType {} true s).work
  have hkeeps : Keeps ((s.valueType true).run d).2 e' := by
    rw [h]
    exact he
  rw [Work.again hwork hkeeps, h]

/-- Without the flag a schema has the same type but for `undefined` at the top. -/
theorem exists_hasType (s : Schema) (d : Draft) :
    ∃ t u e, HasType d (Schema.plain s.shape) t e ∧ HasType d s u e ∧ t = u.required ∧
      (t = u ↔ s.nullable = false) := by
  obtain ⟨t, e, hshape, ht, hs⟩ := valueType_run s d
  obtain ⟨t', e', hshape', -, hplain⟩ := valueType_run (Schema.plain s.shape) d
  obtain ⟨rfl, rfl⟩ := Prod.mk.inj (hshape.symm.trans hshape')
  refine ⟨t, _, e, hasType_of_run hplain, hasType_of_run hs, ?_⟩
  cases s.nullable with
  | true =>
    have hne : t ≠ .optional t := by
      intro h
      rw [h] at ht
      cases ht
    exact ⟨rfl, fun h => absurd h hne, nofun⟩
  | false => exact ⟨(required_of_settled ht).symm, fun _ => rfl, fun _ => rfl⟩

theorem response_read (h : HasResponse c.operation schema) :
    c.read.response = some (Schema.ofJson schema) := by
  obtain ⟨responses, status, response, hresponses, hfind, hschema⟩ := h
  change response? c.operation = _
  simp only [response?, hresponses, Json.object?, hfind, hschema, Option.bind_eq_bind,
    Option.bind_some]

theorem bodyParameters_of_hasRequest (h : HasRequest c.operation schema)
    (hs : ∀ properties, (Schema.ofJson schema).shape ≠ .object properties) :
    bodyParameters c.operation =
      [⟨"body", Schema.plain (Schema.ofJson schema).shape, false⟩] := by
  rw [HasRequest] at h
  rw [bodyParameters, h]
  dsimp only
  split
  · rename_i properties hproperties
    exact absurd hproperties (hs properties)
  · rfl

theorem body_read (h : HasRequest c.operation schema)
    (hs : ∀ properties, (Schema.ofJson schema).shape ≠ .object properties)
    (hbody : "body" ∉ entryNames (entries c)) :
    c.read.parameters.find? (fun p => p.name = "body") =
      some ⟨"body", Schema.plain (Schema.ofJson schema).shape, false⟩ := by
  obtain ⟨declared, -, hfold⟩ := foldl_declare (entries c) (bodyParameters c.operation)
  rw [parameters_read, hfold, bodyParameters_of_hasRequest h hs]
  simp [hbody]

/-- A schema that is no object with properties has one type as a request body, where no declared
parameter takes the place of that, and as a response, but for `undefined` at its top, which it has as a
response alone. So the types are equal just when the schema itself does not admit null. -/
theorem body_like_response (hs : ∀ properties, (Schema.ofJson schema).shape ≠ .object properties)
    (hrequest : HasRequest c.operation schema) (hbody : "body" ∉ entryNames (entries c))
    (hresponse : HasResponse c'.operation schema) (d : Draft) :
    ∃ p r t u e, c.read.parameters.find? (fun p => p.name = "body") = some p ∧ p.optional = false ∧
      c'.read.response = some r ∧ HasType d p.schema t e ∧ HasType d r u e ∧ t = u.required ∧
      (t = u ↔ (Schema.ofJson schema).nullable = false) := by
  obtain ⟨t, u, e, hbodyType, hresponseType, htypes⟩ := exists_hasType (Schema.ofJson schema) d
  exact ⟨_, _, t, u, e, body_read hrequest hs hbody, rfl, response_read hresponse, hbodyType,
    hresponseType, htypes⟩

def echo (schema : Json) : Declaration :=
  let content := Json.object [("content", .object [("application/json", .object
    [("schema", schema)])])]
  let operation := Json.object [("requestBody", content), ("responses", .object [("200", content)])]
  ⟨"/Notes/save", [("post", operation)], "post", operation⟩

def sparseTexts : Json :=
  .object [("type", .string "array"),
    ("items", .object [("type", .string "string"), ("nullable", .bool true)])]

theorem sparseTexts_echoed :
    (∀ properties, (Schema.ofJson sparseTexts).shape ≠ .object properties) ∧
    HasRequest (echo sparseTexts).operation sparseTexts ∧
    "body" ∉ entryNames (entries (echo sparseTexts)) ∧
    HasResponse (echo sparseTexts).operation sparseTexts ∧
    ∃ p r t e,
      (echo sparseTexts).read.parameters.find? (fun p => p.name = "body") = some p ∧
      (echo sparseTexts).read.response = some r ∧ HasType default p.schema t e ∧
      HasType default r t e ∧ t.text = "ReadonlyArray<string | undefined>" := by
  have hs : ∀ properties, (Schema.ofJson sparseTexts).shape ≠ .object properties := nofun
  have hrequest : HasRequest (echo sparseTexts).operation sparseTexts := rfl
  have hbody : "body" ∉ entryNames (entries (echo sparseTexts)) := List.not_mem_nil
  have hresponse : HasResponse (echo sparseTexts).operation sparseTexts :=
    ⟨_, "200", _, rfl, rfl, rfl⟩
  obtain ⟨p, r, t, u, e, hp, -, hr, ht, hu, -, hequal⟩ :=
    body_like_response hs hrequest hbody hresponse default
  obtain rfl := hequal.mpr rfl
  have htext : (((Schema.ofJson sparseTexts).valueType true).run default).1.text =
      "ReadonlyArray<string | undefined>" := by decide +kernel
  obtain rfl : Schema.ofJson sparseTexts = r := Option.some.inj hr
  rw [hu.run] at htext
  exact ⟨hs, hrequest, hbody, hresponse, p, _, t, e, hp, hr, ht, hu, htext⟩

def nullableText : Json :=
  .object [("type", .string "string"), ("nullable", .bool true)]

/-- A text that may be missing is marked in the response, and not in the request. -/
theorem nullableText_echoed :
    (∀ properties, (Schema.ofJson nullableText).shape ≠ .object properties) ∧
    HasRequest (echo nullableText).operation nullableText ∧
    HasResponse (echo nullableText).operation nullableText ∧
    ∃ p r, (echo nullableText).read.parameters = [p] ∧ p.name = "body" ∧
      (echo nullableText).read.response = some r ∧
      ∀ d, ((p.schema.valueType true).run d).1.text = "string" ∧
        ((r.valueType true).run d).1.text = "string | undefined" :=
  ⟨nofun, rfl, ⟨_, "200", _, rfl, rfl, rfl⟩, _, _, rfl, rfl, rfl, fun _ => ⟨rfl, rfl⟩⟩

end TypedClient.Proofs.RequestBodies
