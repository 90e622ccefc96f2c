import TypedClient.Proofs.Client.EndpointExports
import TypedClient.Proofs.Client.HiddenNames
import TypedClient.Proofs.Client.PlainSchemas

namespace TypedClient.Proofs.EndpointComments

open TypedClient.Module TypedClient.Endpoint TypedClient.Proofs.BlockComments
open TypedClient.Proofs.NeutralText TypedClient.Proofs.FreshName TypedClient.Proofs.ModuleComments
open TypedClient.Proofs.TidyDrafts TypedClient.Proofs.Mentions TypedClient.Proofs.PlainSchemas

variable {settings : Settings} {source : String}

def docBodies (description : String) : List String :=
  if description = "" then [] else ["*\n * " ++ description ++ "\n "]

theorem written_docComment (description : String) :
    Written (docBodies description) (docComment description) := by
  unfold docBodies docComment
  split
  · exact .code (neutral_of_plain rfl)
  · have hcomment : "/**\n * " ++ description ++ "\n */\n" =
        "/*" ++ ("*\n * " ++ description ++ "\n ") ++ "*/" ++ "\n" := by
      rw [← String.toList_inj]
      simp
    rw [hcomment]
    exact .append (.comment _) (.code (neutral_of_plain (by decide)))

theorem terminates_docBodies_iff (description : String) :
    (∃ b ∈ docBodies description, Terminates b) ↔ Terminates description := by
  unfold docBodies
  split
  · rename_i h
    rw [h]
    decide
  · simp only [List.mem_singleton, exists_eq_left]
    exact terminates_between_iff (by decide) (by decide) (by decide)

/-- A module that is written with the comment at its head, those of some descriptions and no others. -/
structure Documented (source : String) (descriptions : List String) (d : Draft) : Prop where
  source : d.source = source
  written : Written (headerBody d :: descriptions.flatMap docBodies) d.contents

structure NamedArgument (a : Argument) : Prop where
  binding : IsIdentifier a.binding
  type : Named a.type

theorem NamedArgument.neutral_declaration {a : Argument} (h : NamedArgument a) :
    Neutral a.declaration := by
  have hdeclared : ∀ (colon : String) (t : TypeExpr), colon.toList.all isPlain = true → Named t →
      Neutral (a.binding ++ colon ++ t.text) := fun colon t hcolon ht =>
    ((neutral_identifier h.binding).append (neutral_of_plain hcolon)).append ht.neutral
  unfold Argument.declaration
  split
  · exact hdeclared _ _ (by decide) h.type.required
  split
  · exact hdeclared _ _ (by decide) h.type.orUndefined
  · exact hdeclared _ _ (by decide) h.type

theorem NamedArgument.neutral_entry {a : Argument} (h : NamedArgument a) : Neutral a.entry := by
  unfold Argument.entry
  dsimp only
  split
  · exact neutral_propertyKey _
  · exact ((neutral_propertyKey _).plain (by decide)).append
      (neutral_identifier h.binding)

theorem yields_arguments (ps : List Parameter)
    (h : Placed settings (ps.flatMap fun p => schemaTypes p.schema)) :
    Yields source (fun as => ∀ a ∈ as, NamedArgument a) (arguments ps) := by
  induction ps with
  | nil => exact .pure nofun
  | cons p ps ih =>
    rw [List.flatMap_cons] at h
    exact (Yields.reserve p.name).bind fun _ hbinding =>
      (yields_valueType true p.schema h.append.1).bind fun _ htype =>
        (ih h.append.2).map fun _ hrest => List.forall_mem_cons.mpr ⟨⟨hbinding, htype⟩, hrest⟩

theorem yields_responseType (response : Option Schema)
    (h : Placed settings (response.toList.flatMap schemaTypes)) :
    Yields source Named (responseType response) := by
  cases response with
  | none => exact .pure nofun
  | some s =>
    rw [Option.toList_some, List.flatMap_singleton] at h
    exact yields_valueType true s h

/-- A function that is written without comments besides its description. -/
structure NamedFunction (f : Function) : Prop where
  binding : IsIdentifier f.binding
  exported : IsIdentifier f.exported
  arguments : ∀ a ∈ f.arguments, NamedArgument a
  response : Named f.response

theorem neutral_parameterList {ps : List String} (h : ∀ p ∈ ps, Neutral p) :
    Neutral (parameterList ps) := by
  unfold parameterList
  split
  · exact neutral_of_plain rfl
  · exact neutral_between (by decide) (neutral_intercalate (neutral_of_plain (by decide)) h)
      (by decide)

theorem neutral_inlineObject {es : List String} (h : ∀ e ∈ es, Neutral e) :
    Neutral (inlineObject es) := by
  unfold inlineObject
  split
  · exact neutral_of_plain (by decide)
  · exact neutral_between (by decide) (neutral_intercalate (neutral_of_plain (by decide)) h)
      (by decide)

theorem NamedFunction.written {f : Function} {client : String} (h : NamedFunction f)
    (hc : IsIdentifier client) (service : String) :
    Written (docBodies (f.operation.description.getD "")) (f.text service client) := by
  have hparameters := neutral_parameterList (List.forall_mem_map.mpr fun a ha =>
    (h.arguments a ha).neutral_declaration)
  have hentries := neutral_inlineObject (List.forall_mem_map.mpr fun a ha =>
    (h.arguments a ha).neutral_entry)
  have hpromise : Named f.response.promise := h.response
  have hdescription := written_docComment (f.operation.description.getD "")
  have hbinding := neutral_identifier h.binding
  have hexported := neutral_identifier h.exported
  have hclient := neutral_identifier hc
  have hresponse := hpromise.neutral
  have hservice := neutral_quoted service
  have hoperation := neutral_quoted f.operation.name
  unfold Function.text
  -- reducible, so that the texts named above are not taken apart themselves
  repeat with_reducible refine Written.neutral ?_ ?_
  all_goals first | with_reducible assumption | exact neutral_of_plain (by decide)

theorem yields_functionOf (op : Operation) {binding exported : String}
    (hb : IsIdentifier binding) (he : IsIdentifier exported)
    (h : Placed settings (HiddenNames.operationTypes op)) :
    Yields source NamedFunction (functionOf op binding exported) := by
  have hrelease : ∀ as : List Argument,
      Yields source (fun _ => True) (as.forM fun a => Draft.release a.binding) :=
    Yields.forM fun a => Yields.release a.binding
  exact (yields_arguments op.parameters h.append.1).bind fun as has =>
    (yields_responseType op.response h.append.2).bind fun _ hresponse =>
      (hrelease as).map fun _ _ => ⟨hb, he, has, hresponse⟩

theorem unique_isIdentifier {base : String} (h : IsIdentifier base) (taken : List String) :
    IsIdentifier (Identifier.unique taken base) := by
  obtain ⟨-, he⟩ | ⟨-, n, he, -⟩ := unique_cases taken base
  · rwa [he]
  · rw [he]
    exact numbered_isIdentifier h n

theorem yields_functionsOf (exported : List String) (ops : List Operation)
    (h : Placed settings (ops.flatMap HiddenNames.operationTypes)) :
    Yields source (fun fs => ∀ f ∈ fs, NamedFunction f) (functionsOf exported ops) := by
  induction ops generalizing exported with
  | nil => exact .pure nofun
  | cons op ops ih =>
    rw [List.flatMap_cons] at h
    have hname := unique_isIdentifier (sanitize_isIdentifier op.name) exported
    exact (Yields.reserve ("_" ++ op.name)).bind fun _ hbinding =>
      (yields_functionOf op hbinding hname h.append.1).bind fun _ hf =>
        (ih _ h.append.2).map fun _ hrest => List.forall_mem_cons.mpr ⟨hf, hrest⟩

/-- An endpoint whose functions are written without comments besides their descriptions. -/
structure NamedEndpoint (e : Endpoint) : Prop where
  client : IsIdentifier e.client
  aggregate : IsIdentifier e.aggregate
  functions : ∀ f ∈ e.functions, NamedFunction f

theorem yields_make (s : Service) (h : Placed settings (HiddenNames.serviceTypes s)) :
    Yields source NamedEndpoint (make s settings) := by
  refine Yields.bind (P := fun _ => True) (fun d hd => ⟨trivial, hd⟩) fun d _ => ?_
  have hpath := unbroken_externalSpecifier d h.client
  exact (Yields.defaultImport hpath "client" false).bind fun _ hclient =>
    (Yields.bindOwn s.name).bind fun _ haggregate =>
      (yields_functionsOf [] s.operations h).map fun _ hfunctions =>
        ⟨hclient, haggregate, hfunctions⟩

theorem NamedEndpoint.neutral_aggregateText {e : Endpoint} (h : NamedEndpoint e) :
    Neutral e.aggregateText := by
  have haggregate := neutral_identifier h.aggregate
  have hentries : Neutral (String.join (e.functions.map fun f =>
      "\n  " ++ propertyKey f.operation.name ++ ": " ++ f.binding ++ ",")) := by
    refine neutral_join (List.forall_mem_map.mpr fun f hf => ?_)
    have hkey := neutral_between (s := "\n  ") (u := ": ") (by decide)
      (neutral_propertyKey f.operation.name) (by decide)
    exact (hkey.append (neutral_identifier (h.functions f hf).binding)).plain (by decide)
  unfold aggregateText
  repeat' with_reducible apply Neutral.append
  all_goals first | with_reducible assumption | exact neutral_of_plain (by decide)

def serviceDescriptions (s : Service) : List String :=
  s.operations.map fun op => op.description.getD ""

theorem documented_endpoint (s : Service) (h : Placed settings (HiddenNames.serviceTypes s)) :
    Documented source (serviceDescriptions s) (Endpoint.draft s settings source) := by
  obtain ⟨hendpoint, htidy⟩ := yields_make s h _ (tidy_empty (s.endpointLocation settings) source)
  have hoperations : (made s settings source).1.functions.map Function.operation = s.operations :=
    EndpointExports.functionsOf_operations [] s.operations _
  change NamedEndpoint (made s settings source).1 at hendpoint
  change Tidy source (made s settings source).2 at htidy
  rw [Endpoint.draft]
  generalize made s settings source = m at *
  obtain ⟨e, d⟩ := m
  have hlast : e.declarations s.name = e.functions.map (Function.text s.name e.client) ++
      ["export const " ++ e.aggregate ++ " = Object.freeze(\x7b" ++
        String.join (e.functions.map fun f =>
          "\n  " ++ propertyKey f.operation.name ++ ": " ++ f.binding ++ ",") ++
        "\n\x7d);\nexport default " ++ e.aggregate ++ ";"] := rfl
  refine ⟨htidy.source, written_contents htidy.imports hlast ?_⟩
  have hfunctions : ∀ f ∈ e.functions, Written (docBodies (f.operation.description.getD ""))
      ("\n\n" ++ f.text s.name e.client) := fun f hf =>
    .append (.code (neutral_of_plain (by decide)))
      ((hendpoint.functions f hf).written hendpoint.client s.name)
  have haggregate : Neutral ("\n\n" ++ e.aggregateText) :=
    (neutral_of_plain (by decide)).append hendpoint.neutral_aggregateText
  have hall := (written_join hfunctions).neutral haggregate
  rw [serviceDescriptions, ← hoperations]
  simpa [Endpoint.declarations, Function.comp_def, List.flatMap_map] using hall

end TypedClient.Proofs.EndpointComments
