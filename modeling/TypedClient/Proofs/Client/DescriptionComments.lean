import TypedClient.Client.Generation
import TypedClient.Document.Reading
import TypedClient.Proofs.Client.EntityComments
import TypedClient.Proofs.Client.Location

namespace TypedClient.Proofs.DescriptionComments

open TypedClient.Module TypedClient.Proofs.BlockComments TypedClient.Proofs.ModuleComments
open TypedClient.Proofs.Mentions TypedClient.Proofs.HiddenNames TypedClient.Proofs.PlainSchemas
open TypedClient.Proofs.EndpointComments TypedClient.Proofs.EntityComments

variable {settings : Settings} {source : String} {d : Document}

/-- The modules of a document, each with the descriptions that stand in it. -/
inductive Describes (d : Document) (settings : Settings) (source : String) :
    Draft → List String → Prop
  | endpoint {s : Service} (hs : s ∈ d.services) :
      Describes d settings source (Endpoint.draft s settings source) (serviceDescriptions s)
  | type {e : Entity} {model : Draft} (he : e ∈ d.entities)
      (hm : e.modelDraft settings source = .ok model) :
      Describes d settings source (e.typeDraft source) (typeDescriptions e)
  | model {e : Entity} {model : Draft} (he : e ∈ d.entities)
      (hm : e.modelDraft settings source = .ok model) : Describes d settings source model []

theorem mem_files_iff {file : File} : file ∈ (Generation.ofDocument d settings source).files ↔
    ∃ D descriptions, Describes d settings source D descriptions ∧ D.finish = file := by
  simp only [Generation.ofDocument, Generation.units, List.mem_flatMap, List.mem_append,
    List.mem_map]
  constructor
  · rintro ⟨unit, ⟨s, hs, rfl⟩ | ⟨e, he, rfl⟩, hfile⟩
    · obtain rfl := List.mem_singleton.mp hfile
      exact ⟨_, _, .endpoint hs, rfl⟩
    · unfold Generation.ofEntity at hfile
      cases hm : e.modelDraft settings source with
      | error f =>
        rw [hm] at hfile
        cases hfile
      | ok model =>
        rw [hm] at hfile
        obtain rfl | hfile := List.mem_cons.mp hfile
        · exact ⟨_, _, .type he hm, rfl⟩
        · obtain rfl := List.mem_singleton.mp hfile
          exact ⟨_, _, .model he hm, rfl⟩
  · rintro ⟨D, descriptions, hD, rfl⟩
    cases hD with
    | @endpoint s hs => exact ⟨_, .inl ⟨s, hs, rfl⟩, List.mem_singleton_self _⟩
    | @type e model he hm =>
      refine ⟨_, .inr ⟨e, he, rfl⟩, ?_⟩
      rw [Generation.ofEntity, hm]
      exact List.mem_cons_self
    | @model e model he hm =>
      refine ⟨_, .inr ⟨e, he, rfl⟩, ?_⟩
      rw [Generation.ofEntity, hm]
      exact List.mem_cons_of_mem _ (List.mem_singleton_self _)

def mentioned (d : Document) : List Mention :=
  d.services.flatMap serviceTypes ++
    d.entities.flatMap fun e => mentions e .type ++ mentions e .model

theorem unbroken_location {r : Reference} (h : Unbroken r.fullName) : Unbroken r.location := by
  intro c hc
  rw [Location.toList_location] at hc
  obtain ⟨x, hx, rfl⟩ := List.mem_map.mp hc
  obtain he | he | he := Location.place_cases x <;> rw [he]
  · decide
  · decide
  · exact h x hx

theorem unbroken_mention {m : Mention} (h : Unbroken m.reference.fullName)
    (hs : Unbroken settings.modelSuffix) : Unbroken (m.location settings) := by
  obtain ⟨role, r⟩ := m
  cases role with
  | type => exact unbroken_location h
  | model => exact (unbroken_location h).append hs

theorem documented_of_describes {D : Draft} {descriptions : List String}
    (h : Placed settings (mentioned d)) (hD : Describes d settings source D descriptions) :
    Documented source descriptions D := by
  cases hD with
  | @endpoint s hs =>
    refine documented_endpoint s (h.append.1.of_subset fun m hm => ?_)
    exact List.mem_flatMap.mpr ⟨s, hs, hm⟩
  | @type e model he hm =>
    refine documented_typeDraft e (h.append.2.of_subset fun m hm => ?_)
    exact List.mem_flatMap.mpr ⟨e, he, List.mem_append_left _ hm⟩
  | @model e model he hm =>
    refine documented_modelDraft (h.append.2.of_subset fun m hm => ?_) hm
    exact List.mem_flatMap.mpr ⟨e, he, List.mem_append_right _ hm⟩

theorem terminates_bodies_iff {D : Draft} {descriptions : List String} (hs : D.source = source) :
    (∀ b ∈ headerBody D :: descriptions.flatMap docBodies, ¬ Terminates b) ↔
      ¬ Terminates source ∧ ∀ t ∈ descriptions, ¬ Terminates t := by
  rw [List.forall_mem_cons, terminates_headerBody_iff, hs]
  refine and_congr_right fun _ => ⟨fun h t ht hterminates => ?_, fun h b hb hterminates => ?_⟩
  · obtain ⟨b, hb, hterminates⟩ := (terminates_docBodies_iff t).mpr hterminates
    exact h b (List.mem_flatMap.mpr ⟨t, ht, hb⟩) hterminates
  · obtain ⟨t, ht, hb⟩ := List.mem_flatMap.mp hb
    exact h t ht ((terminates_docBodies_iff t).mp ⟨b, hb, hterminates⟩)

theorem docBodies_cut (s u : String) :
    docBodies (s ++ "*/" ++ u) = ["*\n * " ++ s ++ "*/" ++ (u ++ "\n ")] := by
  have hne : s ++ "*/" ++ u ≠ "" := by
    intro h
    simpa using congrArg String.toList h
  rw [docBodies, if_neg hne]
  simp only [String.append_assoc]

/-- The comment of the first description with a terminator in it ends there. -/
theorem comment_cut {D : Draft} {before behind : List String} {s u : String}
    (hD : Documented source (before ++ (s ++ "*/" ++ u) :: behind) D) (hsource : ¬ Terminates source)
    (hb : ∀ t ∈ before, ¬ Terminates t) (hs : ¬ Terminates s) :
    headerBody D :: before.flatMap docBodies ++ ["*\n * " ++ s] <+:
      ((after []).read D.contents).comments := by
  have hwritten := hD.written
  rw [List.flatMap_append, List.flatMap_cons, docBodies_cut, List.singleton_append,
    ← List.cons_append] at hwritten
  refine hwritten.read_cut ((terminates_bodies_iff hD.source).mpr ⟨hsource, hb⟩) ?_
  exact fun h => hs (h.of_append_left (by decide) (by decide))

/-- Where the paths of imports stay between their quotes, the comments in a generated file are the one
at its head and those of its descriptions, each of them up to the end that the file gives it, just
when neither the source nor a description in the file terminates its comment before. The comment of
the first description that does ends there. -/
theorem comments_whole_iff (hc : Unbroken settings.clientModule) (hf : Unbroken settings.formModule)
    (hs : Unbroken settings.modelSuffix) (hn : ∀ m ∈ mentioned d, Unbroken m.reference.fullName)
    (source : String) :
    (∀ file, file ∈ (Generation.ofDocument d settings source).files ↔
      ∃ D descriptions, Describes d settings source D descriptions ∧ D.finish = file) ∧
    ∀ D descriptions, Describes d settings source D descriptions →
      ((after []).read D.finish.contents =
          after (headerBody D :: descriptions.flatMap docBodies) ↔
        ¬ Terminates source ∧ ∀ t ∈ descriptions, ¬ Terminates t) ∧
      ∀ before s u behind, descriptions = before ++ (s ++ "*/" ++ u) :: behind →
        ¬ Terminates source → (∀ t ∈ before, ¬ Terminates t) → ¬ Terminates s →
          headerBody D :: before.flatMap docBodies ++ ["*\n * " ++ s] <+:
            ((after []).read D.finish.contents).comments := by
  have hplaced : Placed settings (mentioned d) :=
    ⟨hc, hf, fun m hm => unbroken_mention (hn m hm) hs⟩
  refine ⟨fun file => mem_files_iff, fun D descriptions hD => ?_⟩
  have hdocumented := documented_of_describes hplaced hD
  refine ⟨hdocumented.written.read_iff.trans (terminates_bodies_iff hdocumented.source), ?_⟩
  rintro before s u behind rfl
  exact comment_cut hdocumented

def job : Entity :=
  ⟨Reference.toComponent "Job", none, .object [], some "Called \"job\"."⟩

def jobs : Service :=
  ⟨"Jobs", [⟨"run", "post", "/Jobs/run", [], some (.plain (.reference job.reference)),
    some "Runs // at night, or /* now."⟩]⟩

def schedule : Document :=
  ⟨"", "", [jobs], [job]⟩

/-- Neither quotes nor the beginnings of comments mean anything in a description. -/
theorem schedule_comments :
    (after []).read (Endpoint.draft jobs {} "api").finish.contents =
      after [headerBody (Endpoint.draft jobs {} "api"), "*\n * Runs // at night, or /* now.\n "] ∧
    (after []).read (job.typeDraft "api").finish.contents =
      after [headerBody (job.typeDraft "api"), "*\n * Called \"job\".\n "] := by
  obtain ⟨-, h⟩ := @comments_whole_iff {} schedule (by decide) (by decide) (by decide)
    (by decide +kernel) "api"
  have hmodel : ∃ model, job.modelDraft {} "api" = .ok model := ⟨_, rfl⟩
  obtain ⟨model, hmodel⟩ := hmodel
  exact ⟨(h _ _ (.endpoint List.mem_cons_self)).1.mpr (by decide),
    (h _ _ (.type List.mem_cons_self hmodel)).1.mpr (by decide)⟩

/-- A document with an operation whose description has a terminator. -/
def cron : Json :=
  .object [("openapi", .string "3.0.0"), ("paths", .object [("/Jobs/run", .object
    [("post", .object [("description", .string "Runs every */5 minutes.")])])])]

/-- The comment of its description is read up to that terminator. -/
theorem cron_comment_cut : ∃ d s, Document.ofJson cron = .ok d ∧ d.services = [s] ∧
    serviceDescriptions s = ["Runs every */5 minutes."] ∧
    [headerBody (Endpoint.draft s {} "api"), "*\n * Runs every "] <+:
      ((after []).read (Endpoint.draft s {} "api").finish.contents).comments := by
  obtain ⟨d, s, hd, hs, hdescriptions, htypes⟩ : ∃ d s, Document.ofJson cron = .ok d ∧
      d.services = [s] ∧ serviceDescriptions s = ["Runs every */5 minutes."] ∧ serviceTypes s = [] :=
    ⟨_, _, rfl, rfl, by decide +kernel, rfl⟩
  refine ⟨d, s, hd, hs, hdescriptions, ?_⟩
  have hplaced : Placed {} (serviceTypes s) := ⟨by decide, by decide, by simp [htypes]⟩
  have hdocumented : Documented "api" ([] ++ ("Runs every " ++ "*/" ++ "5 minutes.") :: [])
      (Endpoint.draft s {} "api") := hdescriptions ▸ documented_endpoint s hplaced
  exact comment_cut hdocumented (by decide) nofun (by decide)

end TypedClient.Proofs.DescriptionComments
