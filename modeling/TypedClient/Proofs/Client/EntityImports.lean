import TypedClient.Proofs.Client.EntityParts

namespace TypedClient.Proofs.EntityImports

open TypedClient.Module TypedClient.Proofs.DraftImports TypedClient.Proofs.Mentions
open TypedClient.Proofs.SchemaWork TypedClient.Proofs.EntityParts

variable (settings : Settings)

variable {settings} in
theorem requests_of_makes {α : Type} {ms : List Mention} {m : Drafting α} (h : Makes settings ms m) :
    Requests m (ms.map (Mention.location settings)) := by
  induction h with
  | pure a => exact Requests.pure a
  | bind hm hf ihm ihf =>
    rw [List.map_append]
    exact ihm.bind ihf
  | mention m typeOnly => exact requests_importFrom _ _ typeOnly
  | formClass h => exact requests_namedImport _ _ _

variable {settings} in
theorem requestsOk_of_makes {ε α : Type} {ms : List Mention} {m : ExceptT ε Drafting α}
    (h : MakesOk settings ms m) : RequestsOk m (ms.map (Mention.location settings)) := by
  induction h with
  | pure a => exact RequestsOk.pure a
  | throw e => exact RequestsOk.throw e
  | lift hm => exact RequestsOk.lift (requests_of_makes hm)
  | bind hm hf ihm ihf =>
    rw [List.map_append]
    exact ihm.bind ihf
  | adapt hm g ih => exact ih.adapt g

theorem typeDraft_importsFrom (e : Entity) (source : String) :
    (e.typeDraft source).location = e.reference.location ∧
      ImportsFrom ((mentions e .type).map (Mention.location settings)) (e.typeDraft source) := by
  have h := fun name => (requests_of_makes (makes_typeParts settings e name)).bind
    fun t => requests_declare (e.typeText t)
  simp only [List.append_nil] at h
  rw [Entity.typeDraft, Entity.buildType_eq, run_bind]
  exact importsFrom_of_asks (h _ _)

theorem run_of_modelDraft {e : Entity} {source : String} {d : Draft}
    (hd : e.modelDraft settings source = .ok d) :
    (e.buildModel settings).run.run { location := e.modelLocation settings, source } =
      (.ok (), d) := by
  unfold Entity.modelDraft at hd
  split at hd
  · rename_i r hr
    rw [hr, Except.ok.inj hd]
  · cases hd

theorem modelDraft_importsFrom {e : Entity} {source : String} {d : Draft}
    (hd : e.modelDraft settings source = .ok d) :
    d.location = e.modelLocation settings ∧
      ImportsFrom ((mentions e .model).map (Mention.location settings)) d := by
  have h := fun name => (requestsOk_of_makes (makes_modelParts settings e name)).bind
    fun m => RequestsOk.lift (requests_declare (e.modelDeclaration m))
  simp only [List.append_nil] at h
  have hrun := run_of_modelDraft settings hd
  rw [Entity.buildModel_eq, liftM_run_bind] at hrun
  exact importsFrom_of_asks (asks_of_run (h _) hrun)

end TypedClient.Proofs.EntityImports
