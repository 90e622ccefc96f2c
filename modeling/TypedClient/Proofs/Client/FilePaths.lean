import Mathlib.Data.List.Pairwise
import TypedClient.Client.Generation
import TypedClient.Proofs.Client.EndpointFile
import TypedClient.Proofs.Client.EntityImports
import TypedClient.Proofs.Client.Location

namespace TypedClient.Proofs.FilePaths

open TypedClient.Module TypedClient.Proofs.EntityImports TypedClient.Proofs.EndpointFile

variable (settings : Settings) (source : String)

def generated (d : Document) : List Entity :=
  d.entities.filter fun e => (e.modelDraft settings source).toBool

def servicePath (s : Service) : String :=
  s.endpointLocation settings ++ ".ts"

def entityPaths (e : Entity) : List String :=
  [e.reference.location ++ ".ts", e.modelLocation settings ++ ".ts"]

theorem paths_ofEntity (e : Entity) :
    (Generation.filesOf (Generation.ofEntity settings source e)).map File.path =
      if (e.modelDraft settings source).toBool then entityPaths settings e else [] := by
  unfold Generation.ofEntity
  cases h : e.modelDraft settings source with
  | error f => rfl
  | ok D =>
    have htype := (typeDraft_importsFrom settings e source).1
    have hmodel := (modelDraft_importsFrom settings h).1
    change [(e.typeDraft source).location ++ ".ts", D.location ++ ".ts"] = _
    rw [htype, hmodel]
    rfl

theorem paths_ofDocument (d : Document) :
    (Generation.ofDocument d settings source).files.map File.path =
      d.services.map (servicePath settings) ++
        (generated settings source d).flatMap (entityPaths settings) := by
  have hservices : ((d.services.map fun s => Except.ok (Generation.ofService settings source s)).flatMap
      Generation.filesOf).map File.path = d.services.map (servicePath settings) := by
    induction d.services with
    | nil => rfl
    | cons s ss ih =>
      rw [List.map_cons, List.flatMap_cons, List.map_append, ih, List.map_cons]
      change [(Endpoint.draft s settings source).location ++ ".ts"] ++ _ = _
      rw [draft_location]
      rfl
  have hentities : ((d.entities.map (Generation.ofEntity settings source)).flatMap
      Generation.filesOf).map File.path =
        (generated settings source d).flatMap (entityPaths settings) := by
    unfold generated
    induction d.entities with
    | nil => rfl
    | cons e es ih =>
      rw [List.map_cons, List.flatMap_cons, List.map_append, ih, paths_ofEntity, List.filter_cons]
      split <;> simp
  change ((Generation.units d settings source).flatMap Generation.filesOf).map File.path = _
  rw [Generation.units, List.flatMap_append, List.map_append, hservices, hentities]

def Apart (p q : String) : Prop :=
  Path.same p q = false

def spot (e : Entity) : Spot :=
  Spot.ofLocation e.reference.location

variable {source} (s t : Service) (e f : Entity)

theorem apart_iff {l m : String} (hl : '.' ∉ l.toList) (hm : '.' ∉ m.toList) :
    Apart (l ++ ".ts") (m ++ ".ts") ↔ Spot.ofLocation l ≠ Spot.ofLocation m := by
  rw [Apart, ← Bool.not_eq_true, Spot.same_iff hl hm]

theorem dot_not_mem_endpointLocation : '.' ∉ (s.endpointLocation {}).toList := fun h =>
  absurd (isPart_of_mem_endpointLocation h) (by decide)

theorem dot_not_mem_modelLocation : '.' ∉ (e.modelLocation {}).toList := by
  rw [Entity.modelLocation, String.toList_append, List.mem_append, not_or]
  exact ⟨Location.dot_not_mem_location e.reference, by decide⟩

theorem spot_modelLocation : Spot.ofLocation (e.modelLocation {}) = (spot e).add "Model" :=
  Spot.ofLocation_append (by decide)

theorem apart_services_iff :
    Apart (servicePath {} s) (servicePath {} t) ↔ s.endpointLocation {} ≠ t.endpointLocation {} := by
  rw [servicePath, servicePath, apart_iff (dot_not_mem_endpointLocation s)
    (dot_not_mem_endpointLocation t), spot_endpointLocation, spot_endpointLocation]
  simp

/-- A service and an entity are apart unless the entity's type has the name of the service's file:
no model has the name of an endpoint. -/
theorem apart_service_entity_iff :
    (∀ p ∈ entityPaths {} e, Apart (servicePath {} s) p) ↔
      spot e ≠ ⟨false, [], s.endpointLocation {}⟩ := by
  have hs := dot_not_mem_endpointLocation s
  have hmodel : (⟨false, [], s.endpointLocation {}⟩ : Spot) ≠ (spot e).add "Model" := by
    intro h
    have hname : s.endpointLocation {} = (spot e).name ++ "Model" := (Spot.mk.inj h).2.2
    exact endpointLocation_ne_model s (spot e).name hname
  simp only [entityPaths, servicePath, List.forall_mem_cons, List.not_mem_nil, false_imp_iff,
    implies_true, and_true, apart_iff hs (Location.dot_not_mem_location e.reference),
    apart_iff hs (dot_not_mem_modelLocation e), spot_modelLocation, spot_endpointLocation]
  exact ⟨fun h => h.1.symm, fun h => ⟨h.symm, hmodel⟩⟩

theorem apart_entity : (entityPaths {} e).Pairwise Apart := by
  have h : Apart (e.reference.location ++ ".ts") (e.modelLocation {} ++ ".ts") := by
    rw [apart_iff (Location.dot_not_mem_location e.reference) (dot_not_mem_modelLocation e),
      spot_modelLocation]
    exact Spot.ne_add _ (by decide)
  simpa [entityPaths] using h

theorem apart_entities_iff :
    (∀ p ∈ entityPaths {} e, ∀ q ∈ entityPaths {} f, Apart p q) ↔
      spot e ≠ spot f ∧ spot f ≠ (spot e).add "Model" ∧ spot e ≠ (spot f).add "Model" := by
  have he := Location.dot_not_mem_location e.reference
  have hf := Location.dot_not_mem_location f.reference
  have he' := dot_not_mem_modelLocation e
  have hf' := dot_not_mem_modelLocation f
  have hmodels : (spot e).add "Model" ≠ (spot f).add "Model" ↔ spot e ≠ spot f :=
    (Spot.add_injective "Model").ne_iff
  simp only [entityPaths, List.forall_mem_cons, List.not_mem_nil, false_imp_iff, implies_true,
    and_true, apart_iff he hf, apart_iff he hf', apart_iff he' hf, apart_iff he' hf',
    spot_modelLocation, hmodels]
  exact ⟨fun h => ⟨h.1.1, h.2.1.symm, h.1.2⟩, fun h => ⟨⟨h.1, h.2.2⟩, h.2.1.symm, h.1⟩⟩

theorem pairwise_models_iff (es : List Entity) :
    es.Pairwise (fun e f => spot f ≠ (spot e).add "Model" ∧ spot e ≠ (spot f).add "Model") ↔
      ∀ e ∈ es, ∀ f ∈ es, spot f ≠ (spot e).add "Model" := by
  constructor
  · intro h e he f hf
    have hself : ∀ x ∈ es, spot x ≠ (spot x).add "Model" ∧ spot x ≠ (spot x).add "Model" := fun x _ =>
      ⟨Spot.ne_add _ (by decide), Spot.ne_add _ (by decide)⟩
    have : Std.Symm fun e f => spot f ≠ (spot e).add "Model" ∧ spot e ≠ (spot f).add "Model" :=
      ⟨fun _ _ h => h.symm⟩
    exact (h.forall_of_forall hself he hf).1
  · exact fun h => List.pairwise_of_forall_mem_list fun e he f hf => ⟨h e he f hf, h f hf e he⟩

/-- No file of a document has the path of another exactly where the services have different file
names, the entities different spots, no entity that of another's model and none that of a
service. -/
theorem files_apart_iff (d : Document) (source : String) :
    (Generation.ofDocument d {} source).files.Pairwise (fun f g => Apart f.path g.path) ↔
      d.services.Pairwise (fun s t => s.endpointLocation {} ≠ t.endpointLocation {}) ∧
      (generated {} source d).Pairwise (fun e f => spot e ≠ spot f) ∧
      (∀ e ∈ generated {} source d, ∀ f ∈ generated {} source d, spot f ≠ (spot e).add "Model") ∧
      ∀ s ∈ d.services, ∀ e ∈ generated {} source d, spot e ≠ ⟨false, [], s.endpointLocation {}⟩ := by
  rw [← List.pairwise_map (f := File.path), paths_ofDocument, List.pairwise_append,
    List.pairwise_map, List.pairwise_flatMap]
  have hmodels : (generated {} source d).Pairwise
      (fun e f => spot f ≠ (spot e).add "Model" ∧ spot e ≠ (spot f).add "Model") ↔
        ∀ e ∈ generated {} source d, ∀ f ∈ generated {} source d, spot f ≠ (spot e).add "Model" :=
    pairwise_models_iff _
  have hservices : (∀ p ∈ d.services.map (servicePath {}),
      ∀ q ∈ (generated {} source d).flatMap (entityPaths {}), Apart p q) ↔
        ∀ s ∈ d.services, ∀ e ∈ generated {} source d, spot e ≠ ⟨false, [], s.endpointLocation {}⟩ := by
    simp only [List.forall_mem_map, List.forall_mem_flatMap, apart_service_entity_iff]
  simp only [apart_services_iff, apart_entities_iff, List.pairwise_and_iff, hmodels, hservices,
    apart_entity, and_assoc, implies_true, true_and]

def bare (name : String) : Entity :=
  ⟨Reference.toComponent name, none, .object [], none⟩

/-- The model of one entity and the type of another have one file. -/
theorem model_overwrites_type :
    ¬ (Generation.ofDocument ⟨"", "", [], [bare "Order", bare "OrderModel"]⟩ {} "api").files.Pairwise
      (fun f g => Apart f.path g.path) := by
  have hpaths : (Generation.ofDocument ⟨"", "", [], [bare "Order", bare "OrderModel"]⟩ {}
      "api").files.map File.path =
        ["Order.ts", "OrderModel.ts", "OrderModel.ts", "OrderModelModel.ts"] := by
    decide +kernel
  rw [← List.pairwise_map (f := File.path), hpaths]
  unfold Apart
  decide +kernel

end TypedClient.Proofs.FilePaths
