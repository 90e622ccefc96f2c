import TypedClient.Document.Reading
import TypedClient.Proofs.Client.FilePaths
import TypedClient.Proofs.Path.Joining

namespace TypedClient.Proofs.OutputTree

open TypedClient.Module TypedClient.Path TypedClient.Proofs.Joining TypedClient.Proofs.Location
open TypedClient.Proofs.FilePaths

variable {location : String}

def FromRoot (name : String) : Prop :=
  name.toList.head? = some '.' ∨ name.toList.head? = some '/'

instance (name : String) : Decidable (FromRoot name) :=
  inferInstanceAs (Decidable (_ ∨ _))

theorem place_eq_slash {c : Char} : place c = '/' ↔ c = '.' ∨ c = '/' := by
  by_cases h : c = '/'
  · subst h
    decide
  · rw [place_eq_slash_iff h]
    simp [h]

theorem isAbsolute_location (r : Reference) :
    isAbsolute r.location = true ↔ FromRoot r.fullName := by
  rw [isAbsolute_iff, ← List.head?_eq_some_iff, toList_location, FromRoot]
  cases r.fullName.toList with
  | nil => simp
  | cons c cs => simp [place_eq_slash]

theorem absolute_ofLocation (location : String) :
    (Spot.ofLocation location).absolute = isAbsolute location := rfl

/-- The file of a location without points stays below every root unless the location is absolute. -/
theorem staysBelow_file (h : '.' ∉ location.toList) :
    StaysBelow (location ++ ".ts") ↔ isAbsolute location = false := by
  rw [staysBelow_iff, Spot.components_ofLocation h, Spot.components]
  rw [absolute_ofLocation]
  cases isAbsolute location with
  | true =>
    rw [if_pos rfl, iff_false_right (by decide)]
    rintro ⟨names, -, h⟩
    cases names <;> simp at h
  | false =>
    refine iff_of_true ⟨(Spot.ofLocation location).directories ++
      [(Spot.ofLocation location).name ++ ".ts"], by simp, ?_⟩ rfl
    simp

theorem staysBelow_servicePath (s : Service) : StaysBelow (servicePath {} s) := by
  rw [servicePath, staysBelow_file (dot_not_mem_endpointLocation s), ← absolute_ofLocation,
    EndpointFile.spot_endpointLocation]

theorem staysBelow_entityPaths (e : Entity) :
    ∀ p ∈ entityPaths {} e, StaysBelow p ↔ ¬ FromRoot e.name := by
  have hmodel : isAbsolute (e.modelLocation {}) = isAbsolute e.reference.location :=
    Spot.isAbsolute_append (by decide)
  have hname : isAbsolute e.reference.location = false ↔ ¬ FromRoot e.name := by
    rw [Entity.name, ← isAbsolute_location, Bool.not_eq_true]
  intro p hp
  obtain rfl | hp := List.mem_cons.mp hp
  · rw [staysBelow_file (dot_not_mem_location e.reference), hname]
  · obtain rfl := List.mem_singleton.mp hp
    rw [staysBelow_file (dot_not_mem_modelLocation e), hmodel, hname]

/-- All files of a document have relative paths and stay below whatever directory they are written
to, just when no entity with files has a name that begins with a point or a slash. -/
theorem files_stay_below_iff (d : Document) (source : String) :
    (∀ f ∈ (Generation.ofDocument d {} source).files,
      isAbsolute f.path = false ∧ StaysBelow f.path) ↔
      ∀ e ∈ generated {} source d, ¬ FromRoot e.name := by
  have hpaths : (∀ f ∈ (Generation.ofDocument d {} source).files,
      isAbsolute f.path = false ∧ StaysBelow f.path) ↔
      ∀ p ∈ (Generation.ofDocument d {} source).files.map File.path, StaysBelow p := by
    simp only [and_iff_right_of_imp StaysBelow.relative, List.forall_mem_map]
  rw [hpaths, paths_ofDocument]
  simp only [List.forall_mem_append, List.forall_mem_map, List.forall_mem_flatMap]
  constructor
  · intro h e he
    exact (staysBelow_entityPaths e _ List.mem_cons_self).mp (h.2 e he _ List.mem_cons_self)
  · intro h
    exact ⟨fun s _ => staysBelow_servicePath s,
      fun e he p hp => (staysBelow_entityPaths e p hp).mpr (h e he)⟩

/-- A document with a component whose name begins with a point. -/
def pointed : Json :=
  .object [("openapi", .string "3.0.0"), ("components", .object [("schemas", .object
    [(".Order", .object [("type", .string "object")])])])]

/-- The files of such a component stand at the root of the file system, wherever they are written. -/
theorem component_at_root :
    ∃ d, Document.ofJson pointed = .ok d ∧
      (Generation.ofDocument d {} "api").files.map File.path = ["/Order.ts", "/OrderModel.ts"] ∧
      (∀ root, join root "/Order.ts" = "/Order.ts") ∧ ¬ StaysBelow "/Order.ts" := by
  refine ⟨_, rfl, by decide +kernel, fun _ => rfl, ?_⟩
  have hfile : StaysBelow ("/Order" ++ ".ts") ↔ isAbsolute "/Order" = false :=
    staysBelow_file (by decide)
  exact hfile.not.mpr (by decide)

end TypedClient.Proofs.OutputTree
