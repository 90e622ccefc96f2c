import TypedClient.Proofs.Client.SchemaReading
import TypedClient.Proofs.Document.DeclaredOperations
import TypedClient.Proofs.Json.DistinctKeys

namespace TypedClient.Proofs.ParameterNames

open TypedClient.Document TypedClient.Proofs.DeclaredOperations TypedClient.Proofs.DistinctKeys
open TypedClient.Proofs.SchemaReading

variable {j : Json} {ps : List Parameter} {op : Operation} {s : Service}

def DistinctNames (ps : List Parameter) : Prop :=
  (ps.map Parameter.name).Nodup

theorem DistinctNames.declare (h : DistinctNames ps) (p : Parameter) :
    DistinctNames (declare ps p) := by
  have hkept : DistinctNames (ps.filter fun q => q.name ≠ p.name) :=
    h.sublist (List.filter_sublist.map _)
  have hnew : p.name ∉ (ps.filter fun q => q.name ≠ p.name).map Parameter.name := by
    intro hp
    obtain ⟨q, hq, hname⟩ := List.mem_map.mp hp
    simp [hname] at hq
  rw [DistinctNames, Document.declare, List.map_append]
  exact hkept.append (List.nodup_singleton _) (List.disjoint_singleton.mpr hnew)

theorem DistinctNames.foldl (h : DistinctNames ps) (declared : List Parameter) :
    DistinctNames (declared.foldl Document.declare ps) := by
  induction declared generalizing ps with
  | nil => exact h
  | cons p declared ih => exact ih (h.declare p)

theorem distinct_properties {properties : List Property} (h : KeyedOnce j)
    (hs : (Schema.ofJson j).shape = .object properties) : (properties.map Property.name).Nodup := by
  obtain ⟨ms, rfl⟩ := object_of_shape hs nofun
  obtain ⟨members, required, hmembers, rfl⟩ | ⟨-, rfl⟩ := properties_cases hs
  · have hkeyed : KeyedOnce (.object members) := h.get? (k := "properties") hmembers
    rw [List.map_map]
    exact (keyedOnce_object_iff.mp hkeyed).2
  · exact List.nodup_nil

theorem keyedOnce_contentSchema? {container : Option Json} (h : ∀ c ∈ container, KeyedOnce c)
    (hj : contentSchema? container = some j) : KeyedOnce j := by
  simp only [contentSchema?, Option.bind_eq_bind, Option.bind_eq_some_iff] at hj
  obtain ⟨c, hc, content, hcontent, ms, hms, media, hmedia, hschema⟩ := hj
  obtain ⟨k, hk⟩ : ∃ k, (k, media) ∈ ms := by
    obtain hlookup | ⟨-, hhead⟩ := Option.or_eq_some_iff.mp hmedia
    · exact ⟨_, mem_of_lookup hlookup⟩
    · obtain ⟨m, hm, rfl⟩ := Option.map_eq_some_iff.mp hhead
      exact ⟨m.1, List.mem_of_head? hm⟩
  exact (((h c hc).get? hcontent).of_object? hms _ hk).get? hschema

theorem distinct_bodyParameters (h : KeyedOnce j) : DistinctNames (bodyParameters j) := by
  rw [bodyParameters]
  split
  · exact List.nodup_nil
  rename_i schema hschema
  have hkeyed : KeyedOnce schema := keyedOnce_contentSchema? (fun c hc => h.get? hc) hschema
  split
  · rename_i properties hs
    have hnames := distinct_properties hkeyed hs
    rwa [DistinctNames, List.map_map]
  · exact List.nodup_singleton _

theorem distinct_parameters (shared : Option Json) (h : KeyedOnce j) :
    DistinctNames (parameters shared j) :=
  (distinct_bodyParameters h).foldl _

theorem keyedOnce_operation {c : Declaration} (h : KeyedOnce j) (hc : c ∈ declarations j) :
    KeyedOnce c.operation := by
  obtain ⟨paths, hpaths, hitem, hkey, -⟩ := mem_declarations_iff.mp hc
  have hitem : KeyedOnce (.object c.item) := (h.get? hpaths).of_object? rfl _ hitem
  exact hitem.of_object? rfl _ hkey

theorem distinct_of_ofJson {d : Document} (h : KeyedOnce j) (hd : Document.ofJson j = .ok d)
    (hs : s ∈ d.services) (hop : op ∈ s.operations) : DistinctNames op.parameters := by
  obtain ⟨c, hc, name, rfl⟩ := exists_declaration hd hs hop
  exact distinct_parameters _ (keyedOnce_operation h hc)

end TypedClient.Proofs.ParameterNames
