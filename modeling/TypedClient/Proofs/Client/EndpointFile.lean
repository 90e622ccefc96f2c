import TypedClient.Client.Endpoint
import TypedClient.Proofs.Client.SchemaWork
import TypedClient.Proofs.Module.FreshName
import TypedClient.Proofs.Path.Spot

namespace TypedClient.Proofs.EndpointFile

open TypedClient.Module TypedClient.Text TypedClient.Proofs.DraftImports TypedClient.Proofs.DraftWork
open TypedClient.Proofs.SchemaWork TypedClient.Proofs.Pieces

variable {α β : Type}

def Stays (m : Drafting α) : Prop :=
  ∀ d, (m.run d).2.location = d.location

namespace Stays

theorem pure (a : α) : Stays (pure a) :=
  fun _ => rfl

theorem bind {m : Drafting α} {f : α → Drafting β} (hm : Stays m) (hf : ∀ a, Stays (f a)) :
    Stays (m >>= f) :=
  fun d => (hf (m.run d).1 (m.run d).2).trans (hm d)

theorem map {m : Drafting α} (hm : Stays m) (f : α → β) : Stays (m >>= fun a => Pure.pure (f a)) :=
  hm.bind fun a => pure (f a)

theorem of_work {m : Drafting α} (h : Work m) : Stays m :=
  fun d => (h.grows d).location

theorem forM {f : α → Drafting Unit} (hf : ∀ a, Stays (f a)) (as : List α) : Stays (as.forM f) := by
  induction as with
  | nil => exact pure ()
  | cons a as ih => exact (hf a).bind fun _ => ih

theorem onImports (f : ImportTable → α × ImportTable) : Stays (Draft.onImports f) :=
  fun _ => rfl

end Stays

theorem stays_valueType (s : Schema) : Stays (s.valueType true) :=
  Stays.of_work (makes_schema_valueType {} true s).work

theorem stays_arguments (ps : List Parameter) : Stays (Endpoint.arguments ps) := by
  induction ps with
  | nil => exact Stays.pure []
  | cons p ps ih =>
    exact (Stays.onImports _).bind fun _ => (stays_valueType p.schema).bind fun _ => ih.map _

theorem stays_responseType (response : Option Schema) : Stays (Endpoint.responseType response) := by
  cases response with
  | none => exact Stays.pure _
  | some s => exact stays_valueType s

theorem stays_functionOf (op : Operation) (binding exported : String) :
    Stays (Endpoint.functionOf op binding exported) :=
  (stays_arguments op.parameters).bind fun _ => (stays_responseType op.response).bind fun _ =>
    (Stays.forM (fun _ => Stays.onImports _) _).map _

theorem stays_functionsOf (exported : List String) (ops : List Operation) :
    Stays (Endpoint.functionsOf exported ops) := by
  induction ops generalizing exported with
  | nil => exact Stays.pure []
  | cons op ops ih =>
    exact (Stays.onImports _).bind fun _ => (stays_functionOf op _ _).bind fun _ => (ih _).map _

theorem draft_location (s : Service) (settings : Settings) (source : String) :
    (Endpoint.draft s settings source).location = s.endpointLocation settings := by
  have hget : Stays (get : Drafting Draft) := fun _ => rfl
  have hown : Stays (Draft.bindOwn s.name) := fun _ => rfl
  have h : Stays (Endpoint.make s settings) :=
    hget.bind fun _ => (Stays.onImports _).bind fun _ => hown.bind fun _ =>
      (stays_functionsOf [] s.operations).map _
  exact h _

theorem exists_endpointLocation_eq (s : Service) : ∃ n, s.endpointLocation {} = n ++ "Endpoint" := by
  unfold Service.endpointLocation
  dsimp only
  split
  · rename_i h
    exact endsWith_iff.mp h
  · exact ⟨_, rfl⟩

theorem isPart_of_mem_endpointLocation {s : Service} {c : Char}
    (hc : c ∈ (s.endpointLocation {}).toList) : Identifier.isPart c = true := by
  obtain ⟨d, ds, hd, -, hp⟩ := FreshName.sanitize_isIdentifier s.name
  rw [← hd] at hp
  have hsuffix := List.all_eq_true.mp (by decide : "Endpoint".toList.all Identifier.isPart = true)
  unfold Service.endpointLocation at hc
  dsimp only at hc
  split at hc
  · exact hp c hc
  · rw [String.toList_append, List.mem_append] at hc
    exact hc.elim (hp c) (hsuffix c)

theorem spot_endpointLocation (s : Service) :
    Spot.ofLocation (s.endpointLocation {}) = ⟨false, [], s.endpointLocation {}⟩ := by
  have hslash : '/' ∉ (s.endpointLocation {}).toList := fun h =>
    absurd (isPart_of_mem_endpointLocation h) (by decide)
  have hrelative : Path.isAbsolute (s.endpointLocation {}) = false := by
    have h : Path.isAbsolute ("" ++ s.endpointLocation {}) = Path.isAbsolute "" :=
      Spot.isAbsolute_append hslash
    rwa [String.empty_append] at h
  have hp : pieces '/' (s.endpointLocation {}) = [] ++ [s.endpointLocation {}] :=
    pieces_eq_singleton hslash
  rw [Spot.ofLocation_eq hp, hrelative, List.filter_nil]

theorem endpointLocation_ne_model (s : Service) (name : String) :
    s.endpointLocation {} ≠ name ++ "Model" := by
  obtain ⟨n, hn⟩ := exists_endpointLocation_eq s
  intro h
  have hlast := congrArg (fun t => t.toList.getLast?) (hn.symm.trans h)
  simp only [String.toList_append, List.getLast?_append] at hlast
  change some 't' = some 'l' at hlast
  exact absurd hlast (by decide)

end TypedClient.Proofs.EndpointFile
