import TypedClient.Document.Reading
import TypedClient.Client.Endpoint
import TypedClient.Proofs.Module.FreshName

namespace TypedClient.Proofs.EndpointExports

open TypedClient.Module TypedClient.Identifier TypedClient.Proofs.FreshName

variable {exported : List String} {ops : List Operation}

/-- The names that an endpoint module exports: its functions, the object that holds them all, and the
default export. -/
def exports (e : Endpoint) : List String :=
  e.functions.map Endpoint.Function.exported ++ [e.aggregate, "default"]

/-- The names that operations are exported under when some names are exported already. -/
def exportNames : List String → List Operation → List String
  | _, [] => []
  | exported, op :: ops =>
    let name := unique exported (sanitize op.name)
    name :: exportNames (name :: exported) ops

theorem functionsOf_operations (exported : List String) (ops : List Operation) (d : Draft) :
    ((Endpoint.functionsOf exported ops).run d).1.map Endpoint.Function.operation = ops := by
  induction ops generalizing exported d with
  | nil => rfl
  | cons op ops ih => exact congrArg (op :: ·) (ih _ _)

theorem functionsOf_exported (exported : List String) (ops : List Operation) (d : Draft) :
    ((Endpoint.functionsOf exported ops).run d).1.map Endpoint.Function.exported =
      exportNames exported ops := by
  induction ops generalizing exported d with
  | nil => rfl
  | cons op ops ih => exact congrArg (_ :: ·) (ih _ _)

theorem exportNames_eq (exported : List String) (ops : List Operation) :
    exportNames exported ops = uniques exported (ops.map fun op => sanitize op.name) := by
  induction ops generalizing exported with
  | nil => rfl
  | cons op ops ih => exact congrArg (_ :: ·) (ih _)

theorem exportNames_nodup (exported : List String) (ops : List Operation) :
    (exportNames exported ops).Nodup ∧ ∀ n ∈ exportNames exported ops, n ∉ exported := by
  rw [exportNames_eq]
  exact nodup_uniques _ _

theorem sanitize_mem_exportNames {op : Operation} (hop : op ∈ ops) (exported : List String) :
    sanitize op.name ∈ exported ∨ sanitize op.name ∈ exportNames exported ops := by
  induction ops generalizing exported with
  | nil => cases hop
  | cons o ops ih =>
    rw [exportNames, List.mem_cons]
    obtain rfl | hop := List.mem_cons.mp hop
    · obtain ⟨-, he⟩ | ⟨h, -⟩ := unique_cases exported (sanitize op.name)
      · exact .inr (.inl he.symm)
      · exact .inl h
    · obtain h | h := ih hop (unique exported (sanitize o.name) :: exported)
      · obtain h | h := List.mem_cons.mp h
        · exact .inr (.inl h)
        · exact .inl h
      · exact .inr (.inr h)

/-- A name without an underscore is exported only for an operation of that name. -/
theorem operation_of_mem_exportNames {n : String} (h : n ∈ exportNames exported ops)
    (hn : '_' ∉ n.toList) : ∃ op ∈ ops, op.name = n := by
  induction ops generalizing exported with
  | nil => cases h
  | cons op ops ih =>
    obtain rfl | h := List.mem_cons.mp h
    · refine ⟨op, List.mem_cons_self, ?_⟩
      obtain ⟨-, he⟩ | ⟨-, k, he, -⟩ := unique_cases exported (sanitize op.name)
      · rw [he] at hn ⊢
        exact ((sanitize_cases op.name).resolve_right hn).symm
      · rw [he] at hn
        exact absurd (underscore_mem_numbered _ k) hn
    · obtain ⟨o, ho, hname⟩ := ih h
      exact ⟨o, List.mem_cons_of_mem op ho, hname⟩

theorem default_mem_exportNames_iff :
    "default" ∈ exportNames [] ops ↔ ∃ op ∈ ops, op.name = "default" := by
  constructor
  · exact fun h => operation_of_mem_exportNames h (by decide)
  · rintro ⟨op, hop, hname⟩
    have hself : sanitize op.name = "default" := by
      rw [hname]
      decide
    obtain h | h := sanitize_mem_exportNames hop []
    · cases h
    · rwa [hself] at h

theorem aggregate_ne_default (s : Service) (settings : Settings) (source : String) :
    (Endpoint.made s settings source).1.aggregate ≠ "default" := by
  obtain ⟨t, ht⟩ : ∃ t : ImportTable,
      (Endpoint.made s settings source).1.aggregate = t.freshName s.name := ⟨_, rfl⟩
  have hreserved : "default" ∈ reservedWords := by decide
  rw [ht]
  intro h
  exact (freshName_isNameFor t s.name).not_mem_reservedWords (h ▸ hreserved)

/-- Each operation has a function, and the functions are exported under distinct names. All exports
of the module are distinct just when no function is exported like the object that holds them all and
no operation is named `default`. -/
theorem exports_nodup_iff (s : Service) (settings : Settings) (source : String) :
    let e := (Endpoint.made s settings source).1
    (Endpoint.draft s settings source).declarations = e.declarations s.name ∧
    e.functions.map Endpoint.Function.operation = s.operations ∧
    (e.functions.map Endpoint.Function.exported).Nodup ∧
    ((exports e).Nodup ↔
      ∀ f ∈ e.functions, f.exported ≠ e.aggregate ∧ f.operation.name ≠ "default") := by
  intro e
  have hops : e.functions.map Endpoint.Function.operation = s.operations :=
    functionsOf_operations [] s.operations _
  have hnames : e.functions.map Endpoint.Function.exported = exportNames [] s.operations :=
    functionsOf_exported [] s.operations _
  have hnodup : (e.functions.map Endpoint.Function.exported).Nodup :=
    hnames ▸ (exportNames_nodup [] s.operations).1
  have hdefault : "default" ∉ e.functions.map Endpoint.Function.exported ↔
      ∀ f ∈ e.functions, f.operation.name ≠ "default" := by
    rw [hnames, default_mem_exportNames_iff, ← hops]
    simp
  have haggregate : e.aggregate ∉ e.functions.map Endpoint.Function.exported ↔
      ∀ f ∈ e.functions, f.exported ≠ e.aggregate := by
    simp
  have hapart : [e.aggregate, "default"].Nodup := by
    simpa using aggregate_ne_default s settings source
  refine ⟨rfl, hops, hnodup, ?_⟩
  rw [exports, List.nodup_append_comm, List.nodup_append']
  simp only [hapart, hnodup, true_and, List.disjoint_cons_left, haggregate, hdefault,
    List.disjoint_nil_left, and_true]
  exact ⟨fun h f hf => ⟨h.1 f hf, h.2 f hf⟩, fun h => ⟨fun f hf => (h f hf).1, fun f hf => (h f hf).2⟩⟩

/-- A document with a service that has an operation of its own name, and one that is named
`default`. -/
def orders : Json :=
  .object [("openapi", .string "3.0.0"), ("paths", .object
    [("/Orders/Orders", .object [("post", .object [])]),
      ("/Orders/default", .object [("post", .object [])])])]

/-- Its module exports two names twice. -/
theorem orders_exported_twice :
    ∃ d s, Document.ofJson orders = .ok d ∧ d.services = [s] ∧
      exports (Endpoint.made s {} "api").1 = ["Orders", "default", "Orders", "default"] ∧
      ¬ (exports (Endpoint.made s {} "api").1).Nodup := by
  refine ⟨_, _, rfl, rfl, by decide +kernel, by decide +kernel⟩

end TypedClient.Proofs.EndpointExports
