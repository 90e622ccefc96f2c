import TypedClient.Proofs.Client.ParameterNames
import TypedClient.Schema.Kind

namespace TypedClient.Proofs.DeclaredParameters

open TypedClient.Document TypedClient.Proofs.DeclaredOperations TypedClient.Proofs.DistinctKeys
open TypedClient.Proofs.ParameterNames TypedClient.Proofs.SchemaReading

/-- What the body of a request declares: the properties of an object, or else one parameter for all of
the body. -/
inductive BodyDeclares (operation : Json) : List Parameter → Prop
  | nothing (h : contentSchema? (operation.get? "requestBody") = none) : BodyDeclares operation []
  | properties {schema : Json} {properties : List Property}
      (h : contentSchema? (operation.get? "requestBody") = some schema)
      (hs : (Schema.ofJson schema).shape = .object properties) :
      BodyDeclares operation ((((schema.get? "properties").bind Json.object?).getD []).map fun m =>
        ⟨m.1, Schema.ofJson m.2, false⟩)
  | whole {schema : Json} (h : contentSchema? (operation.get? "requestBody") = some schema)
      (hs : ∀ properties, (Schema.ofJson schema).shape ≠ .object properties) :
      BodyDeclares operation [⟨"body", Schema.plain (Schema.ofJson schema).shape, false⟩]

/-- The entries that may declare parameters of an operation: those of the path item before its own. -/
def entries (c : Declaration) : List Json :=
  ((c.item.lookup "parameters").bind Json.array?).getD [] ++
    ((c.operation.get? "parameters").bind Json.array?).getD []

/-- An entry that declares a parameter; in the path, or marked as required, it is not optional. -/
structure Declares (e : Json) (p : Parameter) : Prop where
  name : e.getString? "name" = some p.name
  schema : p.schema = ((e.get? "schema").map Schema.ofJson).getD (Schema.plain (.text []))
  optional : p.optional = true ↔
    e.getString? "in" ≠ some "path" ∧ e.get? "required" ≠ some (.bool true)

def entryNames (es : List Json) : List String :=
  es.filterMap (Json.getString? "name")

def lastEntries : List Json → List Json
  | [] => []
  | e :: es => match e.getString? "name" with
    | some name => if name ∈ entryNames es then lastEntries es else e :: lastEntries es
    | none => lastEntries es

/-- Parameters with distinct names: what the body declares and no entry declares again, and behind it
what entries declare last. -/
structure Settled (c : Declaration) (ps : List Parameter) : Prop where
  distinct : (ps.map Parameter.name).Nodup
  placed : ∃ body declared, BodyDeclares c.operation body ∧
    List.Forall₂ Declares (lastEntries (entries c)) declared ∧
    ps = (body.filter fun p => p.name ∉ entryNames (entries c)) ++ declared

variable {e : Json} {p : Parameter} {c : Declaration}

theorem bodyDeclares_bodyParameters (operation : Json) :
    BodyDeclares operation (bodyParameters operation) := by
  rw [bodyParameters]
  split
  · rename_i h
    exact .nothing h
  rename_i schema h
  split
  · rename_i properties hs
    have hdeclared := BodyDeclares.properties h hs
    have hknown : Shape.object properties ≠ .unknown := by simp
    obtain ⟨ms, rfl⟩ := object_of_shape hs hknown
    obtain ⟨members, required, hmembers, rfl⟩ | ⟨hnone, rfl⟩ := properties_cases hs
    · rw [Json.get?, hmembers] at hdeclared
      rw [List.map_map]
      exact hdeclared
    · have hempty : ((ms.lookup "properties").bind Json.object?) = none := by
        refine Option.bind_eq_none_iff.mpr fun j hj => ?_
        cases j with
        | object members => exact absurd hj (hnone members)
        | _ => rfl
      rw [Json.get?, hempty] at hdeclared
      exact hdeclared
  · rename_i hs
    exact .whole h fun properties => hs properties

theorem parameter?_eq_none (h : e.getString? "name" = none) : parameter? e = none := by
  rw [parameter?, h]
  rfl

theorem exists_declares {name : String} (h : e.getString? "name" = some name) :
    ∃ p, parameter? e = some p ∧ Declares e p := by
  rw [parameter?, h]
  refine ⟨_, rfl, h, ?_, ?_⟩
  · cases e.get? "schema" <;> rfl
  · dsimp only
    cases hrequired : e.get? "required" with
    | none => simp
    | some j => cases j <;> simp [Json.bool?]

theorem declare_eq (ps : List Parameter) (p : Parameter) :
    declare ps p = ps.filter (fun q => q.name ≠ p.name) ++ [p] :=
  rfl

/-- Declaring what some entries declare removes their names from what is there, and puts behind it
what they declare last. -/
theorem foldl_declare (es : List Json) (ps : List Parameter) :
    ∃ declared, List.Forall₂ Declares (lastEntries es) declared ∧
      (es.filterMap parameter?).foldl declare ps =
        (ps.filter fun p => p.name ∉ entryNames es) ++ declared := by
  induction es generalizing ps with
  | nil => exact ⟨[], .nil, by simp [entryNames]⟩
  | cons e es ih =>
    cases hname : e.getString? "name" with
    | none =>
      have hnames : entryNames (e :: es) = entryNames es := List.filterMap_cons_none hname
      rw [lastEntries, hname, List.filterMap_cons_none (parameter?_eq_none hname), hnames]
      exact ih ps
    | some name =>
      obtain ⟨p, hp, hdeclares⟩ := exists_declares hname
      obtain ⟨declared, hdeclared, hfold⟩ := ih (declare ps p)
      obtain rfl : p.name = name := Option.some.inj (hdeclares.name.symm.trans hname)
      have hnames : entryNames (e :: es) = p.name :: entryNames es := List.filterMap_cons_some hname
      have hrest : (ps.filter fun q => q.name ≠ p.name).filter (fun q => q.name ∉ entryNames es) =
          ps.filter fun q => q.name ∉ entryNames (e :: es) := by
        rw [List.filter_filter, hnames]
        exact List.filter_congr fun q _ => by simp [Bool.and_comm]
      rw [lastEntries, hname, List.filterMap_cons_some hp, List.foldl_cons, hfold, declare_eq,
        List.filter_append, hrest, List.append_assoc]
      -- the parameter stays at its place unless it is declared again
      dsimp only
      split
      · rename_i hagain
        exact ⟨declared, hdeclared, by simp [hagain]⟩
      · rename_i hlast
        exact ⟨p :: declared, .cons hdeclares hdeclared, by simp [hlast]⟩

theorem parameters_read (c : Declaration) : c.read.parameters =
    ((entries c).filterMap parameter?).foldl declare (bodyParameters c.operation) := by
  rw [entries, List.filterMap_append]
  rfl

theorem settled_read (h : KeyedOnce c.operation) : Settled c c.read.parameters := by
  obtain ⟨declared, hdeclared, hfold⟩ := foldl_declare (entries c) (bodyParameters c.operation)
  exact ⟨distinct_parameters _ h, _, declared, bodyDeclares_bodyParameters c.operation, hdeclared,
    (parameters_read c).trans hfold⟩

/-- The operations of a service have settled parameters. -/
theorem parameters_settled {doc : Json} {d : Document} {s : Service} (h : KeyedOnce doc)
    (hd : Document.ofJson doc = .ok d) (hs : s ∈ d.services) :
    List.Forall₂ (fun c op => Settled c op.parameters) (declarationsFor doc s.name)
      s.operations := by
  refine List.forall₂_iff_zip.mpr ⟨(forall₂_operations hd hs).length_eq, fun {c op} hmem => ?_⟩
  obtain ⟨name, rfl⟩ := List.forall₂_zip (forall₂_operations hd hs) hmem
  have hc : c ∈ declarations doc := List.mem_of_mem_filter (List.of_mem_zip hmem).1
  exact settled_read (keyedOnce_operation h hc)

/-- A document with an operation that declares the page again which its path item and the body of its
request declare, and with a parameter in the path that is marked as optional. -/
def pages : Json :=
  .object [("openapi", .string "3.0.0"), ("paths", .object
    [("/Orders/\x7bid\x7d", .object
      [("parameters", .array
          [.object [("name", .string "page"), ("schema", .object [("type", .string "number")])],
            .object [("name", .string "id"), ("in", .string "path"), ("required", .bool false)]]),
        ("get", .object
          [("requestBody", .object [("content", .object [("application/json", .object
              [("schema", .object [("properties", .object
                [("note", .object []), ("page", .object []), ("id", .object [])])])])])]),
            ("parameters", .array
              [.object [("name", .string "page"), ("schema", .object [("type", .string "integer")])],
                .object [("$ref", .string "#/components/parameters/Sort")]])])])])]

theorem pages_settled : KeyedOnce pages ∧ ∃ d s, Document.ofJson pages = .ok d ∧ s ∈ d.services ∧
    List.Forall₂ (fun c op => Settled c op.parameters) (declarationsFor pages s.name) s.operations ∧
    s.operations.map (fun op => op.parameters.map fun p => (p.name, p.schema.kind, p.optional)) =
      [[("note", .unknown, false), ("id", .text, false), ("page", .integer, true)]] := by
  have hkeyed : KeyedOnce pages := by simp [pages]
  have hdoc : ∃ d, Document.ofJson pages = .ok d ∧ d.services = readServices pages := ⟨_, rfl, rfl⟩
  obtain ⟨d, hdoc, hservices⟩ := hdoc
  obtain ⟨s, hs, hparameters⟩ : ∃ s ∈ readServices pages,
      s.operations.map (fun op => op.parameters.map fun p => (p.name, p.schema.kind, p.optional)) =
        [[("note", .unknown, false), ("id", .text, false), ("page", .integer, true)]] := by
    decide +kernel
  rw [← hservices] at hs
  exact ⟨hkeyed, d, s, hdoc, hs, parameters_settled hkeyed hdoc hs, hparameters⟩

end TypedClient.Proofs.DeclaredParameters
