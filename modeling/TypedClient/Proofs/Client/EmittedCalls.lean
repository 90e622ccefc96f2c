import TypedClient.Call
import TypedClient.Proofs.Client.EndpointScopes
import TypedClient.Proofs.Client.FunctionReading
import TypedClient.Proofs.Client.ParameterNames

namespace TypedClient.Proofs.EmittedCalls

open TypedClient.Module TypedClient.Endpoint TypedClient.Proofs.BlockComments
open TypedClient.Proofs.DistinctKeys TypedClient.Proofs.DraftImports TypedClient.Proofs.DraftWork
open TypedClient.Proofs.EndpointComments TypedClient.Proofs.EndpointScopes
open TypedClient.Proofs.FreshName TypedClient.Proofs.FunctionReader TypedClient.Proofs.FunctionReading
open TypedClient.Proofs.HeldNames TypedClient.Proofs.ImportRequests TypedClient.Proofs.Members
open TypedClient.Proofs.ParameterNames TypedClient.Proofs.PlainSchemas

/-- What parameters stand for when some arguments are given: those that are missing at the end are
undefined. -/
def locals : List String → List Json → List (String × Option Json)
  | [], _ => []
  | p :: ps, args => (p, args.head?) :: locals ps args.tail

def parts : Member → String × String
  | .shorthand name => (name, name)
  | .keyed key value => (key, value)

/-- A key `__proto__` with a colon behind it sets the prototype of an object and no property of it. -/
def setsPrototype : Member → Bool
  | .shorthand _ => false
  | .keyed key _ => key = "__proto__"

/-- The properties that are set in an object, those that are undefined left out; none where a variable
stands for no parameter. -/
def properties (scope : List (String × Option Json)) :
    List Member → Option (List (String × Json))
  | [] => some []
  | m :: ms => do
    let value ← scope.lookup (parts m).2
    let rest ← properties scope ms
    some ((if setsPrototype m then [] else (value.map ((parts m).1, ·)).toList) ++ rest)

/-- The call that a function makes in a module that has the client under some name. There is no such
function if two parameters have one name. -/
def emittedCall (g : Emitted) (client : String) (args : List Json) : Option Call :=
  if g.parameters.Nodup ∧ g.callee = client ∧ client ∉ g.parameters then
    (properties (locals g.parameters args) g.bag).map fun ps =>
      ⟨g.service, g.operation, Json.ofMembers ps⟩
  else none

section Calls

variable {as : List Argument} {args : List Json}

def Lost (a : Argument) : Prop :=
  a.name = "__proto__" ∧ a.binding ≠ "__proto__"

instance (a : Argument) : Decidable (Lost a) :=
  inferInstanceAs (Decidable (_ ∧ _))

def passed (as : List Argument) (args : List Json) : List (String × Json) :=
  ((as.zip args).filter fun p => ¬ Lost p.1).map fun p => (p.1.name, p.2)

theorem parts_memberOf (a : Argument) : parts (memberOf a) = (a.name, a.binding) := by
  rw [memberOf]
  split
  · rename_i h
    rw [parts, ← h]
  · rfl

theorem setsPrototype_memberOf (a : Argument) : setsPrototype (memberOf a) = decide (Lost a) := by
  rw [memberOf]
  split
  · rename_i h
    have hkept : ¬ Lost a := fun hlost => hlost.2 (h ▸ hlost.1)
    rw [setsPrototype, decide_eq_false hkept]
  · rename_i h
    rw [setsPrototype, decide_eq_decide]
    exact ⟨fun hname => ⟨hname, fun hb => h (hname.trans hb.symm)⟩, And.left⟩

theorem passed_cons (a : Argument) (as : List Argument) (args : List Json) :
    passed (a :: as) args =
      (if Lost a then [] else (args.head?.map (a.name, ·)).toList) ++ passed as args.tail := by
  cases args with
  | nil => simp [passed]
  | cons v args =>
    by_cases h : Lost a <;> simp [passed, h]

theorem properties_memberOf {scope : List (String × Option Json)}
    (hnodup : (as.map Argument.binding).Nodup)
    (hscope : ∀ id ∈ as.map Argument.binding,
      scope.lookup id = (locals (as.map Argument.binding) args).lookup id) :
    properties scope (as.map memberOf) = some (passed as args) := by
  -- along the parameters: behind the first, the others stand for the arguments behind the first
  induction as generalizing args with
  | nil => rfl
  | cons a as ih =>
    obtain ⟨hnew, hnodup⟩ := List.nodup_cons.mp hnodup
    have hfirst : scope.lookup a.binding = some args.head? := by
      rw [hscope _ List.mem_cons_self, List.map_cons, locals, List.lookup_cons_self]
    have hrest : properties scope (as.map memberOf) = some (passed as args.tail) := by
      refine ih hnodup fun id hid => ?_
      have hne : (id == a.binding) = false := beq_false_of_ne fun h => hnew (h ▸ hid)
      rw [hscope id (List.mem_cons_of_mem _ hid), List.map_cons, locals, List.lookup_cons, hne]
    rw [List.map_cons, properties, parts_memberOf, hfirst, hrest, passed_cons,
      setsPrototype_memberOf]
    simp

theorem passed_of_kept (h : ∀ a ∈ as, ¬ Lost a) (args : List Json) :
    passed as args = (as.map Argument.name).zip args := by
  have hall : (as.zip args).filter (fun p => ¬ Lost p.1) = as.zip args :=
    List.filter_eq_self.mpr fun p hp => decide_eq_true (h p.1 (List.of_mem_zip hp).1)
  rw [passed, hall, List.zip_map_left]
  rfl

theorem length_passed_nulls (as : List Argument) :
    (passed as (List.replicate as.length .null)).length =
      (as.filter fun a => ¬ Lost a).length := by
  induction as with
  | nil => rfl
  | cons a as ih =>
    rw [List.length_cons, List.replicate_succ, passed_cons]
    by_cases h : Lost a <;> simpa [h] using ih

theorem passed_eq_iff : (∀ args, args.length ≤ as.length →
    passed as args = (as.map Argument.name).zip args) ↔ ∀ a ∈ as, ¬ Lost a := by
  refine ⟨fun h a ha hlost => ?_, fun h args _ => passed_of_kept h args⟩
  -- with an argument for each parameter, one that is lost makes the bag smaller
  have hbag := congrArg List.length
    (h (List.replicate as.length .null) (Nat.le_of_eq List.length_replicate))
  rw [length_passed_nulls, List.length_zip, List.length_map, List.length_replicate,
    Nat.min_self] at hbag
  exact of_decide_eq_true (List.length_filter_eq_length_iff.mp hbag a ha) hlost

theorem keys_zip (names : List String) (args : List Json) :
    ((names.zip args).map Prod.fst).Sublist names := by
  induction names generalizing args with
  | nil => exact List.Sublist.refl _
  | cons n names ih =>
    cases args with
    | nil => exact List.nil_sublist _
    | cons v args => exact (ih args).cons_cons n

theorem keys_passed (as : List Argument) (args : List Json) :
    ((passed as args).map Prod.fst).Sublist (as.map Argument.name) := by
  have hzip : ((as.zip args).map fun p => (p.1.name, p.2)) = (as.map Argument.name).zip args := by
    rw [List.zip_map_left]
    rfl
  have hsub := ((List.filter_sublist (p := fun p => ¬ Lost p.1) (l := as.zip args)).map
    fun p => (p.1.name, p.2)).map Prod.fst
  rw [hzip] at hsub
  exact hsub.trans (keys_zip _ args)

theorem emittedCall_eq {name client service operation : String}
    (hnodup : (as.map Argument.binding).Nodup) (hclient : client ∉ as.map Argument.binding)
    (hnames : (as.map Argument.name).Nodup) (args : List Json) :
    emittedCall ⟨name, as.map Argument.binding, client, service, operation, as.map memberOf⟩ client
      args = some ⟨service, operation, passed as args⟩ := by
  rw [emittedCall, if_pos ⟨hnodup, rfl, hclient⟩,
    properties_memberOf hnodup fun _ _ => rfl, Option.map_some,
    ofMembers_of_nodup (hnames.sublist (keys_passed as args))]

end Calls

section Modules

theorem arguments_isIdentifier (ps : List Parameter) (d : Draft) :
    ∀ a ∈ ((arguments ps).run d).1, IsIdentifier a.binding := by
  induction ps generalizing d with
  | nil => exact nofun
  | cons p ps ih =>
    rw [arguments, run_bind, run_bind, run_bind]
    exact List.forall_mem_cons.mpr ⟨(freshName_isNameFor d.imports p.name).isIdentifier, ih _⟩

theorem functionsOf_isIdentifier (exported : List String) (ops : List Operation) (d : Draft) :
    ∀ f ∈ ((functionsOf exported ops).run d).1, IsIdentifier f.exported ∧
      ∀ a ∈ f.arguments, IsIdentifier a.binding := by
  induction ops generalizing exported d with
  | nil => exact nofun
  | cons op ops ih =>
    rw [functionsOf, run_bind, run_bind, run_bind]
    refine List.forall_mem_cons.mpr ⟨⟨?_, arguments_isIdentifier op.parameters _⟩, ih _ _⟩
    exact unique_isIdentifier (sanitize_isIdentifier op.name) exported

/-- The functions of an endpoint module: each is written with names, and none of its parameters is
named like the client, which the module has under a name that is bound to it. -/
theorem made_functions (s : Service) (settings : Settings) (source : String) :
    let (e, d) := made s settings source
    e.functions.map Function.operation = s.operations ∧
    Binds d (d.externalSpecifier settings.clientModule) .defaultExport e.client ∧
    IsIdentifier e.client ∧
    ∀ f ∈ e.functions, NamedFunction f ∧ Uncaptured [e.client] f := by
  obtain ⟨client, d₁, hclient, hheld₁, hbinds⟩ :=
    client_run settings (s.endpointLocation settings) source
  obtain ⟨aggregate, d₂, hown, hheld₂, ho, hlocation, himports⟩ := hheld₁.bindOwn s.name
  have hidentifiers := functionsOf_isIdentifier [] s.operations d₂
  obtain ⟨fs, d₃, hfunctions, hops, hheld₃, hextends₃, hknown, hcapture⟩ :=
    functionsOf_run [] s.operations hheld₂ ho (List.mem_singleton_self aggregate)
  rw [hfunctions] at hidentifiers
  have hmade : made s settings source = (⟨client, aggregate, fs⟩, d₃) := by
    have hget : (get : Drafting Draft).run { location := s.endpointLocation settings, source } =
        ({ location := s.endpointLocation settings, source },
          { location := s.endpointLocation settings, source }) := rfl
    rw [made, make, run_bind, hget, run_bind, hclient, run_bind, hown, run_bind, hfunctions]
    rfl
  have hclient₂ : Binds d₂ (d₁.externalSpecifier settings.clientModule) .defaultExport client := by
    rw [Binds, himports]
    exact ⟨_, hbinds, rfl, rfl, rfl⟩
  have hspecifier : d₃.externalSpecifier settings.clientModule =
      d₁.externalSpecifier settings.clientModule :=
    externalSpecifier_congr (hextends₃.location.trans hlocation) _
  have hbound : Binds d₃ (d₃.externalSpecifier settings.clientModule) .defaultExport client := by
    rw [hspecifier]
    exact hextends₃.binds _ _ _ hclient₂
  have ho₃ : d₃.own = some aggregate := hextends₃.own.trans ho
  have hfounded : Founded d₃ :=
    hheld₃.founded ho₃ (List.mem_append_right _ (List.mem_singleton_self aggregate))
  have hidentifier : ∀ n, Known d₃ n → IsIdentifier n := fun _ => isIdentifier_of_known hfounded
  rw [hmade]
  refine ⟨hops, hbound, hidentifier _ (.inr (mem_bindings_iff.mpr ⟨_, _, hbound⟩)),
    fun f hf => ?_⟩
  obtain ⟨hexported, hbindings⟩ := hidentifiers f hf
  have hmentions : ∀ n ∈ mentions f, IsIdentifier n := fun n hn => hidentifier n (hknown f hf n hn)
  have hnamed : ∀ a ∈ f.arguments, Named a.type := fun a ha n hn =>
    hmentions n (List.mem_append_left _ (List.mem_flatMap.mpr ⟨a, ha, hn⟩))
  have hbinding : IsIdentifier f.binding :=
    hheld₃.isIdentifier (List.mem_append_left _ (List.mem_map_of_mem hf))
  obtain ⟨before, after, hsplit⟩ := List.append_of_mem hf
  refine ⟨⟨hbinding, hexported, fun a ha => ⟨hbindings a ha, hnamed a ha⟩,
    fun n hn => hmentions n (List.mem_append_right _ hn)⟩, ?_⟩
  refine (hcapture before f after hsplit).mono (List.cons_subset.mpr ⟨?_, List.nil_subset _⟩)
  exact List.mem_append_left _ (mem_bindings_iff.mpr ⟨_, _, hclient₂⟩)

end Modules

theorem call_ofOperation (service : String) (op : Operation) {args : List Json}
    (h : args.length ≤ op.parameters.length) :
    (Stub.ofOperation service op).call args = .ok ⟨service, op.name,
      Json.ofMembers ((op.parameters.map Parameter.name).zip args)⟩ := by
  have hlength : ¬ (op.parameters.map Parameter.name).length < args.length := by
    rw [List.length_map]
    omega
  rw [Stub.ofOperation, Stub.call, Stub.bag, if_neg hlength]
  rfl

/-- In the endpoint module of a service in a document there is a function for each operation, and its
text calls the client once. Whatever arguments are given, if they are no more than the parameters, the
service, the operation and the bag that it passes are those that the operation's stub passes; but not
where a parameter `__proto__` has a variable of another name. -/
theorem emitted_calls {j : Json} {doc : Document} {s : Service} (hj : KeyedOnce j)
    (hdoc : Document.ofJson j = .ok doc) (hs : s ∈ doc.services) (settings : Settings)
    (source : String) :
    let (e, d) := made s settings source
    (draft s settings source).declarations = e.declarations s.name ∧
    e.functions.map Function.operation = s.operations ∧
    Binds d (d.externalSpecifier settings.clientModule) .defaultExport e.client ∧
    ∀ f ∈ e.functions, ¬ Terminates (f.operation.description.getD "") →
      ∃ g, Emitted.read? (f.text s.name e.client) = some g ∧ g.name = f.binding ∧
        ((∀ args, args.length ≤ f.operation.parameters.length →
          ∃ c, (Stub.ofOperation s.name f.operation).call args = .ok c ∧
            emittedCall g e.client args = some c) ↔
          ∀ a ∈ f.arguments, a.name = "__proto__" → a.binding = "__proto__") := by
  have hmade := made_functions s settings source
  have hdeclared : (draft s settings source).declarations =
      (made s settings source).1.declarations s.name := rfl
  generalize made s settings source = m at hmade hdeclared ⊢
  obtain ⟨e, d⟩ := m
  obtain ⟨hops, hbinds, hclient, hfunctions⟩ := hmade
  refine ⟨hdeclared, hops, hbinds, fun f hf hdescription => ?_⟩
  obtain ⟨hnamed, hapart⟩ := hfunctions f hf
  have hop : f.operation ∈ s.operations := hops ▸ List.mem_map_of_mem hf
  have hnames : (f.arguments.map Argument.name).Nodup := by
    rw [hapart.parameters]
    exact distinct_of_ofJson hj hdoc hs hop
  have hlength : f.arguments.length = f.operation.parameters.length := by
    simpa using congrArg List.length hapart.parameters
  have hunshadowed : e.client ∉ f.arguments.map Argument.binding := by
    intro hmem
    obtain ⟨a, ha, hbinding⟩ := List.mem_map.mp hmem
    exact hapart.apart a ha (hbinding ▸ List.mem_singleton_self _)
  refine ⟨_, read?_text hnamed hclient hdescription s.name, rfl, ?_⟩
  have hstub : ∀ args, args.length ≤ f.arguments.length →
      (Stub.ofOperation s.name f.operation).call args =
        .ok ⟨s.name, f.operation.name, (f.arguments.map Argument.name).zip args⟩ := by
    intro args hargs
    rw [call_ofOperation s.name f.operation (hlength ▸ hargs), ← hapart.parameters,
      ofMembers_of_nodup (hnames.sublist (keys_zip _ args))]
  have hkept : (∀ a ∈ f.arguments, ¬ Lost a) ↔
      ∀ a ∈ f.arguments, a.name = "__proto__" → a.binding = "__proto__" := by
    simp only [Lost, not_and, not_not, ne_eq]
  rw [← hkept, ← passed_eq_iff, ← hlength]
  refine forall_congr' fun args => imp_congr_right fun hargs => ?_
  rw [hstub args hargs, emittedCall_eq hapart.distinct hunshadowed hnames args]
  constructor
  · rintro ⟨c, hc, hcall⟩
    have heq := (Option.some.inj hcall).trans (Except.ok.inj hc).symm
    exact (Call.mk.inj heq).2.2
  · intro hbag
    exact ⟨_, rfl, by rw [hbag]⟩

/-- A document with a described operation that has two parameters, one of them with blanks in its
name. -/
def jobs : Json :=
  .object [("openapi", .string "3.0.0"), ("paths", .object
    [("/Jobs/run", .object [("post", .object [("description", .string "Runs a job."),
      ("parameters", .array [.object [("name", .string "every")],
        .object [("name", .string "day of week")]])])])])]

theorem jobs_run_called : KeyedOnce jobs ∧ ∃ d s f g c, Document.ofJson jobs = .ok d ∧
    s ∈ d.services ∧ f ∈ (made s {} "api").1.functions ∧
    ¬ Terminates (f.operation.description.getD "") ∧
    Emitted.read? (f.text s.name (made s {} "api").1.client) = some g ∧
    (Stub.ofOperation s.name f.operation).call [.null, .string "Monday"] = .ok c ∧
    emittedCall g (made s {} "api").1.client [.null, .string "Monday"] = some c ∧
    c.params = [("every", .null), ("day of week", .string "Monday")] := by
  have hkeyed : KeyedOnce jobs := by simp [jobs]
  have hdoc : ∃ d, Document.ofJson jobs = .ok d ∧ d.services = Document.readServices jobs :=
    ⟨_, rfl, rfl⟩
  obtain ⟨d, hdoc, hservices⟩ := hdoc
  obtain ⟨s, hs, hlength, hfacts⟩ : ∃ s ∈ Document.readServices jobs,
      0 < (made s {} "api").1.functions.length ∧
      ∀ f ∈ (made s {} "api").1.functions, ¬ Terminates (f.operation.description.getD "") ∧
        Stub.ofOperation s.name f.operation = ⟨"Jobs", "run", ["every", "day of week"]⟩ ∧
        f.operation.parameters.length = 2 ∧
        ∀ a ∈ f.arguments, a.name = "__proto__" → a.binding = "__proto__" := by
    decide +kernel
  rw [← hservices] at hs
  obtain ⟨-, -, -, hcalls⟩ := emitted_calls hkeyed hdoc hs {} "api"
  obtain ⟨f, hf⟩ := List.exists_mem_of_length_pos hlength
  obtain ⟨hdescription, hstub, hparameters, hkept⟩ := hfacts f hf
  obtain ⟨g, hread, -, hiff⟩ := hcalls f hf hdescription
  obtain ⟨c, hc, hcall⟩ := hiff.mpr hkept [.null, .string "Monday"] (Nat.le_of_eq hparameters.symm)
  refine ⟨hkeyed, d, s, f, g, c, hdoc, hs, hf, hdescription, hread, hc, hcall, ?_⟩
  rw [hstub] at hc
  cases hc
  rfl

/-- A document with an operation that has two parameters whose names become the same identifier. -/
def prototypes : Json :=
  .object [("openapi", .string "3.0.0"), ("paths", .object
    [("/Tasks/run", .object [("post", .object
      [("parameters", .array [.object [("name", .string "--proto--")],
        .object [("name", .string "__proto__")]])])])])]

/-- The second of them does not reach the bag, where the stub passes both. -/
theorem prototype_not_passed : ∃ d stub g, Document.ofJson prototypes = .ok d ∧
    (∃ s ∈ d.services, s.operations.map (Stub.ofOperation s.name) = [stub] ∧
      (made s {} "api").1.client = "client" ∧
      (made s {} "api").1.functions.map (fun f => Emitted.read? (f.text s.name "client")) =
        [some g]) ∧
    stub.call [.bool false, .bool true] =
      .ok ⟨"Tasks", "run", [("--proto--", .bool false), ("__proto__", .bool true)]⟩ ∧
    emittedCall g "client" [.bool false, .bool true] =
      some ⟨"Tasks", "run", [("--proto--", .bool false)]⟩ := by
  have hfacts : ∃ s ∈ Document.readServices prototypes,
      s.operations.map (Stub.ofOperation s.name) =
        [⟨"Tasks", "run", ["--proto--", "__proto__"]⟩] ∧
      (made s {} "api").1.client = "client" ∧ (made s {} "api").1.functions.length = 1 ∧
      ∀ f ∈ (made s {} "api").1.functions, ¬ Terminates (f.operation.description.getD "") ∧
        (⟨f.binding, f.arguments.map Argument.binding, "client", s.name, f.operation.name,
          f.arguments.map memberOf⟩ : Emitted) =
            ⟨"_run", ["__proto__", "__proto___1"], "client", "Tasks", "run",
              [.keyed "--proto--" "__proto__", .keyed "__proto__" "__proto___1"]⟩ := by
    decide +kernel
  obtain ⟨s, hs, hstub, hclient, hlength, hparts⟩ := hfacts
  obtain ⟨f, hf⟩ := List.length_eq_one_iff.mp hlength
  have hmem : f ∈ (made s {} "api").1.functions := by
    rw [hf]
    exact List.mem_singleton_self f
  obtain ⟨hdescription, hparts⟩ := hparts f hmem
  have hnamed : NamedFunction f := ((made_functions s {} "api").2.2.2 f hmem).1
  have hread : Emitted.read? (f.text s.name "client") = _ :=
    read?_text hnamed (hclient ▸ (made_functions s {} "api").2.2.1) hdescription s.name
  rw [hparts] at hread
  exact ⟨_, _, _, rfl, ⟨s, hs, hstub, hclient, by rw [hf, List.map_singleton, hread]⟩, rfl, rfl⟩

end TypedClient.Proofs.EmittedCalls
