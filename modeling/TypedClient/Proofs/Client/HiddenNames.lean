import TypedClient.Document.Reading
import TypedClient.Proofs.Client.EntityParts
import TypedClient.Proofs.Module.GlobalNames

namespace TypedClient.Proofs.HiddenNames

open TypedClient.Module TypedClient.Endpoint TypedClient.Entity TypedClient.Proofs.DraftImports
open TypedClient.Proofs.DraftWork TypedClient.Proofs.HeldNames TypedClient.Proofs.GlobalNames
open TypedClient.Proofs.Mentions TypedClient.Proofs.SchemaWork TypedClient.Proofs.EntityParts

variable {α ε : Type} {settings : Settings} {names : List String} {ms : List Mention} {d : Draft}

theorem formExports_apart : ∀ n ∈ formExports, n ∉ globals := by
  decide

theorem suggests_of_makes {m : Drafting α} (h : Makes settings ms m)
    (hs : ms.map (Mention.name settings) ⊆ names) : Suggests names m := by
  induction h with
  | pure a => exact .pure a
  | bind hm hf ihm ihf =>
    rw [List.map_append, List.append_subset] at hs
    exact .bind (ihm hs.1) fun a => ihf a hs.2
  | mention m typeOnly => exact .importFrom _ _ fun _ => hs (List.mem_singleton_self _)
  | formClass h => exact .namedImport _ _ fun hn => absurd hn (formExports_apart _ h)

theorem suggestsOk_of_makes {m : ExceptT ε Drafting α} (h : MakesOk settings ms m)
    (hs : ms.map (Mention.name settings) ⊆ names) : SuggestsOk names m := by
  induction h with
  | pure a => exact fun _ => id
  | throw e => exact fun _ => id
  | lift hm => exact (suggests_of_makes hm hs).map Except.ok
  | bind hm hf ihm ihf =>
    rw [List.map_append, List.append_subset] at hs
    exact .bind (ihm hs.1) fun a => ihf a hs.2
  | adapt hm g ih => exact ih hs

section Endpoints

def operationTypes (op : Operation) : List Mention :=
  (op.parameters.flatMap fun p => schemaTypes p.schema) ++ op.response.toList.flatMap schemaTypes

def serviceTypes (s : Service) : List Mention :=
  s.operations.flatMap operationTypes

def functionUses (f : Function) : List String :=
  (f.arguments.flatMap fun a => a.type.builtins) ++ f.response.promise.builtins

def functionScope (f : Function) : Scope where
  bindings := f.arguments.map Argument.binding
  uses := functionUses f

def moduleScope (e : Endpoint) (d : Draft) : Scope where
  bindings := bindings d ++ e.aggregate :: e.functions.map Function.binding
  uses := "Object" :: e.functions.flatMap functionUses

theorem suggests_arguments (ps : List Parameter)
    (hs : (ps.flatMap fun p => schemaTypes p.schema).map (Mention.name settings) ⊆ names) :
    Suggests names (arguments ps) := by
  induction ps with
  | nil => exact .pure []
  | cons p ps ih =>
    rw [List.flatMap_cons, List.map_append, List.append_subset] at hs
    exact (Suggests.reserve p.name).bind fun _ =>
      (suggests_of_makes (makes_schema_valueType settings true p.schema) hs.1).bind fun _ =>
        (ih hs.2).map _

theorem suggests_responseType (response : Option Schema)
    (hs : (response.toList.flatMap schemaTypes).map (Mention.name settings) ⊆ names) :
    Suggests names (responseType response) := by
  cases response with
  | none => exact .pure _
  | some s =>
    have hnames : (schemaTypes s).map (Mention.name settings) ⊆ names := by simpa using hs
    exact suggests_of_makes (makes_schema_valueType settings true s) hnames

theorem suggests_functionOf (op : Operation) (binding exported : String)
    (hs : (operationTypes op).map (Mention.name settings) ⊆ names) :
    Suggests names (functionOf op binding exported) := by
  rw [operationTypes, List.map_append, List.append_subset] at hs
  have hrelease : ∀ as : List Argument, Suggests names (as.forM fun a => Draft.release a.binding) :=
    Suggests.forM fun a => Suggests.release a.binding
  exact (suggests_arguments op.parameters hs.1).bind fun as =>
    (suggests_responseType op.response hs.2).bind fun _ => (hrelease as).map _

theorem suggests_functionsOf (exported : List String) (ops : List Operation)
    (hs : (ops.flatMap operationTypes).map (Mention.name settings) ⊆ names) :
    Suggests names (functionsOf exported ops) := by
  induction ops generalizing exported with
  | nil => exact .pure []
  | cons op ops ih =>
    rw [List.flatMap_cons, List.map_append, List.append_subset] at hs
    exact (Suggests.reserve _).bind fun _ => (suggests_functionOf op _ _ hs.1).bind fun _ =>
      (ih _ hs.2).map _

theorem arguments_named (ps : List Parameter) (d : Draft) :
    ∀ a ∈ ((arguments ps).run d).1, a.binding ∈ globals → a.binding ∈ ps.map Parameter.name := by
  induction ps generalizing d with
  | nil => exact nofun
  | cons p ps ih =>
    refine List.forall_mem_cons.mpr ⟨fun h => ?_, fun a ha h => List.mem_cons_of_mem _ (ih _ a ha h)⟩
    have hself : d.imports.freshName p.name = p.name := eq_suggested rfl h
    exact List.mem_cons.mpr (.inl hself)

/-- A function begins with an underscore, and a parameter with the name of a global is named so in
the document. -/
theorem functionsOf_named (exported : List String) (ops : List Operation) (d : Draft) :
    ∀ f ∈ ((functionsOf exported ops).run d).1, f.binding ∉ globals ∧ ∀ a ∈ f.arguments,
      a.binding ∈ globals → a.binding ∈ f.operation.parameters.map Parameter.name := by
  induction ops generalizing exported d with
  | nil => exact nofun
  | cons op ops ih =>
    refine List.forall_mem_cons.mpr ⟨⟨fun h => ?_, arguments_named op.parameters _⟩, ih _ _⟩
    have hself : d.imports.freshName ("_" ++ op.name) = "_" ++ op.name := eq_suggested rfl h
    refine underscore_not_mem_of_global h ?_
    change '_' ∈ (d.imports.freshName ("_" ++ op.name)).toList
    rw [hself]
    simp

theorem functionUses_subset_globals (f : Function) : functionUses f ⊆ globals := by
  refine List.append_subset.mpr ⟨fun n hn => ?_, builtins_subset_globals _⟩
  obtain ⟨a, -, hn⟩ := List.mem_flatMap.mp hn
  exact builtins_subset_globals a.type hn

theorem moduleScope_uses_subset_globals (e : Endpoint) (d : Draft) :
    (moduleScope e d).uses ⊆ globals := by
  refine List.cons_subset.mpr ⟨by decide, fun n hn => ?_⟩
  obtain ⟨f, -, hn⟩ := List.mem_flatMap.mp hn
  exact functionUses_subset_globals f hn

variable {s : Service} {source : String} {e : Endpoint}

theorem made_only (h : made s settings source = (e, d)) :
    Only ((serviceTypes s).map (Mention.name settings)) d := by
  have hclient : ∀ path, Suggests ((serviceTypes s).map (Mention.name settings))
      (Draft.defaultImport path "client" false) :=
    fun path d h => h.add (fun hglobal => absurd hglobal (by decide))
  have hmake : Suggests ((serviceTypes s).map (Mention.name settings)) (make s settings) :=
    (Suggests.of_bindings fun _ => rfl).bind fun d => (hclient _).bind fun _ =>
      (Suggests.bindOwn s.name).bind fun _ =>
        (suggests_functionsOf [] s.operations (List.Subset.refl _)).map _
  have honly := hmake { location := s.endpointLocation settings, source } nofun
  rw [made] at h
  rwa [h] at honly

/-- Only the client is imported when the name of the object that holds all functions is made. -/
theorem made_aggregate (h : made s settings source = (e, d)) :
    ∃ t : ImportTable, t.taken = ["client"] ∧ e.aggregate = t.freshName s.name := by
  have hclient : ImportTable.empty.freshName "client" = "client" := by decide
  have haggregate : ∃ t : ImportTable, t.taken = ["client"] ∧
      (made s settings source).1.aggregate = t.freshName s.name :=
    ⟨_, congrArg (fun n => [n]) hclient, rfl⟩
  rwa [h] at haggregate

theorem made_functions (h : made s settings source = (e, d)) :
    ∀ f ∈ e.functions, f.binding ∉ globals ∧ ∀ a ∈ f.arguments,
      a.binding ∈ globals → a.binding ∈ f.operation.parameters.map Parameter.name := by
  have hfunctions : ∃ d, (made s settings source).1.functions =
      ((functionsOf [] s.operations).run d).1 := ⟨_, rfl⟩
  obtain ⟨d', hfunctions⟩ := hfunctions
  rw [h] at hfunctions
  rw [hfunctions]
  exact functionsOf_named [] s.operations d'

theorem moduleScope_hidden (h : made s settings source = (e, d)) :
    (moduleScope e d).hidden ⊆ s.name :: (serviceTypes s).map (Mention.name settings) := by
  obtain ⟨t, -, haggregate⟩ := made_aggregate h
  refine hidden_subset_cons (moduleScope_uses_subset_globals e d) (made_only h) ?_
  refine List.forall_mem_append.mpr ⟨fun n hn => .inl hn, List.forall_mem_cons.mpr
    ⟨.inr (eq_suggested haggregate), fun n hn => .inr fun hglobal => ?_⟩⟩
  obtain ⟨f, hf, rfl⟩ := List.mem_map.mp hn
  exact absurd hglobal (made_functions h f hf).1

theorem service_name_hidden (h : made s settings source = (e, d))
    (huses : s.name ∈ (moduleScope e d).uses) : s.name ∈ (moduleScope e d).hidden := by
  obtain ⟨t, htaken, haggregate⟩ := made_aggregate h
  have hglobal := moduleScope_uses_subset_globals e d huses
  have hfree : s.name ∉ t.taken := by
    rw [htaken]
    have hall : ∀ g ∈ globals, g ∉ ["client"] := by decide
    exact hall _ hglobal
  rw [freshName_global hglobal hfree] at haggregate
  refine Scope.mem_hidden_iff.mpr ⟨List.mem_append_right _ ?_, huses⟩
  exact List.mem_cons.mpr (.inl haggregate.symm)

theorem functionScope_hidden (h : made s settings source = (e, d)) :
    ∀ f ∈ e.functions, (functionScope f).hidden ⊆ f.operation.parameters.map Parameter.name := by
  refine fun f hf => hidden_subset (functionUses_subset_globals f) fun n hn hglobal => ?_
  obtain ⟨a, ha, rfl⟩ := List.mem_map.mp hn
  exact (made_functions h f hf).2 a ha hglobal

end Endpoints

section Entities

def typeScope (t : TypeParts) (d : Draft) : Scope where
  bindings := t.name :: bindings d
  uses := t.types.flatMap TypeExpr.builtins

def modelScope (e : Entity) (m : ModelParts) (d : Draft) : Scope where
  bindings := m.name :: bindings d
  uses := match e.body with
    | .choices _ => []
    | .object _ => "T" :: m.accessors.flatMap fun a => a.modelType.builtins

theorem typeScope_uses_subset_globals (t : TypeParts) (d : Draft) :
    (typeScope t d).uses ⊆ globals := by
  intro n hn
  obtain ⟨t, -, hn⟩ := List.mem_flatMap.mp hn
  exact builtins_subset_globals t hn

theorem modelScope_uses_subset_globals (e : Entity) (m : ModelParts) (d : Draft) :
    (modelScope e m d).uses ⊆ globals := by
  rw [modelScope]
  cases e.body with
  | choices values => exact List.nil_subset _
  | object properties =>
    refine List.cons_subset.mpr ⟨by decide, fun n hn => ?_⟩
    obtain ⟨a, -, hn⟩ := List.mem_flatMap.mp hn
    exact builtins_subset_globals a.modelType hn

theorem typeParts_name (e : Entity) (name : String) (d : Draft) :
    ((e.typeParts name).run d).1.name = name := by
  rw [typeParts]
  cases e.body <;> rfl

theorem modelParts_name {e : Entity} {name : String} {d d' : Draft} {m : ModelParts}
    (h : (e.modelParts settings name).run.run d = (.ok m, d')) : m.name = name := by
  rw [modelParts] at h
  cases hbody : e.body with
  | choices values =>
    rw [hbody] at h
    cases h
    rfl
  | object properties =>
    rw [hbody] at h
    simp only [liftM_run_bind] at h
    obtain ⟨accessors, d₁, -, h⟩ := run_bind_ok h
    cases h
    rfl

variable {e : Entity} {source : String} {t : TypeParts} {m : ModelParts}

theorem bindOwn_run_empty (name location source : String) :
    ∃ d, (Draft.bindOwn name).run { location, source } = (ImportTable.empty.freshName name, d) ∧
      d.location = location ∧ d.own = some (ImportTable.empty.freshName name) ∧
      d.imports = ⟨[], [ImportTable.empty.freshName name]⟩ :=
  ⟨_, rfl, rfl, rfl, rfl⟩

theorem madeType_only (settings : Settings) (h : e.madeType source = (t, d)) :
    Only ((mentions e .type).map (Mention.name settings)) d := by
  have honly := ((Suggests.bindOwn e.reference.typeName).bind fun name =>
    suggests_of_makes (makes_typeParts settings e name) (List.Subset.refl _))
      { location := e.reference.location, source } nofun
  rw [madeType] at h
  rwa [h] at honly

theorem madeType_name (h : e.madeType source = (t, d)) :
    t.name = ImportTable.empty.freshName e.reference.typeName := by
  obtain ⟨d₁, hown, -⟩ := bindOwn_run_empty e.reference.typeName e.reference.location source
  rw [madeType, run_bind, hown] at h
  dsimp only at h
  have hname := typeParts_name e (ImportTable.empty.freshName e.reference.typeName) d₁
  rwa [h] at hname

theorem madeModel_only (h : e.madeModel settings source = (.ok m, d)) :
    Only ((mentions e .model).map (Mention.name settings)) d := by
  have hown : SuggestsOk ((mentions e .model).map (Mention.name settings))
      (liftM (Draft.bindOwn (e.reference.typeName ++ settings.modelSuffix)) : Building String) :=
    (Suggests.bindOwn _).map Except.ok
  have hmake := hown.bind fun name =>
    suggestsOk_of_makes (makes_modelParts settings e name) (List.Subset.refl _)
  have honly := hmake { location := e.modelLocation settings, source } nofun
  rw [madeModel] at h
  rwa [h] at honly

theorem madeModel_name (h : e.madeModel settings source = (.ok m, d)) :
    m.name = ImportTable.empty.freshName (e.reference.typeName ++ settings.modelSuffix) := by
  obtain ⟨d₁, hown, -⟩ := bindOwn_run_empty (e.reference.typeName ++ settings.modelSuffix)
    (e.modelLocation settings) source
  rw [madeModel, liftM_run_bind, hown] at h
  dsimp only at h
  exact modelParts_name h

theorem typeScope_hidden (settings : Settings) (h : e.madeType source = (t, d)) :
    (typeScope t d).hidden ⊆
      e.reference.typeName :: (mentions e .type).map (Mention.name settings) := by
  refine hidden_subset_cons (typeScope_uses_subset_globals t d) (madeType_only settings h) ?_
  exact List.forall_mem_cons.mpr ⟨.inr (eq_suggested (madeType_name h)), fun n hn => .inl hn⟩

theorem typeName_hidden (h : e.madeType source = (t, d))
    (huses : e.reference.typeName ∈ (typeScope t d).uses) :
    e.reference.typeName ∈ (typeScope t d).hidden := by
  have hself := freshName_global (t := ImportTable.empty) (typeScope_uses_subset_globals t d huses)
    List.not_mem_nil
  have hname : t.name = e.reference.typeName := (madeType_name h).trans hself
  exact Scope.mem_hidden_iff.mpr ⟨List.mem_cons.mpr (.inl hname.symm), huses⟩

theorem modelScope_hidden (h : e.madeModel settings source = (.ok m, d)) :
    (modelScope e m d).hidden ⊆ (e.reference.typeName ++ settings.modelSuffix) ::
      (mentions e .model).map (Mention.name settings) := by
  refine hidden_subset_cons (modelScope_uses_subset_globals e m d) (madeModel_only h) ?_
  exact List.forall_mem_cons.mpr ⟨.inr (eq_suggested (madeModel_name h)), fun n hn => .inl hn⟩

/-- The model of an object imports the entity's type before all else. -/
theorem modelParts_grows {properties : List Property} {name : String} {d d' : Draft}
    (hbody : e.body = .object properties)
    (h : (e.modelParts settings name).run.run d = (.ok m, d')) :
    Grows (e.reference.importType.run d).2 d' := by
  rw [modelParts, hbody] at h
  simp only [liftM_run_bind] at h
  obtain ⟨accessors, d₁, haccessors, h⟩ := run_bind_ok h
  have hbase := (makes_baseModel settings e.parent).work.grows (e.reference.importType.run d).2
  have hformClass : Makes settings [] (formClass settings "_getPropertyModel") :=
    .formClass (by decide)
  have hkey := hformClass.work.grows
    ((baseModel settings e.parent).run (e.reference.importType.run d).2).2
  have haccessors := (makes_accessors settings e.name properties).workOk.grows haccessors
  cases h
  exact hbase.trans (hkey.trans haccessors)

theorem eq_empty_of_append_eq_self {s suffix : String} (h : s ++ suffix = s) : suffix = "" := by
  have hlist := congrArg String.toList h
  rw [String.toList_append, List.append_right_eq_self] at hlist
  exact String.toList_eq_nil_iff.mp hlist

theorem add_first {t : ImportTable} (h : t.imports = []) (path suggested : String)
    (kind : ImportKind) (typeOnly : Bool) :
    (t.add path kind suggested typeOnly).1 = t.freshName suggested := by
  rw [ImportTable.add, ImportTable.find?, h]
  rfl

/-- So the type has its name there if this is a global, unless the model itself has it. -/
theorem typeName_mem_model {properties : List Property} (hbody : e.body = .object properties)
    (h : e.madeModel settings source = (.ok m, d)) (hglobal : e.reference.typeName ∈ globals) :
    e.reference.typeName ∈ m.name :: bindings d := by
  obtain ⟨d₁, hown, hlocation, ho, himports⟩ := bindOwn_run_empty
    (e.reference.typeName ++ settings.modelSuffix) (e.modelLocation settings) source
  have hname := madeModel_name h
  by_cases hsame : e.reference.typeName = m.name
  · exact List.mem_cons.mpr (.inl hsame)
  rw [madeModel, liftM_run_bind, hown] at h
  dsimp only at h
  have hgrows := modelParts_grows hbody h
  rw [Reference.importType] at hgrows
  obtain ⟨own, -, ht, -⟩ | ⟨-, hrun⟩ :=
    importFrom_cases e.reference.location e.reference.typeName true d₁
  · -- the model stands where the type does only if nothing is added to the names either
    refine absurd ?_ hsame
    have hsuffix := eq_empty_of_append_eq_self (ht.trans hlocation).symm
    rw [hname, hsuffix, String.append_empty]
    exact (freshName_global (t := ImportTable.empty) hglobal List.not_mem_nil).symm
  · rw [hrun] at hgrows
    have hself : d₁.imports.freshName e.reference.typeName = e.reference.typeName := by
      refine freshName_global hglobal ?_
      rw [himports, ← hname]
      exact fun hn => hsame (List.mem_singleton.mp hn)
    obtain ⟨i, hi, hpath, hkind, hbinding, -⟩ := add_bound d₁.imports
      (d₁.moduleSpecifier e.reference.location) e.reference.typeName .defaultExport true
    have hfirst : d₁.imports.imports = [] := congrArg ImportTable.imports himports
    rw [add_first hfirst, hself] at hbinding
    have hbinds := hgrows.binds ⟨i, hi, hpath, hkind, hbinding⟩
    exact List.mem_cons_of_mem _ (mem_bindings_iff.mpr ⟨_, _, hbinds⟩)

theorem typeName_hidden_in_model (h : e.madeModel settings source = (.ok m, d))
    (huses : e.reference.typeName ∈ (modelScope e m d).uses) :
    e.reference.typeName ∈ (modelScope e m d).hidden := by
  have hglobal := modelScope_uses_subset_globals e m d huses
  cases hbody : e.body with
  | choices values =>
    rw [modelScope, hbody] at huses
    cases huses
  | object properties =>
    exact Scope.mem_hidden_iff.mpr ⟨typeName_mem_model hbody h hglobal, huses⟩

end Entities

/-- A module hides a global that its text uses only by a binding that is named so in the document: an
endpoint module by the service, by a component that an operation mentions or, within a function, by a
parameter; a module of an entity by the entity or a component that the module mentions. A service or
an entity that is named like a global of its module does hide it. -/
theorem hidden_by_name (settings : Settings) (source : String) :
    (∀ s e d, made s settings source = (e, d) →
      Endpoint.draft s settings source = { d with declarations := e.declarations s.name } ∧
      (moduleScope e d).hidden ⊆ s.name :: (serviceTypes s).map (Mention.name settings) ∧
      (s.name ∈ (moduleScope e d).uses → s.name ∈ (moduleScope e d).hidden) ∧
      ∀ f ∈ e.functions, (functionScope f).hidden ⊆ f.operation.parameters.map Parameter.name) ∧
    (∀ e t d, e.madeType source = (t, d) →
      e.typeDraft source = { d with declarations := d.declarations ++ [e.typeText t] } ∧
      (typeScope t d).hidden ⊆
        e.reference.typeName :: (mentions e .type).map (Mention.name settings) ∧
      (e.reference.typeName ∈ (typeScope t d).uses →
        e.reference.typeName ∈ (typeScope t d).hidden)) ∧
    (∀ e m d, e.madeModel settings source = (.ok m, d) →
      e.modelDraft settings source =
        .ok { d with declarations := d.declarations ++ [e.modelDeclaration m] } ∧
      (modelScope e m d).hidden ⊆ (e.reference.typeName ++ settings.modelSuffix) ::
        (mentions e .model).map (Mention.name settings) ∧
      (e.reference.typeName ∈ (modelScope e m d).uses →
        e.reference.typeName ∈ (modelScope e m d).hidden)) := by
  refine ⟨fun s e d h => ?_, fun e t d h => ?_, fun e m d h => ?_⟩
  · have hdraft : Endpoint.draft s settings source =
        { d with declarations := e.declarations s.name } := by
      rw [Endpoint.draft, h]
    exact ⟨hdraft, moduleScope_hidden h, service_name_hidden h, functionScope_hidden h⟩
  · exact ⟨typeDraft_eq h, typeScope_hidden settings h, typeName_hidden h⟩
  · exact ⟨modelDraft_eq h, modelScope_hidden h, typeName_hidden_in_model h⟩

/-- An entity that keeps texts under keys. -/
def record : Entity :=
  ⟨Reference.toComponent "Record", none, .object [⟨"entries", .plain (.map (.plain (.text []))), true⟩],
    none⟩

/-- Its property has the type `Readonly<Record<string, string>>` beside the interface `Record`. -/
theorem record_hidden : ∃ t d, record.madeType "api" = (t, d) ∧ t.name = "Record" ∧
    "Record" ∈ (typeScope t d).uses ∧ "Record" ∈ (typeScope t d).hidden := by
  have huses : "Record" ∈ (typeScope (record.madeType "api").1 (record.madeType "api").2).uses := by
    decide +kernel
  obtain ⟨-, -, hhidden⟩ := (hidden_by_name {} "api").2.1 record _ _ rfl
  exact ⟨_, _, rfl, by decide +kernel, huses, hhidden huses⟩

/-- A document with an operation that answers with a component of the name `Promise`. -/
def tasks : Json :=
  .object [("openapi", .string "3.0.0"), ("paths", .object
    [("/Tasks/run", .object [("post", .object [("responses", .object
      [("200", .object [("content", .object [("application/json", .object
        [("schema", .object [("$ref", .string "#/components/schemas/Promise")])])])])])])])]),
    ("components", .object [("schemas", .object
      [("Promise", .object [("type", .string "object")])])])]

/-- Its function returns `Promise<Promise>`, where both names are bound to the component. -/
theorem promise_hidden : ∃ d s, Document.ofJson tasks = .ok d ∧ d.services = [s] ∧
    (moduleScope (made s {} "api").1 (made s {} "api").2).hidden = ["Promise"] :=
  ⟨_, _, rfl, rfl, by decide +kernel⟩

end TypedClient.Proofs.HiddenNames
