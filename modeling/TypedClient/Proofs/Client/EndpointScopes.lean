import TypedClient.Client.Endpoint
import TypedClient.Proofs.Client.SchemaNames

namespace TypedClient.Proofs.EndpointScopes

open TypedClient.Module TypedClient.Endpoint TypedClient.Proofs.ImportRequests
open TypedClient.Proofs.DraftImports TypedClient.Proofs.DraftWork TypedClient.Proofs.SchemaWork
open TypedClient.Proofs.HeldNames TypedClient.Proofs.SchemaNames

variable {names : List String} {d e : Draft}

def mentions (f : Function) : List String :=
  f.arguments.flatMap (fun a => a.type.names) ++ f.response.names

/-- A function whose parameters are distinct from each other, from some names outside and from all
that its types mention. -/
structure Uncaptured (outer : List String) (f : Function) : Prop where
  parameters : f.arguments.map Argument.name = f.operation.parameters.map Parameter.name
  distinct : (f.arguments.map Argument.binding).Nodup
  apart : ∀ a ∈ f.arguments, a.binding ∉ outer
  unmentioned : ∀ a ∈ f.arguments, a.binding ∉ mentions f

theorem Uncaptured.mono {outer outer' : List String} {f : Function} (h : Uncaptured outer f)
    (hsub : outer' ⊆ outer) : Uncaptured outer' f :=
  ⟨h.parameters, h.distinct, fun a ha hm => h.apart a ha (hsub hm), h.unmentioned⟩

theorem responseType_run (response : Option Schema) (h : Holds names d) :
    ∃ t d', (responseType response).run d = (t, d') ∧ Holds names d' ∧ Extends d d' ∧
      ∀ n ∈ t.names, Known d' n := by
  cases response with
  | none => exact ⟨.void, d, rfl, h, Extends.of_imports_eq rfl rfl rfl, nofun⟩
  | some s =>
    obtain ⟨t, d', hrun, hheld, hextends⟩ := h.work (makes_schema_valueType {} true s).work
    have hknown := resolved_schema_valueType true s d
    rw [hrun] at hknown
    exact ⟨t, d', hrun, hheld, hextends, hknown⟩

theorem arguments_run (ps : List Parameter) (h : Holds names d) :
    ∃ as d', (arguments ps).run d = (as, d') ∧ Holds (as.map Argument.binding ++ names) d' ∧
      Extends d d' ∧ as.map Argument.name = ps.map Parameter.name ∧
      ∀ a ∈ as, ∀ n ∈ a.type.names, Known d' n := by
  induction ps generalizing d names with
  | nil => exact ⟨[], d, rfl, h, Extends.of_imports_eq rfl rfl rfl, rfl, nofun⟩
  | cons p ps ih =>
    obtain ⟨binding, d₁, hreserve, hheld₁, hextends₁⟩ := h.reserve p.name
    obtain ⟨type, d₂, htype, hheld₂, hextends₂⟩ :=
      hheld₁.work (makes_schema_valueType {} true p.schema).work
    obtain ⟨as, d₃, hrest, hheld₃, hextends₃, hnames, hknown⟩ := ih hheld₂
    have hfirst := resolved_schema_valueType true p.schema d₁
    rw [htype] at hfirst
    refine ⟨⟨p.name, binding, type, p.optional, p.optional && ps.all Parameter.optional⟩ :: as, d₃,
      ?_, hheld₃.perm List.perm_middle, hextends₁.trans (hextends₂.trans hextends₃),
      congrArg (p.name :: ·) hnames, ?_⟩
    · rw [arguments, run_bind, hreserve, run_bind, htype, run_bind, hrest]
      rfl
    · exact List.forall_mem_cons.mpr ⟨fun n hn => hextends₃.known (hfirst n hn), hknown⟩

/-- A function leaves held what was held before, and its parameters are captured by nothing that is
known where it ends. -/
theorem functionOf_run {own : String} (op : Operation) (binding exported : String)
    (h : Holds names d) (ho : d.own = some own) (hown : own ∈ names) :
    ∃ f d', (functionOf op binding exported).run d = (f, d') ∧ f.operation = op ∧
      f.binding = binding ∧ Holds names d' ∧ Extends d d' ∧
      (∀ n ∈ mentions f, Known d' n) ∧ Uncaptured (bindings d' ++ names) f := by
  obtain ⟨as, d₁, hargs, hheld₁, hextends₁, hnames, hknown₁⟩ := arguments_run op.parameters h
  obtain ⟨response, d₂, hresponse, hheld₂, hextends₂, hknown₂⟩ :=
    responseType_run op.response hheld₁
  obtain ⟨d₃, hrelease, hheld₃, hextends₃, hsame⟩ := hheld₂.releaseAll Argument.binding
  have hrun : (functionOf op binding exported).run d =
      (⟨op, binding, exported, as, response⟩, d₃) := by
    rw [functionOf, run_bind, hargs, run_bind, hresponse, run_bind, hrelease]
    rfl
  -- the parameters are held until the response is made, so nothing mentioned got one of their names
  have hmentions : ∀ n ∈ mentions ⟨op, binding, exported, as, response⟩, Known d₂ n := by
    refine List.forall_mem_append.mpr ⟨fun n hn => ?_, hknown₂⟩
    obtain ⟨a, ha, hn⟩ := List.mem_flatMap.mp hn
    exact hextends₂.known (hknown₁ a ha n hn)
  have ho₂ : d₂.own = some own := hextends₂.own.trans (hextends₁.own.trans ho)
  refine ⟨_, d₃, hrun, rfl, rfl, hheld₃, hextends₁.trans (hextends₂.trans hextends₃),
    fun n hn => hextends₃.known (hmentions n hn), hnames, ?_, fun a ha hm => ?_, fun a ha hm => ?_⟩
  · exact (List.nodup_append.mp hheld₂.nodup).1
  · have hbound := List.mem_map_of_mem (f := Argument.binding) ha
    rw [hsame] at hm
    obtain hm | hm := List.mem_append.mp hm
    · exact hheld₂.ne_of_known ho₂ hown (.inr hm) hbound rfl
    · exact (List.nodup_append.mp hheld₂.nodup).2.2 _ hbound _ hm rfl
  · exact hheld₂.ne_of_known ho₂ hown (hmentions _ hm) (List.mem_map_of_mem ha) rfl

/-- All functions of a module: their names are held together with those from before. -/
theorem functionsOf_run {own : String} (exported : List String) (ops : List Operation)
    (h : Holds names d) (ho : d.own = some own) (hown : own ∈ names) :
    ∃ fs d', (functionsOf exported ops).run d = (fs, d') ∧
      fs.map Function.operation = ops ∧ Holds (fs.map Function.binding ++ names) d' ∧
      Extends d d' ∧ (∀ f ∈ fs, ∀ n ∈ mentions f, Known d' n) ∧
      ∀ before f after, fs = before ++ f :: after →
        Uncaptured (bindings d ++ ((before ++ [f]).map Function.binding ++ names)) f := by
  induction ops generalizing d names exported with
  | nil =>
    refine ⟨[], d, rfl, rfl, h, Extends.of_imports_eq rfl rfl rfl, nofun, ?_⟩
    intro before f after hfs
    exact absurd hfs.symm (by simp)
  | cons op ops ih =>
    obtain ⟨binding, d₁, hreserve, hheld₁, hextends₁⟩ := h.reserve ("_" ++ op.name)
    have ho₁ : d₁.own = some own := hextends₁.own.trans ho
    obtain ⟨f, d₂, hfunction, hop, hbinding, hheld₂, hextends₂, hknown, hcapture⟩ :=
      functionOf_run op binding (Identifier.unique exported (Identifier.sanitize op.name)) hheld₁ ho₁
        (List.mem_cons_of_mem binding hown)
    obtain ⟨fs, d₃, hrest, hops, hheld₃, hextends₃, hknowns, hcaptures⟩ :=
      ih (Identifier.unique exported (Identifier.sanitize op.name) :: exported) hheld₂
        (hextends₂.own.trans ho₁) (List.mem_cons_of_mem binding hown)
    have hbefore := hextends₁.trans hextends₂
    refine ⟨f :: fs, d₃, ?_, by rw [List.map_cons, hop, hops], ?_, hbefore.trans hextends₃, ?_, ?_⟩
    · rw [functionsOf, run_bind, hreserve, run_bind, hfunction, run_bind, hrest]
      rfl
    · rw [List.map_cons, hbinding]
      exact hheld₃.perm List.perm_middle
    · exact List.forall_mem_cons.mpr ⟨fun n hn => hextends₃.known (hknown n hn), hknowns⟩
    · intro before g after hfs
      cases before with
      | nil =>
        obtain ⟨rfl, rfl⟩ := List.cons.inj hfs
        refine hcapture.mono (List.append_subset.mpr ⟨?_, ?_⟩)
        · exact List.subset_append_of_subset_left _ hbefore.bindings_subset
        · rw [List.nil_append, List.map_singleton, hbinding]
          exact List.subset_append_right _ _
      | cons f' before =>
        -- the name of this function is held when a later one is made
        obtain ⟨rfl, rfl⟩ := List.cons.inj hfs
        refine (hcaptures before g after rfl).mono (List.append_subset.mpr ⟨?_, ?_⟩)
        · exact List.subset_append_of_subset_left _ hbefore.bindings_subset
        · refine List.subset_append_of_subset_right _ ?_
          rw [List.cons_append, List.map_cons, hbinding]
          exact List.perm_middle.symm.subset

theorem externalSpecifier_congr (h : e.location = d.location) (module : String) :
    e.externalSpecifier module = d.externalSpecifier module := by
  unfold Draft.externalSpecifier Draft.moduleSpecifier
  rw [h]

theorem client_run (settings : Settings) (location source : String) :
    ∃ client d, (Draft.defaultImport (({ location, source } : Draft).externalSpecifier
        settings.clientModule) "client" false).run { location, source } = (client, d) ∧
      Holds [] d ∧
      BindsValue d (d.externalSpecifier settings.clientModule) .defaultExport client := by
  refine ⟨_, _, rfl, ?_, bindsValue_add _ "client" .defaultExport⟩
  exact (Holds.empty location source).request (r := .defaultImport _ "client" false) rfl

/-- In an endpoint module the imports, the client among them, the object that holds all functions and
the functions have distinct names. The types of functions mention imports and that object alone, and
each function has a parameter for each of its operation, named apart from the others, from all that
the function mentions, from the client, the object, and the functions up to it. -/
theorem endpoint_names_apart (s : Service) (settings : Settings) (source : String) :
    let (e, d) := made s settings source
    draft s settings source = { d with declarations := e.declarations s.name } ∧
    e.functions.map Function.operation = s.operations ∧ d.own = some e.aggregate ∧
    Binds d (d.externalSpecifier settings.clientModule) .defaultExport e.client ∧
    (bindings d ++ e.aggregate :: e.functions.map Function.binding).Nodup ∧
    (∀ f ∈ e.functions, ∀ n ∈ mentions f, n = e.aggregate ∨ n ∈ bindings d) ∧
    ∀ before f after, e.functions = before ++ f :: after →
      Uncaptured (e.client :: e.aggregate :: (before ++ [f]).map Function.binding) f := by
  obtain ⟨client, d₁, hclient, hheld₁, hbinds⟩ :=
    client_run settings (s.endpointLocation settings) source
  obtain ⟨aggregate, d₂, hown, hheld₂, ho, hlocation, himports⟩ := hheld₁.bindOwn s.name
  obtain ⟨fs, d₃, hfunctions, hops, hheld₃, hextends₃, hknown, hcapture⟩ :=
    functionsOf_run [] s.operations hheld₂ ho (List.mem_singleton_self aggregate)
  have hmade : made s settings source = (⟨client, aggregate, fs⟩, d₃) := by
    have hget : (get : Drafting Draft).run { location := s.endpointLocation settings, source } =
        ({ location := s.endpointLocation settings, source },
          { location := s.endpointLocation settings, source }) := rfl
    rw [made, make, run_bind, hget, run_bind, hclient, run_bind, hown, run_bind, hfunctions]
    rfl
  have hclient₂ : Binds d₂ (d₁.externalSpecifier settings.clientModule) .defaultExport client := by
    rw [Binds, himports]
    exact ⟨_, hbinds, rfl, rfl, rfl⟩
  have hspecifier : d₃.externalSpecifier settings.clientModule =
      d₁.externalSpecifier settings.clientModule :=
    externalSpecifier_congr (hextends₃.location.trans hlocation) _
  rw [hmade]
  refine ⟨?_, hops, hextends₃.own.trans ho, ?_, ?_, fun f hf n hn => ?_,
    fun before f after hfs => ?_⟩
  · rw [draft, hmade]
  · rw [hspecifier]
    exact hextends₃.binds _ _ _ hclient₂
  · exact (hheld₃.perm (List.perm_append_singleton _ _)).apart
  · refine (hknown f hf n hn).imp (fun h => ?_) id
    exact Option.some.inj (h.symm.trans (hextends₃.own.trans ho))
  · refine (hcapture before f after hfs).mono (List.cons_subset.mpr ⟨?_, ?_⟩)
    · exact List.mem_append_left _ (mem_bindings_iff.mpr ⟨_, _, hclient₂⟩)
    · refine List.subset_append_of_subset_right _ ?_
      exact (List.perm_append_singleton _ _).symm.subset

end TypedClient.Proofs.EndpointScopes
