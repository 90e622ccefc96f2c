import TypedClient.Proofs.Client.ResolvedSchemas
import TypedClient.Proofs.Client.SchemaWork

namespace TypedClient.Proofs.ValidatorSpines

open TypedClient.Module TypedClient.Proofs.DraftWork TypedClient.Proofs.DraftImports
open TypedClient.Proofs.SchemaWork TypedClient.Proofs.AnnotationGrammar

variable (settings : Settings)

def modelExport : Kind → String
  | .array => "ArrayModel"
  | .text => "StringModel"
  | .number => "NumberModel"
  | .integer => "NumberModel"
  | .boolean => "BooleanModel"
  | .reference => "ObjectModel"
  | .map => "ObjectModel"
  | .composed => "ObjectModel"
  | .unknown => "ObjectModel"

/-- An identifier of a draft for the model class of what a schema resolves to. For a reference that is
the draft's own class if the draft stands where the model does, and else the model's default export. -/
inductive Models (d : Draft) (s : Schema) (id : String) : Prop
  | own {r : Reference} (hs : s.resolve.shape = .reference r)
      (ht : r.location ++ settings.modelSuffix = d.location) (ho : d.own = some id)
  | entity {r : Reference} (hs : s.resolve.shape = .reference r)
      (ht : d.own = none ∨ r.location ++ settings.modelSuffix ≠ d.location)
      (hb : BindsValue d (d.moduleSpecifier (r.location ++ settings.modelSuffix)) .defaultExport id)
  | form (hs : s.resolve.kind ≠ .reference)
      (hb : BindsValue d settings.formModule (.named (modelExport s.resolve.kind)) id)

def Constructed (d : Draft) (raw : String) (e : Expr) : Prop :=
  ∃ A callee, Annotation.parse raw = .ok A ∧
    e = .construct callee (A.argument.toList.map Expr.literal) ∧
    BindsValue d settings.formModule (.named A.name) callee

inductive Validates (d : Draft) : Schema → List Expr → Prop
  | single {s : Schema} {annotated constrained : List Expr} (hs : s.items? = none)
      (ha : List.Forall₂ (Constructed settings d) s.annotations annotated)
      (hc : List.Forall₂ (Constructed settings d) s.constraints constrained) :
      Validates d s (.bool s.nullable :: annotated ++ constrained)
  | list {s items : Schema} {model : String} {inner annotated constrained : List Expr}
      (hs : s.items? = some items) (hm : Models settings d items model)
      (hi : Validates d items inner)
      (ha : List.Forall₂ (Constructed settings d) s.annotations annotated)
      (hc : List.Forall₂ (Constructed settings d) s.constraints constrained) :
      Validates d s
        (.bool s.nullable :: [.identifier model, .array inner] ++ annotated ++ constrained)

inductive FirstFault : List String → Annotation.Fault → Prop
  | here {raw : String} {raws : List String} {fault : Annotation.Fault}
      (h : Annotation.parse raw = .error fault) : FirstFault (raw :: raws) fault
  | later {raw : String} {raws : List String} {fault : Annotation.Fault} {A : Annotation}
      (h : Annotation.parse raw = .ok A) (hr : FirstFault raws fault) :
      FirstFault (raw :: raws) fault

def checked (s : Schema) : List String :=
  s.spine.reverse.flatMap fun n => n.annotations ++ n.constraints

def Read (raws : List String) : Prop :=
  ∀ raw ∈ raws, ∃ A, Annotation.parse raw = .ok A

section Faults

variable {raws rest : List String} {fault : Annotation.Fault}

theorem FirstFault.append (h : FirstFault raws fault) (rest : List String) :
    FirstFault (raws ++ rest) fault := by
  induction h with
  | here h => exact .here h
  | later h _ ih => exact .later h ih

theorem FirstFault.behind (hread : Read raws) (h : FirstFault rest fault) :
    FirstFault (raws ++ rest) fault := by
  induction raws with
  | nil => exact h
  | cons raw raws ih =>
    obtain ⟨A, hA⟩ := hread raw List.mem_cons_self
    exact .later hA (ih fun r hr => hread r (List.mem_cons_of_mem _ hr))

theorem FirstFault.not_read (h : FirstFault raws fault) : ¬ Read raws := by
  intro hread
  induction h with
  | here h =>
    obtain ⟨A, hA⟩ := hread _ List.mem_cons_self
    rw [h] at hA
    cases hA
  | later _ _ ih => exact ih fun r hr => hread r (List.mem_cons_of_mem _ hr)

theorem FirstFault.unique {fault' : Annotation.Fault} (h : FirstFault raws fault)
    (h' : FirstFault raws fault') : fault' = fault := by
  induction h with
  | here h =>
    cases h' with
    | here h' => simpa [h] using h'.symm
    | later h' _ => simp [h] at h'
  | later h _ ih =>
    cases h' with
    | here h' => simp [h] at h'
    | later _ h' => exact ih h'

theorem Read.append (h : Read raws) (h' : Read rest) : Read (raws ++ rest) := by
  intro raw hraw
  exact (List.mem_append.mp hraw).elim (h raw) (h' raw)

end Faults

/-- Work that looks at some texts in their order and fails at the first that is no annotation. -/
def Checks {α : Type} (raws : List String) (m : Checking α) : Prop :=
  ∀ d, match (m.run.run d).1 with
    | .ok _ => Read raws
    | .error fault => FirstFault raws fault

namespace Checks

variable {α β : Type} {raws rest : List String}

theorem pure (a : α) : Checks [] (Pure.pure a : Checking α) :=
  fun _ _ hraw => nomatch hraw

theorem lift (m : Drafting α) : Checks [] (liftM m : Checking α) :=
  fun _ _ hraw => nomatch hraw

theorem bind {m : Checking α} {f : α → Checking β} (hm : Checks raws m)
    (hf : ∀ a, Checks rest (f a)) : Checks (raws ++ rest) (m >>= f) := by
  intro d
  have hraws := hm d
  rw [run_run_bind]
  cases hrun : (m.run.run d).1 with
  | error fault =>
    rw [hrun] at hraws
    exact hraws.append rest
  | ok a =>
    rw [hrun] at hraws
    have hrest := hf a (m.run.run d).2
    dsimp only at hraws ⊢
    cases hnext : ((f a).run.run (m.run.run d).2).1 with
    | error fault =>
      rw [hnext] at hrest
      exact hrest.behind hraws
    | ok b =>
      rw [hnext] at hrest
      exact hraws.append hrest

theorem map {m : Checking α} (hm : Checks raws m) (f : α → β) :
    Checks raws (m >>= fun a => Pure.pure (f a)) :=
  List.append_nil raws ▸ hm.bind fun a => pure (f a)

theorem construct (raw : String) : Checks [raw] (constructValidator settings raw) := by
  intro d
  cases hparse : Annotation.parse raw with
  | error fault =>
    rw [constructValidator_run_error settings hparse]
    exact .here hparse
  | ok A =>
    rw [constructValidator_run_ok settings hparse]
    exact List.forall_mem_singleton.mpr ⟨A, hparse⟩

theorem constructs (raws : List String) : Checks raws (raws.mapM (constructValidator settings)) := by
  induction raws with
  | nil => exact pure []
  | cons raw raws ih =>
    rw [List.mapM_cons]
    exact (construct settings raw).bind fun _ => ih.map _

end Checks

def ofItems : Option Schema → Checking (List Expr)
  | some items => do
    let model ← items.model settings
    let inner ← items.validators settings
    return [.identifier model, .array inner]
  | none => return []

/-- The validators of a schema, with the work on its items before its own annotations. -/
def following (s : Schema) (work : Checking (List Expr)) : Checking (List Expr) := do
  let items ← work
  let annotated ← s.annotations.mapM (constructValidator settings)
  let constrained ← s.constraints.mapM (constructValidator settings)
  return .bool s.nullable :: items ++ annotated ++ constrained

theorem itemValidators_eq (s : Schema) :
    s.shape.itemValidators settings = ofItems settings s.items? := by
  rw [← Schema.itemValidators_resolve, Schema.items?]
  cases hs : s.resolve.shape with
  | composed kind bs =>
    cases bs with
    | nil => rfl
    | cons b bs => exact absurd hs (s.resolved kind b bs)
  | _ => rfl

theorem validators_shape (s : Schema) :
    s.validators settings = following settings s (s.shape.itemValidators settings) := by
  obtain ⟨shape, nullable, annotations, constraints, format, description⟩ := s
  rw [Schema.validators, following]

theorem validators_eq (s : Schema) :
    s.validators settings = following settings s (ofItems settings s.items?) := by
  rw [validators_shape, itemValidators_eq]

theorem checked_single {s : Schema} (h : s.items? = none) :
    checked s = [] ++ (s.annotations ++ s.constraints) := by
  rw [checked, Schema.spine_single h]
  simp

theorem checked_list {s items : Schema} (h : s.items? = some items) :
    checked s = checked items ++ (s.annotations ++ s.constraints) := by
  rw [checked, Schema.spine_list h]
  simp [checked]

theorem checks_following (s : Schema) {raws : List String} {m : Checking (List Expr)}
    (hm : Checks raws m) :
    Checks (raws ++ (s.annotations ++ s.constraints)) (following settings s m) :=
  hm.bind fun _ => (Checks.constructs settings _).bind fun _ => (Checks.constructs settings _).map _

theorem checks_validators (s : Schema) : Checks (checked s) (s.validators settings) := by
  -- along the spine: what the items check comes before what the schema itself checks
  induction s using Schema.spine.induct with
  | case1 s items hs ih =>
    rw [validators_eq, hs, checked_list hs]
    exact checks_following settings s ((Checks.lift _).bind fun _ => ih.map _)
  | case2 s hs =>
    rw [validators_eq, hs, checked_single hs]
    exact checks_following settings s (.pure [])

section Results

variable {settings} {d d' : Draft} {s : Schema} {id raw : String} {e : Expr}

theorem Models.grown (h : Models settings d s id) (hd : Grows d d') : Models settings d' s id := by
  cases h with
  | own hs ht ho => exact .own hs (ht.trans hd.location.symm) (hd.own.trans ho)
  | entity hs ht hb =>
    rw [← hd.moduleSpecifier] at hb
    rw [← hd.own, ← hd.location] at ht
    exact .entity hs ht (hd.bindsValue hb)
  | form hs hb => exact .form hs (hd.bindsValue hb)

theorem Constructed.grown (h : Constructed settings d raw e) (hd : Grows d d') :
    Constructed settings d' raw e := by
  obtain ⟨A, callee, hA, he, hb⟩ := h
  exact ⟨A, callee, hA, he, hd.bindsValue hb⟩

theorem Validates.grown {vs : List Expr} (h : Validates settings d s vs) (hd : Grows d d') :
    Validates settings d' s vs := by
  induction h with
  | single hs ha hc =>
    exact .single hs (ha.imp fun _ _ h => h.grown hd) (hc.imp fun _ _ h => h.grown hd)
  | list hs hm hi ha hc ih =>
    exact .list hs (hm.grown hd) ih (ha.imp fun _ _ h => h.grown hd)
      (hc.imp fun _ _ h => h.grown hd)

theorem Models.declared (h : Models settings d s id) (ds : List String) :
    Models settings { d with declarations := ds } s id := by
  cases h with
  | own hs ht ho => exact .own hs ht ho
  | entity hs ht hb => exact .entity hs ht hb
  | form hs hb => exact .form hs hb

theorem Validates.declared {vs : List Expr} (h : Validates settings d s vs) (ds : List String) :
    Validates settings { d with declarations := ds } s vs := by
  induction h with
  | single hs ha hc => exact .single hs ha hc
  | list hs hm _ ha hc ih => exact .list hs (hm.declared ds) ih ha hc

theorem importModel_run (settings : Settings) (r : Reference) (d : Draft)
    (hs : s.resolve.shape = .reference r) :
    ∃ id d', (r.importModel settings).run d = (id, d') ∧ Grows d d' ∧ Models settings d' s id := by
  have hgrows := grows_importFrom (r.location ++ settings.modelSuffix)
    (r.typeName ++ settings.modelSuffix) false d
  rw [Reference.importModel]
  obtain ⟨own, ho, ht, hrun⟩ | ⟨ht, hrun⟩ := importFrom_cases
    (r.location ++ settings.modelSuffix) (r.typeName ++ settings.modelSuffix) false d
  · exact ⟨own, d, hrun, Grows.refl d, .own hs ht ho⟩
  · rw [hrun] at hgrows ⊢
    rw [← hgrows.own, ← hgrows.location] at ht
    exact ⟨_, _, rfl, hgrows, .entity hs ht (bindsValue_add _ _ .defaultExport)⟩

theorem model_run (settings : Settings) (s : Schema) (d : Draft) :
    ∃ id d', (s.model settings).run d = (id, d') ∧ Grows d d' ∧ Models settings d' s id := by
  have hform (hs : s.resolve.kind ≠ .reference) : ∃ id d',
      (formClass settings (modelExport s.resolve.kind)).run d = (id, d') ∧ Grows d d' ∧
        Models settings d' s id := by
    obtain ⟨id, d', hrun, hgrows, hb⟩ :=
      namedImport_run settings.formModule (modelExport s.resolve.kind) d
    exact ⟨id, d', hrun, hgrows, .form hs hb⟩
  rw [← Schema.model_resolve, Schema.model]
  rw [Schema.kind] at hform
  cases hs : s.resolve.shape with
  | reference r => exact importModel_run settings r d hs
  | composed kind bs =>
    cases bs with
    | nil =>
      rw [hs] at hform
      rw [Shape.model, branchesModel]
      exact hform (by rintro ⟨⟩)
    | cons b bs => exact absurd hs (s.resolved kind b bs)
  | _ =>
    rw [hs] at hform
    rw [Shape.model]
    exact hform (by rintro ⟨⟩)

theorem constructed_run
    (h : (constructValidator settings raw).run.run d = (.ok e, d')) :
    Constructed settings d' raw e := by
  cases hparse : Annotation.parse raw with
  | error fault =>
    rw [constructValidator_run_error settings hparse] at h
    cases h
  | ok A =>
    rw [constructValidator_run_ok settings hparse] at h
    obtain ⟨he, rfl⟩ := Prod.mk.inj h
    exact ⟨A, _, hparse, (Except.ok.inj he).symm, bindsValue_add _ _ (.named A.name)⟩

theorem constructed_runs {raws : List String} {es : List Expr}
    (h : (raws.mapM (constructValidator settings)).run.run d = (.ok es, d')) :
    Grows d d' ∧ List.Forall₂ (Constructed settings d') raws es :=
  run_mapM_grows (R := Constructed settings)
    (fun raw _ _ _ h => ⟨(makes_constructValidator settings raw).workOk.grows h, constructed_run h⟩)
    (fun _ _ _ _ hd h => h.grown hd) h

theorem following_run {m : Checking (List Expr)} {vs : List Expr}
    (h : (following settings s m).run.run d = (.ok vs, d')) :
    ∃ items d₁ annotated constrained, m.run.run d = (.ok items, d₁) ∧ Grows d₁ d' ∧
      vs = .bool s.nullable :: items ++ annotated ++ constrained ∧
      List.Forall₂ (Constructed settings d') s.annotations annotated ∧
      List.Forall₂ (Constructed settings d') s.constraints constrained := by
  obtain ⟨items, d₁, hitems, h⟩ := run_bind_ok h
  obtain ⟨annotated, d₂, hannotated, h⟩ := run_bind_ok h
  obtain ⟨constrained, d₃, hconstrained, h⟩ := run_bind_ok h
  cases h
  obtain ⟨hgrows₂, ha⟩ := constructed_runs hannotated
  obtain ⟨hgrows₃, hc⟩ := constructed_runs hconstrained
  exact ⟨items, d₁, annotated, constrained, hitems, hgrows₂.trans hgrows₃, rfl,
    ha.imp fun _ _ h => h.grown hgrows₃, hc⟩

theorem validates_run {vs : List Expr}
    (h : (s.validators settings).run.run d = (.ok vs, d')) : Validates settings d' s vs := by
  induction s using Schema.spine.induct generalizing vs d d' with
  | case1 s inner hs ih =>
    rw [validators_eq, hs] at h
    obtain ⟨items, d₁, annotated, constrained, hitems, hgrows, rfl, ha, hc⟩ := following_run h
    obtain ⟨model, d₂, hmodel, -, hm⟩ := model_run settings inner d
    rw [ofItems, liftM_run_bind, hmodel] at hitems
    obtain ⟨vs, d₃, hinner, hitems⟩ := run_bind_ok hitems
    cases hitems
    have hgrows₃ := (makes_schema_validators settings inner).workOk.grows hinner
    exact .list hs (hm.grown (hgrows₃.trans hgrows)) ((ih hinner).grown hgrows) ha hc
  | case2 s hs =>
    rw [validators_eq, hs] at h
    obtain ⟨items, d₁, annotated, constrained, hitems, hgrows, rfl, ha, hc⟩ := following_run h
    cases hitems
    exact .single hs ha hc

end Results

theorem read_checked_iff (s : Schema) :
    Read (checked s) ↔ ∀ n ∈ s.spine, Read (n.annotations ++ n.constraints) := by
  simp only [Read, checked, List.mem_flatMap, List.mem_reverse]
  exact ⟨fun h n hn raw hraw => h raw ⟨n, hn, hraw⟩, fun h raw ⟨n, hn, hraw⟩ => h n hn raw hraw⟩

/-- The validators of a schema are made just when each text on its spine is an annotation, and they
are then those of the schema in the draft. Else the fault is that of the first that is none, from the
innermost schema outwards. -/
theorem validators_along_spine (settings : Settings) (s : Schema) (d : Draft) :
    ((∃ vs d', (s.validators settings).run.run d = (.ok vs, d')) ↔
      ∀ n ∈ s.spine, Read (n.annotations ++ n.constraints)) ∧
    (∀ vs d', (s.validators settings).run.run d = (.ok vs, d') → Validates settings d' s vs) ∧
    ∀ fault, (∃ d', (s.validators settings).run.run d = (.error fault, d')) ↔
      FirstFault (checked s) fault := by
  have hchecks := checks_validators settings s d
  rw [← read_checked_iff]
  rcases hrun : (s.validators settings).run.run d with ⟨fault | vs, d'⟩ <;> rw [hrun] at hchecks
  · refine ⟨⟨?_, fun hread => absurd hread hchecks.not_read⟩, ?_, fun fault' => ⟨?_, fun h => ?_⟩⟩
    · rintro ⟨_, _, ⟨⟩⟩
    · rintro _ _ ⟨⟩
    · rintro ⟨_, ⟨⟩⟩
      exact hchecks
    · obtain rfl := hchecks.unique h
      exact ⟨d', rfl⟩
  · refine ⟨⟨fun _ => hchecks, fun _ => ⟨vs, d', rfl⟩⟩, ?_, fun fault => ⟨?_, fun h => ?_⟩⟩
    · rintro _ _ ⟨⟩
      exact validates_run hrun
    · rintro ⟨_, ⟨⟩⟩
    · exact absurd hchecks h.not_read

end TypedClient.Proofs.ValidatorSpines
