import TypedClient.Proofs.Client.EntityParts
import TypedClient.Proofs.Client.ValidatorSpines
import TypedClient.Proofs.Module.HeldNames
import TypedClient.Proofs.Module.NeutralText

namespace TypedClient.Proofs.SchemaNames

open TypedClient.Module TypedClient.Entity TypedClient.Proofs.AnnotationGrammar
open TypedClient.Proofs.DraftImports TypedClient.Proofs.DraftWork TypedClient.Proofs.EntityParts
open TypedClient.Proofs.FreshName TypedClient.Proofs.HeldNames TypedClient.Proofs.NeutralText
open TypedClient.Proofs.SchemaWork TypedClient.Proofs.ValidatorSpines

section Types

def Resolved (m : Drafting TypeExpr) : Prop :=
  ∀ d, ∀ n ∈ (m.run d).1.names, Known (m.run d).2 n

theorem known_importFrom (target name : String) (typeOnly : Bool) (d : Draft) :
    Known ((Draft.importFrom target name typeOnly).run d).2
      ((Draft.importFrom target name typeOnly).run d).1 := by
  obtain ⟨own, ho, -, hrun⟩ | ⟨-, hrun⟩ := importFrom_cases target name typeOnly d
  · rw [hrun]
    exact .inl ho
  · rw [hrun]
    obtain ⟨i, hi, -, -, hid, -⟩ :=
      add_bound d.imports (d.moduleSpecifier target) name .defaultExport typeOnly
    exact .inr (List.mem_map.mpr ⟨i, hi, hid⟩)

theorem resolved_of_names_eq_nil {m : Drafting TypeExpr} (h : ∀ d, (m.run d).1.names = []) :
    Resolved m := by
  intro d n hn
  rw [h d] at hn
  cases hn

mutual

theorem resolved_shape_valueType (mark : Bool) : ∀ s : Shape, Resolved (s.valueType mark)
  | .reference r => fun d n hn => by
    obtain rfl := List.mem_singleton.mp hn
    exact known_importFrom r.location r.typeName true d
  | .array items => resolved_schema_valueType mark items
  | .map values => resolved_schema_valueType mark values
  | .composed _ branches => resolved_branches_valueType mark branches
  | .anyMap => resolved_of_names_eq_nil fun _ => rfl
  | .text _ => resolved_of_names_eq_nil fun _ => rfl
  | .number => resolved_of_names_eq_nil fun _ => rfl
  | .integer => resolved_of_names_eq_nil fun _ => rfl
  | .boolean => resolved_of_names_eq_nil fun _ => rfl
  | .object _ => resolved_of_names_eq_nil fun _ => rfl
  | .unknown => resolved_of_names_eq_nil fun _ => rfl

theorem resolved_schema_valueType (mark : Bool) : ∀ s : Schema, Resolved (s.valueType mark)
  | ⟨shape, nullable, _, _, _, _⟩ => fun d n hn => by
    have hnames : (if mark && nullable then ((shape.valueType mark).run d).1.orUndefined
        else ((shape.valueType mark).run d).1).names = ((shape.valueType mark).run d).1.names := by
      split
      · exact TypeExpr.names_orUndefined _
      · rfl
    exact resolved_shape_valueType mark shape d n (hnames ▸ hn)

theorem resolved_branches_valueType (mark : Bool) :
    ∀ ss : List Schema, Resolved (branchesValueType mark ss)
  | [] => resolved_of_names_eq_nil fun _ => rfl
  | ⟨shape, _, _, _, _, _⟩ :: _ => resolved_shape_valueType mark shape

end

variable (settings : Settings)

theorem formClass_run (name : String) (d : Draft) :
    ∃ id d', (formClass settings name).run d = (id, d') ∧ Known d' id := by
  obtain ⟨id, d', hrun, -, hb⟩ := namedImport_run settings.formModule name d
  exact ⟨id, d', hrun, known_of_bindsValue hb⟩

theorem known_formClass (name : String) (d : Draft) :
    Known ((formClass settings name).run d).2 ((formClass settings name).run d).1 := by
  obtain ⟨id, d', hrun, hknown⟩ := formClass_run settings name d
  rwa [hrun]

theorem schema_valueType_run (mark : Bool) (s : Schema) (d : Draft) :
    ∃ t d', (s.valueType mark).run d = (t, d') ∧ Grows d d' ∧ ∀ n ∈ t.names, Known d' n :=
  ⟨_, _, rfl, (makes_schema_valueType {} mark s).work.grows d, resolved_schema_valueType mark s d⟩

theorem resolved_reference (name : String) :
    Resolved (do return TypeExpr.reference (← formClass settings name)) := by
  intro d n hn
  obtain rfl := List.mem_singleton.mp hn
  exact known_formClass settings name d

theorem resolved_genericClass (name : String) {args : List TypeExpr}
    (h : TypeExpr.namesOfList args = []) : Resolved (genericClass settings name args) := by
  intro d n hn
  obtain rfl | hn := List.mem_cons.mp hn
  · exact known_formClass settings name d
  · rw [h] at hn
    cases hn

mutual

theorem resolved_shape_modelType : ∀ s : Shape, Resolved (s.modelType settings)
  | .reference r => fun d n hn => by
    obtain rfl := List.mem_singleton.mp hn
    exact known_importFrom _ _ false d
  | .array items => fun d n hn => by
    obtain ⟨model, d₁, hmodel, hknown₁⟩ := formClass_run settings "ArrayModel" d
    obtain ⟨item, d₂, hitem, hgrows₂, hknown₂⟩ := schema_valueType_run false items d₁
    obtain ⟨itemModel, d₃, hitemModel, hgrows₃⟩ :=
      (makes_schema_modelType settings items).work.run d₂
    have hknown₃ := resolved_schema_modelType items d₂
    rw [hitemModel] at hknown₃
    have hrun : ((Shape.array items).modelType settings).run d =
        (.generic model [item, itemModel], d₃) := by
      rw [Shape.modelType, run_bind, hmodel, run_bind, hitem, run_bind, hitemModel]
      rfl
    rw [hrun] at hn ⊢
    simp only [TypeExpr.names, TypeExpr.namesOfList, List.mem_cons, List.mem_append,
      List.not_mem_nil, or_false] at hn
    obtain rfl | hn | hn := hn
    · exact hknown₁.grown (hgrows₂.trans hgrows₃)
    · exact (hknown₂ n hn).grown hgrows₃
    · exact hknown₃ n hn
  | .map values => fun d n hn => by
    obtain ⟨model, d₁, hmodel, hknown₁⟩ := formClass_run settings "ObjectModel" d
    obtain ⟨value, d₂, hvalue, hgrows₂, hknown₂⟩ := schema_valueType_run false values d₁
    have hrun : ((Shape.map values).modelType settings).run d =
        (.generic model [.record value], d₂) := by
      rw [Shape.modelType, run_bind, hmodel, run_bind, hvalue]
      rfl
    rw [hrun] at hn ⊢
    simp only [TypeExpr.names, TypeExpr.namesOfList, List.mem_cons, List.append_nil] at hn
    obtain rfl | hn := hn
    · exact hknown₁.grown hgrows₂
    · exact hknown₂ n hn
  | .composed _ branches => resolved_branches_modelType branches
  | .anyMap => resolved_genericClass settings _ rfl
  | .text _ => resolved_reference settings _
  | .number => resolved_reference settings _
  | .integer => resolved_reference settings _
  | .boolean => resolved_reference settings _
  | .object _ => resolved_genericClass settings _ rfl
  | .unknown => resolved_genericClass settings _ rfl

theorem resolved_schema_modelType : ∀ s : Schema, Resolved (s.modelType settings)
  | ⟨shape, _, _, _, _, _⟩ => resolved_shape_modelType shape

theorem resolved_branches_modelType : ∀ ss : List Schema, Resolved (branchesModelType settings ss)
  | [] => resolved_genericClass settings _ rfl
  | ⟨shape, _, _, _, _, _⟩ :: _ => resolved_shape_modelType shape

end

end Types

section Validators

variable {settings : Settings} {d d' : Draft} {s : Schema} {id raw entity : String} {e : Expr}

theorem known_of_models (h : Models settings d s id) : Known d id := by
  cases h with
  | own _ _ ho => exact .inl ho
  | entity _ _ hb => exact known_of_bindsValue hb
  | form _ hb => exact known_of_bindsValue hb

theorem written_argument {raw : String} {rest : List Char} {argument : Option Literal}
    (h : Annotation.argument? raw rest = .ok argument) :
    ∀ l ∈ argument.toList, RoundTrip.Written l := by
  unfold Annotation.argument? at h
  split at h
  · obtain rfl := Except.ok.inj h
    exact nofun
  split at h
  · cases h
  split at h
  · obtain rfl := Except.ok.inj h
    exact nofun
  split at h
  · rename_i l hparse
    obtain rfl := Except.ok.inj h
    exact List.forall_mem_singleton.mpr (RoundTrip.written_of_parse hparse)
  · cases h

theorem coded_constructed (h : Constructed settings d raw e)
    (hd : ∀ n, Known d n → IsIdentifier n) : Coded e.text := by
  obtain ⟨A, callee, hA, rfl, hb⟩ := h
  obtain ⟨-, rest, hargument⟩ := of_parse hA
  refine coded_construct (hd _ (known_of_bindsValue hb)) (List.forall_mem_map.mpr fun l hl => ?_)
  exact coded_chars (written_argument hargument l hl)

theorem coded_constructions {raws : List String} {es : List Expr}
    (h : List.Forall₂ (Constructed settings d) raws es) (hd : ∀ n, Known d n → IsIdentifier n) :
    ∀ e ∈ es, Coded e.text := by
  induction h with
  | nil => exact nofun
  | cons h _ ih => exact List.forall_mem_cons.mpr ⟨coded_constructed h hd, ih⟩

theorem coded_validators {vs : List Expr} (h : Validates settings d s vs)
    (hd : ∀ n, Known d n → IsIdentifier n) : ∀ e ∈ vs, Coded e.text := by
  have hbool (b : Bool) : Coded (Expr.bool b).text := by
    cases b <;> exact .code (by decide)
  induction h with
  | single hs ha hc =>
    exact List.forall_mem_append.mpr ⟨List.forall_mem_cons.mpr
      ⟨hbool _, coded_constructions ha hd⟩, coded_constructions hc hd⟩
  | list hs hm hi ha hc ih =>
    refine List.forall_mem_append.mpr ⟨List.forall_mem_append.mpr ⟨List.forall_mem_cons.mpr
      ⟨hbool _, List.forall_mem_cons.mpr ⟨?_, List.forall_mem_singleton.mpr (coded_array ih)⟩⟩,
      coded_constructions ha hd⟩, coded_constructions hc hd⟩
    exact coded_identifier (hd _ (known_of_models hm))

end Validators

section Accessors

variable {settings : Settings} {d d' : Draft} {entity : String} {p : Property} {a : Accessor}

/-- An accessor of a property whose parts stand for something in a draft. -/
structure Accesses (settings : Settings) (d : Draft) (p : Property) (a : Accessor) : Prop where
  name : a.name = p.name
  model : Models settings d p.schema a.model
  modelType : ∀ n ∈ a.modelType.names, Known d n
  validators : Validates settings d p.schema a.validators

theorem Accesses.grown (h : Accesses settings d p a) (hd : Grows d d') :
    Accesses settings d' p a :=
  ⟨h.name, h.model.grown hd, fun n hn => (h.modelType n hn).grown hd, h.validators.grown hd⟩

theorem Accesses.declared (h : Accesses settings d p a) (ds : List String) :
    Accesses settings { d with declarations := ds } p a :=
  ⟨h.name, h.model.declared ds, h.modelType, h.validators.declared ds⟩

theorem accessor_run (h : (accessor settings entity p).run.run d = (.ok a, d')) :
    Grows d d' ∧ Accesses settings d' p a := by
  have hgrows := (makes_accessor settings entity p).workOk.grows h
  obtain ⟨model, d₁, hmodel, -, hm⟩ := model_run settings p.schema d
  have hknown := resolved_schema_modelType settings p.schema d₁
  obtain ⟨modelType, d₂, htype, hgrows₂⟩ :=
    (makes_schema_modelType settings p.schema).work.run d₁
  rw [htype] at hknown
  rw [accessor, liftM_run_bind, hmodel, liftM_run_bind, htype] at h
  obtain ⟨validators, d₃, hvalidators, h⟩ := run_bind_ok h
  cases h
  have hrun := run_adapt_ok hvalidators
  have hgrows₃ := (makes_schema_validators settings p.schema).workOk.grows hrun
  exact ⟨hgrows, rfl, hm.grown (hgrows₂.trans hgrows₃), fun n hn => (hknown n hn).grown hgrows₃,
    validates_run hrun⟩

theorem accessors_run {ps : List Property} {as : List Accessor}
    (h : (ps.mapM (accessor settings entity)).run.run d = (.ok as, d')) :
    Grows d d' ∧ List.Forall₂ (Accesses settings d') ps as :=
  run_mapM_grows (R := Accesses settings) (fun _ _ _ _ h => accessor_run h)
    (fun _ _ _ _ hd h => h.grown hd) h

theorem map_name_accessors {ps : List Property} {as : List Accessor}
    (h : List.Forall₂ (Accesses settings d) ps as) :
    as.map Accessor.name = ps.map Property.name := by
  induction h with
  | nil => rfl
  | cons h _ ih => rw [List.map_cons, List.map_cons, h.name, ih]

end Accessors

end TypedClient.Proofs.SchemaNames
