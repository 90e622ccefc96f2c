import TypedClient.Proofs.Module.DraftImports
import TypedClient.Proofs.Path.Specifier

namespace TypedClient.Proofs.DraftWork

open TypedClient.Module TypedClient.Proofs.ImportRequests TypedClient.Proofs.DraftImports
open TypedClient.Proofs.Specifier

variable {α β ε : Type}

inductive Work : {α : Type} → Drafting α → Prop
  | pure {α : Type} (a : α) : Work (Pure.pure a : Drafting α)
  | bind {α β : Type} {m : Drafting α} {f : α → Drafting β} (hm : Work m)
      (hf : ∀ a, Work (f a)) : Work (m >>= f)
  | importFrom (target name : String) (typeOnly : Bool) :
      Work (Draft.importFrom target name typeOnly)
  | namedImport (path name : String) (typeOnly : Bool) :
      Work (Draft.namedImport path name typeOnly)

namespace Work

theorem map {m : Drafting α} (hm : Work m) (f : α → β) :
    Work (m >>= fun a => Pure.pure (f a)) :=
  hm.bind fun a => pure (f a)

/-- What holds of a draft and itself, of one that is followed by another, and of each import, holds
of the drafts before and after the work. -/
theorem induct {m : Drafting α} (hm : Work m) {R : Draft → Draft → Prop} (refl : ∀ d, R d d)
    (trans : ∀ {d e f}, R d e → R e f → R d f)
    (importFrom : ∀ t n b d, R d ((Draft.importFrom t n b).run d).2)
    (namedImport : ∀ p n b d, R d ((Draft.namedImport p n b).run d).2) (d : Draft) :
    R d (m.run d).2 := by
  induction hm generalizing d with
  | pure a => exact refl d
  | bind hm hf ihm ihf => exact trans (ihm d) (ihf _ _)
  | importFrom t n b => exact importFrom t n b d
  | namedImport p n b => exact namedImport p n b d

end Work

def WorkOk (m : ExceptT ε Drafting α) : Prop :=
  Work m.run

namespace WorkOk

theorem pure (a : α) : WorkOk (Pure.pure a : ExceptT ε Drafting α) :=
  Work.pure (Except.ok a)

theorem throw (e : ε) : WorkOk (throw e : ExceptT ε Drafting α) :=
  Work.pure (Except.error e)

theorem lift {m : Drafting α} (hm : Work m) : WorkOk (liftM m : ExceptT ε Drafting α) :=
  hm.map Except.ok

theorem bind {m : ExceptT ε Drafting α} {f : α → ExceptT ε Drafting β} (hm : WorkOk m)
    (hf : ∀ a, WorkOk (f a)) : WorkOk (m >>= f) := by
  have hrun : Work (m.run >>= ExceptT.bindCont f) := Work.bind hm fun r => by
    cases r with
    | ok a => exact hf a
    | error e => exact Work.pure _
  exact hrun

theorem adapt {ε' : Type} {m : ExceptT ε Drafting α} (hm : WorkOk m) (g : ε → ε') :
    WorkOk (m.adapt g) :=
  Work.map hm (Except.mapError g)

end WorkOk

theorem run_bind_ok {m : ExceptT ε Drafting α} {f : α → ExceptT ε Drafting β} {d e : Draft} {b : β}
    (h : (m >>= f).run.run d = (.ok b, e)) :
    ∃ a d', m.run.run d = (.ok a, d') ∧ (f a).run.run d' = (.ok b, e) := by
  rw [run_run_bind] at h
  cases hm : (m.run.run d).1 with
  | error x =>
    rw [hm] at h
    cases h
  | ok a =>
    rw [hm] at h
    exact ⟨a, (m.run.run d).2, Prod.ext hm rfl, h⟩

theorem run_adapt {ε' : Type} (m : ExceptT ε Drafting α) (g : ε → ε') (d : Draft) :
    (m.adapt g).run.run d = ((m.run.run d).1.mapError g, (m.run.run d).2) :=
  rfl

theorem run_adapt_ok {ε' : Type} {m : ExceptT ε Drafting α} {g : ε → ε'} {d e : Draft} {a : α}
    (h : (m.adapt g).run.run d = (.ok a, e)) : m.run.run d = (.ok a, e) := by
  rw [run_adapt] at h
  rcases hm : m.run.run d with ⟨x | b, d'⟩ <;> rw [hm] at h
  · cases h
  · cases h
    rfl

def Binds (d : Draft) (path : String) (kind : ImportKind) (id : String) : Prop :=
  ∃ i ∈ d.imports.imports, i.path = path ∧ i.kind = kind ∧ i.binding = id

def BindsValue (d : Draft) (path : String) (kind : ImportKind) (id : String) : Prop :=
  (⟨path, kind, id, false⟩ : Import) ∈ d.imports.imports

/-- An identifier that stands for the default export of the module at a location: the module's own
name in that module itself, the binding of a default import in others. -/
inductive StandsFor (d : Draft) (target id : String) : Prop
  | own (ht : target = d.location) (ho : d.own = some id)
  | imported (ht : target ≠ d.location)
      (hb : Binds d (d.moduleSpecifier target) .defaultExport id)

theorem StandsFor.declared {d : Draft} {target id : String} (h : StandsFor d target id)
    (ds : List String) : StandsFor { d with declarations := ds } target id := by
  cases h with
  | own ht ho => exact .own ht ho
  | imported ht hb => exact .imported ht hb

/-- No identifier stands for two imports, for an import and the module's own export, or for the
modules at two places. -/
structure Unambiguous (d : Draft) : Prop where
  bindings : (d.imports.imports.map Import.binding).Nodup
  own : ∀ i ∈ d.imports.imports, d.own ≠ some i.binding
  places : ∀ t u id, '.' ∉ t.toList → '.' ∉ u.toList → StandsFor d t id → StandsFor d u id →
    Path.names t = Path.names u

/-- The requests behind a draft: its own name is taken and not given back. -/
def Founded (d : Draft) : Prop :=
  ∃ es, Consistent es d.imports ∧ ∀ n, d.own = some n → Reserved es n

theorem moduleSpecifier_inj {d : Draft} {t u : String} (ht : '.' ∉ t.toList) (hu : '.' ∉ u.toList)
    (h : d.moduleSpecifier t = d.moduleSpecifier u) : Path.names t = Path.names u := by
  rw [Draft.moduleSpecifier, Draft.moduleSpecifier, String.append_left_inj] at h
  exact relativeSpecifier_inj ht hu h

theorem Founded.unambiguous {d : Draft} (h : Founded d) : Unambiguous d := by
  obtain ⟨es, hes, hown⟩ := h
  have hapart : ∀ i ∈ d.imports.imports, d.own ≠ some i.binding :=
    fun i hi ho => hes.not_reserved i hi (hown _ ho)
  refine ⟨hes.bindings, hapart, fun t u id ht hu hst hsu => ?_⟩
  cases hst with
  | own htl ho =>
    cases hsu with
    | own hul => rw [htl, hul]
    | imported hul hb =>
      obtain ⟨i, hi, -, -, rfl⟩ := hb
      exact absurd ho (hapart i hi)
  | imported htl hb =>
    obtain ⟨i, hi, hpath, -, rfl⟩ := hb
    cases hsu with
    | own hul ho => exact absurd ho (hapart i hi)
    | imported hul hb =>
      obtain ⟨j, hj, hpath', -, hid⟩ := hb
      obtain rfl := List.inj_on_of_nodup_map hes.bindings hj hi hid
      exact moduleSpecifier_inj ht hu (hpath.symm.trans hpath')

structure Grows (d e : Draft) : Prop where
  location : e.location = d.location
  own : e.own = d.own
  declarations : e.declarations = d.declarations
  imports : ∀ i ∈ d.imports.imports, ∃ b, { i with typeOnly := i.typeOnly && b } ∈ e.imports.imports
  founded : Founded d → Founded e

namespace Grows

variable {d e f : Draft} {path id : String} {kind : ImportKind}

theorem refl (d : Draft) : Grows d d :=
  ⟨rfl, rfl, rfl, fun i hi => ⟨true, by simpa using hi⟩, id⟩

theorem trans (h : Grows d e) (h' : Grows e f) : Grows d f := by
  refine ⟨h'.location.trans h.location, h'.own.trans h.own, h'.declarations.trans h.declarations,
    fun i hi => ?_, fun hd => h'.founded (h.founded hd)⟩
  obtain ⟨b, hb⟩ := h.imports i hi
  obtain ⟨c, hc⟩ := h'.imports _ hb
  exact ⟨b && c, by simpa [Bool.and_assoc] using hc⟩

theorem binds (h : Grows d e) (hb : Binds d path kind id) : Binds e path kind id := by
  obtain ⟨i, hi, hpath, hkind, hid⟩ := hb
  obtain ⟨b, hb⟩ := h.imports i hi
  exact ⟨_, hb, hpath, hkind, hid⟩

theorem bindsValue (h : Grows d e) (hb : BindsValue d path kind id) : BindsValue e path kind id := by
  obtain ⟨b, hb⟩ := h.imports _ hb
  exact hb

theorem moduleSpecifier (h : Grows d e) (target : String) :
    e.moduleSpecifier target = d.moduleSpecifier target := by
  rw [Draft.moduleSpecifier, Draft.moduleSpecifier, h.location]

theorem standsFor (h : Grows d e) {target : String} (hs : StandsFor d target id) :
    StandsFor e target id := by
  cases hs with
  | own ht ho => exact .own (ht.trans h.location.symm) (h.own.trans ho)
  | imported ht hb =>
    refine .imported (h.location ▸ ht) ?_
    rw [h.moduleSpecifier]
    exact h.binds hb

end Grows

theorem grows_request (d : Draft) {r : Request} {p : String} {k : ImportKind}
    (hk : r.key? = some (p, k)) : Grows d { d with imports := (r.apply d.imports).2 } := by
  obtain ⟨s, -, ha⟩ := Request.apply_of_key? hk d.imports
  refine ⟨rfl, rfl, rfl, fun i hi => ?_, ?_⟩
  · change ∃ b, _ ∈ (r.apply d.imports).2.imports
    rw [ha, ImportTable.add]
    cases d.imports.find? p k with
    | none => exact ⟨true, by simpa using .inl hi⟩
    | some j =>
      refine ⟨if i.path = p ∧ i.kind = k then r.typeOnly else true, ?_⟩
      refine List.mem_map.mpr ⟨i, hi, ?_⟩
      split <;> simp [ImportTable.Import.request]
  · -- a request for an import gives no reserved name back
    rintro ⟨es, hes, hown⟩
    refine ⟨_, hes.step r, fun n hn => ?_⟩
    exact (Consistent.reserved_append_import (e := ⟨r, _⟩) hk n).mpr (hown n hn)

theorem grows_namedImport (path name : String) (typeOnly : Bool) (d : Draft) :
    Grows d ((Draft.namedImport path name typeOnly).run d).2 :=
  grows_request d (r := .namedImport path name typeOnly) rfl

/-- The default export of a module is its own name in that module, and else an import. -/
theorem importFrom_cases (target name : String) (typeOnly : Bool) (d : Draft) :
    (∃ own, d.own = some own ∧ target = d.location ∧
      (Draft.importFrom target name typeOnly).run d = (own, d)) ∨
    ((d.own = none ∨ target ≠ d.location) ∧ (Draft.importFrom target name typeOnly).run d =
      (Draft.defaultImport (d.moduleSpecifier target) name typeOnly).run d) := by
  have hget : (get : Drafting Draft).run d = (d, d) := rfl
  rw [Draft.importFrom, run_bind, hget]
  dsimp only
  cases d.own with
  | none => exact .inr ⟨.inl rfl, rfl⟩
  | some own =>
    by_cases ht : target = d.location
    · refine .inl ⟨own, rfl, ht, ?_⟩
      simp only [if_pos ht]
      rfl
    · refine .inr ⟨.inr ht, ?_⟩
      simp only [if_neg ht]

theorem grows_importFrom (target name : String) (typeOnly : Bool) (d : Draft) :
    Grows d ((Draft.importFrom target name typeOnly).run d).2 := by
  obtain ⟨own, -, -, hrun⟩ | ⟨-, hrun⟩ := importFrom_cases target name typeOnly d
  · rw [hrun]
    exact Grows.refl d
  · rw [hrun]
    exact grows_request d (r := .defaultImport (d.moduleSpecifier target) name typeOnly) rfl

/-- What is made of each element, in the draft at the end. -/
theorem run_mapM_grows {f : α → ExceptT ε Drafting β} {R : Draft → α → β → Prop}
    (hf : ∀ a d b e, (f a).run.run d = (.ok b, e) → Grows d e ∧ R e a b)
    (hR : ∀ d e a b, Grows d e → R d a b → R e a b) {as : List α} {bs : List β} {d e : Draft}
    (h : (as.mapM f).run.run d = (.ok bs, e)) : Grows d e ∧ List.Forall₂ (R e) as bs := by
  induction as generalizing bs d with
  | nil =>
    cases h
    exact ⟨Grows.refl _, .nil⟩
  | cons a as ih =>
    rw [List.mapM_cons] at h
    obtain ⟨b, d', hb, h⟩ := run_bind_ok h
    obtain ⟨cs, d'', hcs, h⟩ := run_bind_ok h
    cases h
    obtain ⟨hgrows, hab⟩ := hf a d b d' hb
    obtain ⟨hgrows', hrest⟩ := ih hcs
    exact ⟨hgrows.trans hgrows', .cons (hR _ _ _ _ hgrows' hab) hrest⟩

theorem Work.grows {m : Drafting α} (hm : Work m) (d : Draft) : Grows d (m.run d).2 :=
  hm.induct Grows.refl Grows.trans grows_importFrom grows_namedImport d

theorem Work.run {m : Drafting α} (hm : Work m) (d : Draft) :
    ∃ a d', m.run d = (a, d') ∧ Grows d d' :=
  ⟨_, _, rfl, hm.grows d⟩

theorem WorkOk.grows {m : ExceptT ε Drafting α} (hm : WorkOk m) {d d' : Draft} {r : Except ε α}
    (h : m.run.run d = (r, d')) : Grows d d' := by
  have hgrows := Work.grows hm d
  rwa [h] at hgrows

/-- The name that is handed out for an import is the one that it is bound to. -/
theorem add_bound (t : ImportTable) (p s : String) (k : ImportKind) (typeOnly : Bool) :
    ∃ i ∈ (t.add p k s typeOnly).2.imports, i.path = p ∧ i.kind = k ∧
      i.binding = (t.add p k s typeOnly).1 ∧ (typeOnly = false → i.typeOnly = false) := by
  rw [ImportTable.add]
  cases hfind : t.find? p k with
  | none => exact ⟨⟨p, k, t.freshName s, typeOnly⟩, by simp [ImportTable.reserve], rfl, rfl, rfl, id⟩
  | some i =>
    have hkey : i.path = p ∧ i.kind = k := by simpa using List.find?_some hfind
    have hmem := List.mem_of_find?_eq_some hfind
    refine ⟨ImportTable.Import.request typeOnly i, List.mem_map.mpr ⟨i, hmem, if_pos hkey⟩,
      hkey.1, hkey.2, rfl, ?_⟩
    rintro rfl
    exact Bool.and_false _

theorem bindsValue_add {d : Draft} (p s : String) (k : ImportKind) :
    BindsValue { d with imports := (d.imports.add p k s false).2 } p k
      (d.imports.add p k s false).1 := by
  obtain ⟨⟨_, _, _, _⟩, hi, rfl, rfl, hb, ht⟩ := add_bound d.imports p s k false
  obtain rfl := ht rfl
  rw [← hb]
  exact hi

theorem namedImport_run (path name : String) (d : Draft) :
    ∃ id d', (Draft.namedImport path name false).run d = (id, d') ∧ Grows d d' ∧
      BindsValue d' path (.named name) id :=
  ⟨_, _, rfl, grows_namedImport path name false d, bindsValue_add path name (.named name)⟩

/-- The default export of a module, asked for in a draft that has its own name. -/
theorem importFrom_run {d : Draft} {own : String} (ho : d.own = some own) (target name : String)
    (typeOnly : Bool) :
    ∃ id d', (Draft.importFrom target name typeOnly).run d = (id, d') ∧ Grows d d' ∧
      StandsFor d' target id ∧ (target = d.location → id = own) ∧
      (target ≠ d.location → typeOnly = false →
        BindsValue d' (d.moduleSpecifier target) .defaultExport id) := by
  have hgrows := grows_importFrom target name typeOnly d
  obtain ⟨own', ho', ht, hrun⟩ | ⟨h, hrun⟩ := importFrom_cases target name typeOnly d
  · exact ⟨own', d, hrun, Grows.refl d, .own ht ho', fun _ => Option.some.inj (ho'.symm.trans ho),
      fun hne => absurd ht hne⟩
  · have hne : target ≠ d.location := h.resolve_left fun hn => by simp [hn] at ho
    rw [hrun] at hgrows ⊢
    obtain ⟨i, hi, hpath, hkind, hid, -⟩ :=
      add_bound d.imports (d.moduleSpecifier target) name .defaultExport typeOnly
    refine ⟨_, _, rfl, hgrows, ?_, fun ht => absurd ht hne, ?_⟩
    · exact .imported hne ⟨i, hi, hpath, hkind, hid⟩
    · rintro - rfl
      exact bindsValue_add (d.moduleSpecifier target) name .defaultExport

end TypedClient.Proofs.DraftWork
