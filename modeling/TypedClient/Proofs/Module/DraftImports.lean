import TypedClient.Module.Draft
import TypedClient.Proofs.Module.ImportRequests

namespace TypedClient.Proofs.DraftImports

open TypedClient.Module

def ImportsDefault (d : Draft) (path : String) : Prop :=
  ∃ i ∈ d.imports.imports, i.kind = .defaultExport ∧ i.path = path

/-- What becomes of a draft when the default exports at some locations are asked for. -/
structure Asks (targets : List String) (d e : Draft) : Prop where
  location : e.location = d.location
  own : e.own = d.own
  imports : ∀ path, ImportsDefault e path ↔ ImportsDefault d path ∨
    ∃ t ∈ targets, ¬ (d.own.isSome = true ∧ t = d.location) ∧ path = d.moduleSpecifier t

theorem Asks.refl (d : Draft) : Asks [] d d :=
  ⟨rfl, rfl, fun _ => by simp⟩

theorem Asks.moduleSpecifier {ts : List String} {d e : Draft} (h : Asks ts d e) (t : String) :
    e.moduleSpecifier t = d.moduleSpecifier t := by
  unfold Draft.moduleSpecifier
  rw [h.location]

theorem Asks.trans {ts us : List String} {d e f : Draft} (h : Asks ts d e) (h' : Asks us e f) :
    Asks (ts ++ us) d f := by
  refine ⟨h'.location.trans h.location, h'.own.trans h.own, fun path => ?_⟩
  simp only [h'.imports, h.imports, h.own, h.location, h.moduleSpecifier, List.mem_append,
    or_and_right, exists_or, or_assoc]

variable {α β ε : Type} {ts us : List String}

def Requests (m : Drafting α) (ts : List String) : Prop :=
  ∀ d, Asks ts d (m.run d).2

namespace Requests

theorem pure (a : α) : Requests (pure a) [] :=
  fun d => Asks.refl d

theorem bind {m : Drafting α} {f : α → Drafting β} (hm : Requests m ts)
    (hf : ∀ a, Requests (f a) us) : Requests (m >>= f) (ts ++ us) :=
  fun d => (hm d).trans (hf (m.run d).1 (m.run d).2)

end Requests

theorem run_bind {α β : Type} (m : Drafting α) (f : α → Drafting β) (d : Draft) :
    (m >>= f).run d = (f (m.run d).1).run (m.run d).2 :=
  rfl

theorem run_run_bind {α β : Type} (m : ExceptT ε Drafting α) (f : α → ExceptT ε Drafting β)
    (d : Draft) : (m >>= f).run.run d = match (m.run.run d).1 with
      | .ok a => (f a).run.run (m.run.run d).2
      | .error e => (.error e, (m.run.run d).2) := by
  change (ExceptT.bindCont f (m.run.run d).1).run (m.run.run d).2 = _
  cases (m.run.run d).1 <;> rfl

def RequestsOk (m : ExceptT ε Drafting α) (ts : List String) : Prop :=
  ∀ d a, (m.run.run d).1 = .ok a → Asks ts d (m.run.run d).2

namespace RequestsOk

theorem pure (a : α) : RequestsOk (pure a : ExceptT ε Drafting α) [] :=
  fun d _ _ => Asks.refl d

theorem throw (e : ε) : RequestsOk (throw e : ExceptT ε Drafting α) ts := by
  intro d a h
  cases h

theorem lift {m : Drafting α} (hm : Requests m ts) :
    RequestsOk (liftM m : ExceptT ε Drafting α) ts :=
  fun d _ _ => hm d

theorem bind {m : ExceptT ε Drafting α} {f : α → ExceptT ε Drafting β} (hm : RequestsOk m ts)
    (hf : ∀ a, RequestsOk (f a) us) : RequestsOk (m >>= f) (ts ++ us) := by
  intro d b h
  rw [run_run_bind] at h ⊢
  cases ha : (m.run.run d).1 with
  | error e =>
    rw [ha] at h
    cases h
  | ok a =>
    rw [ha] at h
    exact (hm d a ha).trans (hf a (m.run.run d).2 b h)

theorem adapt {ε' : Type} {m : ExceptT ε Drafting α} (hm : RequestsOk m ts) (g : ε → ε') :
    RequestsOk (m.adapt g) ts := by
  intro d a h
  change (m.run.run d).1.mapError g = .ok a at h
  change Asks ts d (m.run.run d).2
  cases hr : (m.run.run d).1 with
  | error e =>
    rw [hr] at h
    cases h
  | ok b => exact hm d b hr

end RequestsOk

theorem imports_add (t : ImportTable) (p q s : String) (k l : ImportKind) (typeOnly : Bool) :
    (∃ i ∈ (t.add p k s typeOnly).2.imports, i.kind = l ∧ i.path = q) ↔
      (∃ i ∈ t.imports, i.kind = l ∧ i.path = q) ∨ (l = k ∧ q = p) := by
  cases hf : t.find? p k with
  | none =>
    have hadd : (t.add p k s typeOnly).2.imports =
        t.imports ++ [⟨p, k, t.freshName s, typeOnly⟩] := by
      rw [ImportTable.add, hf]
      rfl
    simp [hadd, or_and_right, exists_or, eq_comm]
  | some i =>
    have hadd : (t.add p k s typeOnly).2.imports =
        t.imports.map (ImportRequests.again p k typeOnly) := by
      rw [ImportTable.add, hf]
      rfl
    have hkey : ∀ j, (ImportRequests.again p k typeOnly j).kind = j.kind ∧
        (ImportRequests.again p k typeOnly j).path = j.path := fun j =>
      (Prod.mk.inj (ImportRequests.again_key p k typeOnly j)).symm
    have hi : i.path = p ∧ i.kind = k := by simpa using List.find?_some hf
    have him := List.mem_of_find?_eq_some hf
    simp only [hadd, List.mem_map, exists_exists_and_eq_and, hkey]
    refine ⟨.inl, fun h => h.elim id ?_⟩
    rintro ⟨rfl, rfl⟩
    exact ⟨i, him, hi.2, hi.1⟩

variable {d : Draft}

theorem asks_of_imports_eq {e : Draft} (hl : e.location = d.location) (ho : e.own = d.own)
    (hi : e.imports.imports = d.imports.imports) : Asks [] d e := by
  refine ⟨hl, ho, fun path => ?_⟩
  simp [ImportsDefault, hi]

theorem requests_declare (declaration : String) : Requests (Draft.declare declaration) [] :=
  fun _ => asks_of_imports_eq rfl rfl rfl

theorem requests_namedImport (path name : String) (typeOnly : Bool) :
    Requests (Draft.namedImport path name typeOnly) [] := by
  refine fun d => ⟨rfl, rfl, fun q => ?_⟩
  have h := imports_add d.imports path q name (.named name) .defaultExport typeOnly
  exact h.trans (by simp [ImportsDefault])

theorem asks_defaultImport (target name : String) (typeOnly : Bool)
    (h : ¬ (d.own.isSome = true ∧ target = d.location)) :
    Asks [target] d ((Draft.defaultImport (d.moduleSpecifier target) name typeOnly).run d).2 := by
  refine ⟨rfl, rfl, fun q => ?_⟩
  have ha := imports_add d.imports (d.moduleSpecifier target) q name .defaultExport .defaultExport
    typeOnly
  refine ha.trans ?_
  simp only [ImportsDefault, true_and, List.mem_singleton, exists_eq_left, h, not_false_eq_true]

theorem requests_importFrom (target name : String) (typeOnly : Bool) :
    Requests (Draft.importFrom target name typeOnly) [target] := by
  intro d
  have hget : (get : Drafting Draft).run d = (d, d) := rfl
  unfold Draft.importFrom
  rw [run_bind, hget]
  dsimp only
  cases ho : d.own with
  | none =>
    exact asks_defaultImport target name typeOnly (by simp [ho])
  | some own =>
    by_cases ht : target = d.location
    · simp only [ht, if_true]
      refine ⟨rfl, rfl, fun q => ?_⟩
      change ImportsDefault d q ↔ _
      simp [ho]
    · simp only [ht, if_false]
      exact asks_defaultImport target name typeOnly (by simp [ht])

def ImportsFrom (targets : List String) (d : Draft) : Prop :=
  ∀ path, ImportsDefault d path ↔ ∃ t ∈ targets, t ≠ d.location ∧ path = d.moduleSpecifier t

theorem liftM_run_bind {ε α β : Type} (m : Drafting α) (f : α → ExceptT ε Drafting β) (d : Draft) :
    ((liftM m : ExceptT ε Drafting α) >>= f).run.run d = (f (m.run d).1).run.run (m.run d).2 :=
  rfl

theorem importsFrom_of_asks {ts : List String} {name location source : String} {d : Draft}
    (h : Asks ts ((Draft.bindOwn name).run { location, source }).2 d) :
    d.location = location ∧ ImportsFrom ts d := by
  have hown : ((Draft.bindOwn name).run { location, source }).2.own.isSome = true := rfl
  have hloc : ((Draft.bindOwn name).run { location, source }).2.location = location := rfl
  have hnone : ∀ path, ¬ ImportsDefault ((Draft.bindOwn name).run { location, source }).2 path := by
    rintro path ⟨i, hi, -⟩
    cases hi
  refine ⟨h.location.trans hloc, fun path => ?_⟩
  rw [h.imports, h.location]
  simp only [hnone, hown, false_or, true_and, h.moduleSpecifier, ne_eq]

theorem asks_of_run {ε α : Type} {m : ExceptT ε Drafting α} {ts : List String} {a : α} {d e : Draft}
    (h : RequestsOk m ts) (hrun : m.run.run d = (.ok a, e)) : Asks ts d e := by
  have ha := h d a (congrArg Prod.fst hrun)
  rwa [congrArg Prod.snd hrun] at ha

end TypedClient.Proofs.DraftImports
