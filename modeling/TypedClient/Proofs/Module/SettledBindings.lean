import TypedClient.Proofs.Module.DraftWork

namespace TypedClient.Proofs.SettledBindings

open TypedClient.Module TypedClient.Proofs.ImportRequests TypedClient.Proofs.DraftImports
open TypedClient.Proofs.DraftWork

variable {α β ε : Type} {d e f : Draft}

def bound? (t : ImportTable) (path : String) (kind : ImportKind) : Option String :=
  (t.find? path kind).map Import.binding

section Table

variable {t : ImportTable} {p : String} {k : ImportKind} (s : String) (typeOnly : Bool)

theorem add_of_find {i : Import} (h : t.find? p k = some i) :
    t.add p k s typeOnly = (i.binding, { t with imports := t.imports.map (again p k typeOnly) }) := by
  rw [ImportTable.add, h]
  rfl

theorem add_of_find_none (h : t.find? p k = none) :
    t.add p k s typeOnly = (t.freshName s,
      ⟨t.imports ++ [⟨p, k, t.freshName s, typeOnly⟩], t.freshName s :: t.taken⟩) := by
  rw [ImportTable.add, h]
  rfl

theorem bound?_again (taken : List String) (q : String) (l : ImportKind) :
    bound? ⟨t.imports.map (again p k typeOnly), taken⟩ q l = bound? t q l := by
  have hkey : (fun i : Import => i.path = q && i.kind = l) ∘ again p k typeOnly =
      fun i => (i.path = q && i.kind = l : Bool) := by
    funext i
    obtain ⟨hpath, hkind⟩ := Prod.mk.inj (again_key p k typeOnly i)
    simp only [Function.comp_apply, hpath, hkind]
  rw [bound?, ImportTable.find?, List.find?_map, hkey, Option.map_map]
  exact congrArg (fun g => Option.map g _) (funext (again_binding p k typeOnly))

theorem add_of_bound {id : String} (h : bound? t p k = some id) :
    (t.add p k s typeOnly).1 = id := by
  obtain ⟨i, hi, rfl⟩ := Option.map_eq_some_iff.mp h
  rw [add_of_find s typeOnly hi]

theorem bound?_add : bound? (t.add p k s typeOnly).2 p k = some (t.add p k s typeOnly).1 := by
  cases hfind : t.find? p k with
  | some i =>
    rw [add_of_find s typeOnly hfind, bound?_again, bound?, hfind]
    rfl
  | none =>
    rw [add_of_find_none s typeOnly hfind]
    simp only [ImportTable.find?] at hfind
    simp [bound?, ImportTable.find?, List.find?_append, hfind]

theorem bound?_add_of_bound {q id : String} {l : ImportKind} (h : bound? t q l = some id) :
    bound? (t.add p k s typeOnly).2 q l = some id := by
  cases hfind : t.find? p k with
  | some i => rw [add_of_find s typeOnly hfind, bound?_again, h]
  | none =>
    obtain ⟨i, hi, rfl⟩ := Option.map_eq_some_iff.mp h
    simp only [ImportTable.find?] at hi
    rw [add_of_find_none s typeOnly hfind]
    simp [bound?, ImportTable.find?, List.find?_append, hi]

end Table

/-- A later state of the same draft, in which each import is bound as before. -/
structure Keeps (d e : Draft) : Prop where
  location : e.location = d.location
  own : e.own = d.own
  bound : ∀ path kind id, bound? d.imports path kind = some id →
    bound? e.imports path kind = some id

theorem Keeps.refl (d : Draft) : Keeps d d :=
  ⟨rfl, rfl, fun _ _ _ => id⟩

theorem Keeps.trans (h : Keeps d e) (h' : Keeps e f) : Keeps d f :=
  ⟨h'.location.trans h.location, h'.own.trans h.own,
    fun path kind id hb => h'.bound path kind id (h.bound path kind id hb)⟩

theorem keeps_namedImport (path name : String) (typeOnly : Bool) (d : Draft) :
    Keeps d ((Draft.namedImport path name typeOnly).run d).2 :=
  ⟨rfl, rfl, fun _ _ _ => bound?_add_of_bound name typeOnly⟩

theorem keeps_importFrom (target name : String) (typeOnly : Bool) (d : Draft) :
    Keeps d ((Draft.importFrom target name typeOnly).run d).2 := by
  obtain ⟨own, -, -, hrun⟩ | ⟨-, hrun⟩ := importFrom_cases target name typeOnly d
  · rw [hrun]
    exact Keeps.refl d
  · rw [hrun]
    exact ⟨rfl, rfl, fun _ _ _ => bound?_add_of_bound name typeOnly⟩

theorem namedImport_again {path name : String} {typeOnly : Bool}
    (h : Keeps ((Draft.namedImport path name typeOnly).run d).2 e) :
    ((Draft.namedImport path name typeOnly).run e).1 =
      ((Draft.namedImport path name typeOnly).run d).1 :=
  add_of_bound name typeOnly (h.bound _ _ _ (bound?_add name typeOnly))

theorem importFrom_again {target name : String} {typeOnly : Bool}
    (h : Keeps ((Draft.importFrom target name typeOnly).run d).2 e) :
    ((Draft.importFrom target name typeOnly).run e).1 =
      ((Draft.importFrom target name typeOnly).run d).1 := by
  -- which of the two it is, own name or import, depends on what stays as it is
  obtain ⟨own, ho, ht, hrun⟩ | ⟨hd, hrun⟩ := importFrom_cases target name typeOnly d <;>
    rw [hrun] at h ⊢
  · obtain ⟨own', ho', -, hrun'⟩ | ⟨he, -⟩ := importFrom_cases target name typeOnly e
    · rw [hrun']
      exact Option.some.inj (ho'.symm.trans (h.own.trans ho))
    · rw [h.own, h.location, ho] at he
      exact absurd ht (he.resolve_left nofun)
  · have hown : e.own = d.own := h.own
    have hlocation : e.location = d.location := h.location
    obtain ⟨own', ho', ht', -⟩ | ⟨-, hrun'⟩ := importFrom_cases target name typeOnly e
    · rw [← hown, ← hlocation, ho'] at hd
      exact absurd ht' (hd.resolve_left nofun)
    · have hspecifier : e.moduleSpecifier target = d.moduleSpecifier target := by
        rw [Draft.moduleSpecifier, Draft.moduleSpecifier, hlocation]
      rw [hrun', hspecifier]
      exact add_of_bound name typeOnly (h.bound _ _ _ (bound?_add name typeOnly))

theorem Work.keeps {m : Drafting α} (hm : Work m) (d : Draft) : Keeps d (m.run d).2 :=
  hm.induct Keeps.refl Keeps.trans keeps_importFrom keeps_namedImport d

theorem WorkOk.keeps {m : ExceptT ε Drafting α} (hm : WorkOk m) {r : Except ε α}
    (h : m.run.run d = (r, e)) : Keeps d e := by
  have hkeeps := Work.keeps hm d
  rwa [h] at hkeeps

theorem Work.again {m : Drafting α} (hm : Work m) (h : Keeps (m.run d).2 e) :
    (m.run e).1 = (m.run d).1 := by
  induction hm generalizing d e with
  | pure a => rfl
  | @bind α β m f hm hf ihm ihf =>
    rw [run_bind] at h
    have hfirst := ihm ((Work.keeps (hf _) _).trans h)
    rw [run_bind, run_bind, hfirst]
    exact ihf _ (h.trans (Work.keeps hm e))
  | importFrom target name typeOnly => exact importFrom_again h
  | namedImport path name typeOnly => exact namedImport_again h

/-- Work gives one result from now on, however much is imported meanwhile. -/
def Gives (d : Draft) (m : Drafting α) (a : α) : Prop :=
  ∀ e, Keeps d e → (m.run e).1 = a

theorem Gives.kept {m : Drafting α} {a : α} (h : Gives d m a) (hd : Keeps d e) : Gives e m a :=
  fun e' he => h e' (hd.trans he)

theorem Work.settles {m : Drafting α} (hm : Work m) (d : Draft) :
    ∃ a e, m.run d = (a, e) ∧ Keeps d e ∧ Gives e m a :=
  ⟨_, _, rfl, Work.keeps hm d, fun _ he => Work.again hm he⟩

end TypedClient.Proofs.SettledBindings
