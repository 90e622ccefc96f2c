import TypedClient.Proofs.Module.HeldNames
import TypedClient.Proofs.Module.TypeNames

namespace TypedClient.Proofs.GlobalNames

open TypedClient.Module TypedClient.Identifier TypedClient.Proofs.FreshName
open TypedClient.Proofs.ImportRequests TypedClient.Proofs.DraftImports TypedClient.Proofs.DraftWork
open TypedClient.Proofs.HeldNames

variable {α β ε : Type} {names : List String} {d e : Draft} {n suggested : String}

def globals : List String :=
  ["Promise", "Readonly", "ReadonlyArray", "Record", "Object", "T"]

/-- What is bound in a stretch of text, and the globals that the text uses. -/
structure Scope where
  bindings : List String
  uses : List String

/-- The globals that a text uses where their names are bound to something else. -/
def Scope.hidden (s : Scope) : List String :=
  s.bindings.filter fun n => n ∈ s.uses

theorem Scope.mem_hidden_iff {s : Scope} : n ∈ s.hidden ↔ n ∈ s.bindings ∧ n ∈ s.uses := by
  simp [Scope.hidden]

mutual

theorem builtins_subset_globals : ∀ t : TypeExpr, t.builtins ⊆ globals
  | .array t => List.cons_subset.mpr ⟨by decide, builtins_subset_globals t⟩
  | .record t => List.cons_subset.mpr
      ⟨by decide, List.cons_subset.mpr ⟨by decide, builtins_subset_globals t⟩⟩
  | .generic _ ts => builtinsOfList_subset_globals ts
  | .optional t => builtins_subset_globals t
  | .promise t => List.cons_subset.mpr ⟨by decide, builtins_subset_globals t⟩
  | .reference _ => List.nil_subset _
  | .typeOf _ => List.nil_subset _
  | .string => List.nil_subset _
  | .number => List.nil_subset _
  | .boolean => List.nil_subset _
  | .unknown => List.nil_subset _
  | .any => List.nil_subset _
  | .void => List.nil_subset _

theorem builtinsOfList_subset_globals : ∀ ts : List TypeExpr, TypeExpr.builtinsOfList ts ⊆ globals
  | [] => List.nil_subset _
  | t :: ts => List.append_subset.mpr
      ⟨builtins_subset_globals t, builtinsOfList_subset_globals ts⟩

end

theorem underscore_not_mem_of_global (h : n ∈ globals) : '_' ∉ n.toList := by
  have hall : ∀ g ∈ globals, '_' ∉ g.toList := by decide
  exact hall n h

/-- A name that is not the suggestion has an underscore, which no global has. -/
theorem eq_suggested {t : ImportTable} (hn : n = t.freshName suggested) (h : n ∈ globals) :
    n = suggested := by
  subst hn
  exact (freshName_isNameFor t suggested).eq_or_underscore.resolve_right
    (underscore_not_mem_of_global h)

/-- A global is no reserved word, so it is bound where it is suggested and still free. -/
theorem freshName_global {t : ImportTable} (h : n ∈ globals) (hfree : n ∉ t.taken) :
    t.freshName n = n := by
  have hall : ∀ g ∈ globals, sanitize g = g ∧ isReserved g = false := by decide
  obtain ⟨hself, hreserved⟩ := hall n h
  simp [ImportTable.freshName, hself, hreserved, hfree]

/-- A draft that imports something under the name of a global only if the name is among some. -/
def Only (names : List String) (d : Draft) : Prop :=
  ∀ n ∈ bindings d, n ∈ globals → n ∈ names

theorem Only.of_bindings_eq (h : Only names d) (hb : bindings e = bindings d) : Only names e := by
  intro n hn
  rw [hb] at hn
  exact h n hn

/-- The one binding that a request for an import may add is made of the suggestion. -/
theorem bindings_add (t : ImportTable) (path suggested : String) (kind : ImportKind)
    (typeOnly : Bool) : (t.add path kind suggested typeOnly).2.imports.map Import.binding ⊆
      t.freshName suggested :: t.imports.map Import.binding := by
  cases hfind : t.find? path kind with
  | some i =>
    have hadd : (t.add path kind suggested typeOnly).2.imports =
        t.imports.map (again path kind typeOnly) := by
      rw [ImportTable.add, hfind]
      rfl
    simp [hadd, Function.comp_def, again_binding]
  | none =>
    have hadd : (t.add path kind suggested typeOnly).2.imports =
        t.imports ++ [⟨path, kind, t.freshName suggested, typeOnly⟩] := by
      rw [ImportTable.add, hfind]
      rfl
    simp [hadd]

theorem Only.add (h : Only names d) {path : String} {kind : ImportKind} {typeOnly : Bool}
    (hs : suggested ∈ globals → suggested ∈ names) :
    Only names { d with imports := (d.imports.add path kind suggested typeOnly).2 } := by
  intro n hn hglobal
  obtain hn | hn := List.mem_cons.mp (bindings_add d.imports path suggested kind typeOnly hn)
  · obtain rfl := eq_suggested hn hglobal
    exact hs hglobal
  · exact h n hn hglobal

theorem hidden_subset {scope : Scope} (huses : scope.uses ⊆ globals)
    (h : ∀ n ∈ scope.bindings, n ∈ globals → n ∈ names) : scope.hidden ⊆ names := by
  intro n hn
  obtain ⟨hb, hu⟩ := Scope.mem_hidden_iff.mp hn
  exact h n hb (huses hu)

/-- The scope of a module that binds its imports and one more name that may be that of a global. -/
theorem hidden_subset_cons {scope : Scope} (huses : scope.uses ⊆ globals) (hd : Only names d)
    (h : ∀ n ∈ scope.bindings, n ∈ bindings d ∨ (n ∈ globals → n = suggested)) :
    scope.hidden ⊆ suggested :: names := by
  refine hidden_subset huses fun n hn hglobal => ?_
  obtain hn | hn := h n hn
  · exact List.mem_cons_of_mem _ (hd n hn hglobal)
  · exact List.mem_cons.mpr (.inl (hn hglobal))

/-- Work that suggests no global for an import unless it is among some names. -/
def Suggests (names : List String) (m : Drafting α) : Prop :=
  ∀ d, Only names d → Only names (m.run d).2

namespace Suggests

theorem pure (a : α) : Suggests names (Pure.pure a : Drafting α) :=
  fun _ => id

theorem bind {m : Drafting α} {f : α → Drafting β} (hm : Suggests names m)
    (hf : ∀ a, Suggests names (f a)) : Suggests names (m >>= f) :=
  fun d h => hf (m.run d).1 _ (hm d h)

theorem map {m : Drafting α} (hm : Suggests names m) (f : α → β) :
    Suggests names (m >>= fun a => Pure.pure (f a)) :=
  hm.bind fun a => pure (f a)

theorem of_bindings {m : Drafting α} (h : ∀ d, bindings (m.run d).2 = bindings d) :
    Suggests names m :=
  fun d hd => hd.of_bindings_eq (h d)

theorem forM {f : α → Drafting Unit} (hf : ∀ a, Suggests names (f a)) (as : List α) :
    Suggests names (as.forM f) := by
  induction as with
  | nil => exact pure ()
  | cons a as ih => exact (hf a).bind fun _ => ih

theorem reserve (s : String) : Suggests names (Draft.reserve s) :=
  of_bindings fun _ => rfl

theorem bindOwn (s : String) : Suggests names (Draft.bindOwn s) :=
  of_bindings fun _ => rfl

theorem release (s : String) : Suggests names (Draft.release s) :=
  of_bindings fun d => congrArg (List.map Import.binding) (Holds.release_imports d.imports s)

theorem namedImport (path : String) (typeOnly : Bool) (h : n ∈ globals → n ∈ names) :
    Suggests names (Draft.namedImport path n typeOnly) :=
  fun _ hd => hd.add h

theorem importFrom (target : String) (typeOnly : Bool) (h : n ∈ globals → n ∈ names) :
    Suggests names (Draft.importFrom target n typeOnly) := by
  intro d hd
  obtain ⟨own, -, -, hrun⟩ | ⟨-, hrun⟩ := importFrom_cases target n typeOnly d
  · rwa [hrun]
  · rw [hrun]
    exact hd.add h

end Suggests

def SuggestsOk (names : List String) (m : ExceptT ε Drafting α) : Prop :=
  Suggests names m.run

theorem SuggestsOk.bind {m : ExceptT ε Drafting α} {f : α → ExceptT ε Drafting β}
    (hm : SuggestsOk names m) (hf : ∀ a, SuggestsOk names (f a)) : SuggestsOk names (m >>= f) := by
  intro d hd
  rw [run_run_bind]
  have hfirst := hm d hd
  cases (m.run.run d).1 with
  | ok a => exact hf a _ hfirst
  | error e => exact hfirst

end TypedClient.Proofs.GlobalNames
