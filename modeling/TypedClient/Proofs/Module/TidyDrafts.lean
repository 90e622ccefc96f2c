import TypedClient.Proofs.Module.DraftWork
import TypedClient.Proofs.Module.HeldNames
import TypedClient.Proofs.Module.ModuleComments

namespace TypedClient.Proofs.TidyDrafts

open TypedClient.Module TypedClient.Path TypedClient.Text TypedClient.Proofs.FreshName
open TypedClient.Proofs.ModuleComments TypedClient.Proofs.DraftImports TypedClient.Proofs.DraftWork

structure Tidy (source : String) (d : Draft) : Prop where
  source : d.source = source
  declarations : d.declarations = []
  own : ∀ n, d.own = some n → IsIdentifier n
  imports : ∀ i ∈ d.imports.imports, Neat i

theorem tidy_empty (location source : String) : Tidy source { location, source } :=
  ⟨rfl, rfl, nofun, nofun⟩

section Specifiers

variable {s t : String}

theorem unbroken_relativeSpecifier (h : Unbroken t) : Unbroken (relativeSpecifier s t) := by
  have hnames : ∀ n ∈ names t, Unbroken n := fun n hn c hc =>
    h c (Pieces.mem_of_mem_pieces (List.mem_of_mem_filter hn) hc)
  have hrest : ∀ k, Unbroken ("/".intercalate ((names t).drop k)) := fun k =>
    unbroken_intercalate (by decide) fun n hn => hnames n (List.mem_of_mem_drop hn)
  have hup : ∀ k, Unbroken (copies k "../") := fun k => by
    refine unbroken_join fun s hs => ?_
    rw [List.eq_of_mem_replicate hs]
    decide
  unfold relativeSpecifier ascend
  dsimp only
  split
  · exact Unbroken.append (by decide) (hrest _)
  · exact (hup _).append (hrest _)

theorem unbroken_moduleSpecifier (d : Draft) (h : Unbroken t) : Unbroken (d.moduleSpecifier t) :=
  (unbroken_relativeSpecifier h).append (by decide)

theorem unbroken_externalSpecifier (d : Draft) (h : Unbroken t) :
    Unbroken (d.externalSpecifier t) := by
  unfold Draft.externalSpecifier
  split
  · rename_i inner hinner
    rw [Pieces.afterPrefix?_eq_some_iff] at hinner
    refine unbroken_moduleSpecifier d fun c hc => h c ?_
    rw [hinner, String.toList_append]
    exact List.mem_append_right _ hc
  · exact h

end Specifiers

variable {α β ε : Type} {P : α → Prop} {Q : β → Prop} {source : String} {d : Draft}

theorem Tidy.isIdentifier {n : String} (hd : Tidy source d) (hn : HeldNames.Known d n) :
    IsIdentifier n := by
  obtain hn | hn := hn
  · exact hd.own n hn
  · obtain ⟨i, hi, rfl⟩ := List.mem_map.mp hn
    exact (hd.imports i hi).binding

theorem freshName_isIdentifier (t : ImportTable) (s : String) : IsIdentifier (t.freshName s) :=
  (freshName_isNameFor t s).isIdentifier

theorem neat_add {t : ImportTable} {path suggested : String} {kind : ImportKind} {typeOnly : Bool}
    (ht : ∀ i ∈ t.imports, Neat i) (hpath : Unbroken path)
    (hkind : ∀ n, kind = .named n → IsIdentifier n) :
    IsIdentifier (t.add path kind suggested typeOnly).1 ∧
      ∀ i ∈ (t.add path kind suggested typeOnly).2.imports, Neat i := by
  rw [ImportTable.add]
  cases hfind : t.find? path kind with
  | some i =>
    refine ⟨(ht i (List.mem_of_find?_eq_some hfind)).binding, List.forall_mem_map.mpr fun j hj => ?_⟩
    split
    · exact ⟨(ht j hj).path, (ht j hj).binding, (ht j hj).exported⟩
    · exact ht j hj
  | none =>
    have hname := freshName_isIdentifier t suggested
    exact ⟨hname, List.forall_mem_append.mpr
      ⟨ht, List.forall_mem_singleton.mpr ⟨hpath, hname, hkind⟩⟩⟩

/-- Work that leaves a tidy draft tidy, with a result that has a property. -/
def Yields (source : String) (P : α → Prop) (m : Drafting α) : Prop :=
  ∀ d, Tidy source d → P (m.run d).1 ∧ Tidy source (m.run d).2

namespace Yields

theorem pure {a : α} (h : P a) : Yields source P (Pure.pure a : Drafting α) :=
  fun _ hd => ⟨h, hd⟩

theorem bind {m : Drafting α} {f : α → Drafting β} (hm : Yields source P m)
    (hf : ∀ a, P a → Yields source Q (f a)) : Yields source Q (m >>= f) :=
  fun d hd => hf _ (hm d hd).1 _ (hm d hd).2

theorem map {m : Drafting α} {f : α → β} (hm : Yields source P m) (hf : ∀ a, P a → Q (f a)) :
    Yields source Q (m >>= fun a => Pure.pure (f a)) :=
  hm.bind fun a ha => pure (hf a ha)

theorem forM {f : α → Drafting Unit} (hf : ∀ a, Yields source (fun _ => True) (f a)) (as : List α) :
    Yields source (fun _ => True) (as.forM f) := by
  induction as with
  | nil => exact pure trivial
  | cons a as ih => exact (hf a).bind fun _ _ => ih

theorem reserve (s : String) : Yields source IsIdentifier (Draft.reserve s) :=
  fun d hd => ⟨freshName_isIdentifier d.imports s, hd.source, hd.declarations, hd.own, hd.imports⟩

theorem bindOwn (s : String) : Yields source IsIdentifier (Draft.bindOwn s) := by
  refine (reserve s).bind fun name hname d hd =>
    ⟨hname, hd.source, hd.declarations, fun n hn => ?_, hd.imports⟩
  obtain rfl := Option.some.inj hn
  exact hname

theorem release (s : String) : Yields source (fun _ => True) (Draft.release s) := by
  refine fun d hd => ⟨trivial, hd.source, hd.declarations, hd.own, ?_⟩
  change ∀ i ∈ (d.imports.release s).imports, Neat i
  rw [HeldNames.Holds.release_imports]
  exact hd.imports

theorem namedImport {path name : String} (hpath : Unbroken path) (hname : IsIdentifier name)
    (typeOnly : Bool) : Yields source IsIdentifier (Draft.namedImport path name typeOnly) := by
  intro d hd
  have hkind : ∀ n, ImportKind.named name = .named n → IsIdentifier n := fun n hn =>
    ImportKind.named.inj hn ▸ hname
  obtain ⟨hbinding, himports⟩ := neat_add hd.imports hpath hkind
  exact ⟨hbinding, hd.source, hd.declarations, hd.own, himports⟩

theorem defaultImport {path : String} (hpath : Unbroken path) (name : String) (typeOnly : Bool) :
    Yields source IsIdentifier (Draft.defaultImport path name typeOnly) := by
  intro d hd
  have hkind : ∀ n, ImportKind.defaultExport = .named n → IsIdentifier n := nofun
  obtain ⟨hbinding, himports⟩ := neat_add hd.imports hpath hkind
  exact ⟨hbinding, hd.source, hd.declarations, hd.own, himports⟩

theorem importFrom {target : String} (ht : Unbroken target) (name : String) (typeOnly : Bool) :
    Yields source IsIdentifier (Draft.importFrom target name typeOnly) := by
  intro d hd
  obtain ⟨own, ho, -, hrun⟩ | ⟨-, hrun⟩ := importFrom_cases target name typeOnly d
  · rw [hrun]
    exact ⟨hd.own own ho, hd⟩
  · rw [hrun]
    exact defaultImport (unbroken_moduleSpecifier d ht) name typeOnly d hd

end Yields

/-- As `Yields`, for work that may fail; its result has the property where it does not. -/
def YieldsOk (source : String) (P : α → Prop) (m : ExceptT ε Drafting α) : Prop :=
  Yields source (fun r => ∀ a, r = .ok a → P a) m.run

namespace YieldsOk

theorem pure {a : α} (h : P a) : YieldsOk source P (Pure.pure a : ExceptT ε Drafting α) :=
  Yields.pure fun _ hb => Except.ok.inj hb ▸ h

theorem throw (e : ε) : YieldsOk source P (throw e : ExceptT ε Drafting α) :=
  Yields.pure nofun

theorem lift {m : Drafting α} (hm : Yields source P m) :
    YieldsOk source P (liftM m : ExceptT ε Drafting α) :=
  hm.map fun _ ha _ hb => Except.ok.inj hb ▸ ha

theorem bind {m : ExceptT ε Drafting α} {f : α → ExceptT ε Drafting β} (hm : YieldsOk source P m)
    (hf : ∀ a, P a → YieldsOk source Q (f a)) : YieldsOk source Q (m >>= f) := by
  have hrun : Yields source (fun r => ∀ b, r = .ok b → Q b) (m.run >>= ExceptT.bindCont f) := by
    refine Yields.bind hm fun r hr => ?_
    cases r with
    | ok a => exact hf a (hr a rfl)
    | error e => exact Yields.pure nofun
  exact hrun

theorem map {m : ExceptT ε Drafting α} {f : α → β} (hm : YieldsOk source P m)
    (hf : ∀ a, P a → Q (f a)) : YieldsOk source Q (m >>= fun a => Pure.pure (f a)) :=
  hm.bind fun a ha => pure (hf a ha)

theorem adapt {ε' : Type} {m : ExceptT ε Drafting α} (hm : YieldsOk source P m) (g : ε → ε') :
    YieldsOk source P (m.adapt g) := by
  refine Yields.map hm fun r hr a ha => ?_
  cases r with
  | ok b => exact hr a (congrArg Except.ok (Except.ok.inj ha))
  | error e => cases ha

end YieldsOk

end TypedClient.Proofs.TidyDrafts
