import TypedClient.Proofs.Module.DraftWork

namespace TypedClient.Proofs.HeldNames

open TypedClient.Module TypedClient.Proofs.FreshName TypedClient.Proofs.ImportRequests
open TypedClient.Proofs.DraftImports TypedClient.Proofs.DraftWork

variable {α : Type} {d e f : Draft} {names : List String} {n : String}

structure Holds (names : List String) (d : Draft) : Prop where
  reserved : ∃ es, Consistent es d.imports ∧ ∀ n ∈ names, Reserved es n
  nodup : names.Nodup

def bindings (d : Draft) : List String :=
  d.imports.imports.map Import.binding

/-- A name that stands for something in a module: an import or its own export. -/
def Known (d : Draft) (n : String) : Prop :=
  d.own = some n ∨ n ∈ bindings d

/-- A draft that has grown out of another one and binds all that was bound. -/
structure Extends (d e : Draft) : Prop where
  location : e.location = d.location
  own : e.own = d.own
  binds : ∀ path kind id, Binds d path kind id → Binds e path kind id

theorem mem_bindings_iff : n ∈ bindings d ↔ ∃ path kind, Binds d path kind n := by
  constructor
  · intro h
    obtain ⟨i, hi, hn⟩ := List.mem_map.mp h
    exact ⟨i.path, i.kind, i, hi, rfl, rfl, hn⟩
  · rintro ⟨path, kind, i, hi, -, -, rfl⟩
    exact List.mem_map_of_mem hi

namespace Extends

theorem of_imports_eq (hl : e.location = d.location) (ho : e.own = d.own)
    (hi : e.imports.imports = d.imports.imports) : Extends d e := by
  refine ⟨hl, ho, fun path kind id h => ?_⟩
  rw [Binds, hi]
  exact h

theorem of_grows (h : Grows d e) : Extends d e :=
  ⟨h.location, h.own, fun _ _ _ => h.binds⟩

theorem trans (h : Extends d e) (h' : Extends e f) : Extends d f :=
  ⟨h'.location.trans h.location, h'.own.trans h.own,
    fun path kind id hb => h'.binds path kind id (h.binds path kind id hb)⟩

theorem bindings_subset (h : Extends d e) : bindings d ⊆ bindings e := by
  intro n hn
  obtain ⟨path, kind, hb⟩ := mem_bindings_iff.mp hn
  exact mem_bindings_iff.mpr ⟨path, kind, h.binds path kind n hb⟩

theorem known (h : Extends d e) (hn : Known d n) : Known e n :=
  hn.imp (h.own.trans ·) (h.bindings_subset ·)

end Extends

theorem Known.grown (hn : Known d n) (h : Grows d e) : Known e n :=
  (Extends.of_grows h).known hn

theorem known_of_bindsValue {path : String} {kind : ImportKind} (h : BindsValue d path kind n) :
    Known d n :=
  .inr (List.mem_map.mpr ⟨_, h, rfl⟩)

theorem known_of_standsFor {target : String} (h : StandsFor d target n) : Known d n := by
  cases h with
  | own _ ho => exact .inl ho
  | imported _ hb => exact .inr (mem_bindings_iff.mpr ⟨_, _, hb⟩)

theorem isIdentifier_of_reserved {es : List Event} {t : ImportTable} (hes : Consistent es t)
    (hn : Reserved es n) : IsIdentifier n := by
  obtain ⟨before, s, after, rfl, -⟩ := hn
  exact (hes.names _ (List.mem_append_right _ List.mem_cons_self) n rfl).1

theorem isIdentifier_of_known (h : Founded d) (hn : Known d n) : IsIdentifier n := by
  obtain ⟨es, hes, hown⟩ := h
  obtain hn | hn := hn
  · exact isIdentifier_of_reserved hes (hown n hn)
  · obtain ⟨i, hi, rfl⟩ := List.mem_map.mp hn
    obtain ⟨e, he, -, hanswer⟩ := hes.requested i hi
    exact (hes.names e he _ hanswer).1

namespace Holds

theorem founded {own : String} (h : Holds names d) (ho : d.own = some own) (hown : own ∈ names) :
    Founded d := by
  obtain ⟨es, hes, hnames⟩ := h.reserved
  refine ⟨es, hes, fun m hm => ?_⟩
  obtain rfl := Option.some.inj (hm.symm.trans ho)
  exact hnames m hown

theorem isIdentifier (h : Holds names d) (hn : n ∈ names) : IsIdentifier n := by
  obtain ⟨es, hes, hnames⟩ := h.reserved
  exact isIdentifier_of_reserved hes (hnames n hn)

theorem apart (h : Holds names d) : (bindings d ++ names).Nodup := by
  obtain ⟨es, hes, hnames⟩ := h.reserved
  refine List.nodup_append.mpr ⟨hes.bindings, h.nodup, ?_⟩
  intro n hn m hm hnm
  obtain ⟨i, hi, rfl⟩ := List.mem_map.mp hn
  exact hes.not_reserved i hi (hnm ▸ hnames m hm)

theorem perm {names' : List String} (h : Holds names d) (hp : names.Perm names') :
    Holds names' d := by
  obtain ⟨es, hes, hnames⟩ := h.reserved
  exact ⟨⟨es, hes, fun n hn => hnames n (hp.mem_iff.mpr hn)⟩, hp.nodup_iff.mp h.nodup⟩

/-- A name that a draft knows is distinct from those that are held besides its own. -/
theorem ne_of_known {own m : String} {held : List String} (h : Holds (held ++ names) d)
    (ho : d.own = some own) (hown : own ∈ names) (hn : Known d n) (hm : m ∈ held) : n ≠ m := by
  obtain hn | hn := hn
  · obtain rfl := Option.some.inj (hn.symm.trans ho)
    exact fun hnm => (List.nodup_append.mp h.nodup).2.2 m hm n hown hnm.symm
  · exact (List.nodup_append.mp h.apart).2.2 n hn m (List.mem_append_left names hm)

theorem empty (location source : String) : Holds [] { location, source } :=
  ⟨⟨[], consistent_empty, by simp⟩, List.nodup_nil⟩

theorem reserve (h : Holds names d) (s : String) :
    ∃ n d', (Draft.reserve s).run d = (n, d') ∧ Holds (n :: names) d' ∧ Extends d d' := by
  obtain ⟨es, hes, hnames⟩ := h.reserved
  refine ⟨_, _, rfl, ⟨⟨_, hes.reserve s, ?_⟩, ?_⟩, Extends.of_imports_eq rfl rfl rfl⟩
  · refine List.forall_mem_cons.mpr ⟨(reserved_append _ _ _).mpr (.inl ⟨s, rfl⟩), fun m hm => ?_⟩
    exact (reserved_append _ _ _).mpr (.inr ⟨hnames m hm, nofun⟩)
  · refine List.nodup_cons.mpr ⟨fun hmem => ?_, h.nodup⟩
    have hused : d.imports.freshName s ∈ d.imports.taken :=
      (hes.taken _).mpr (.inl (hnames _ hmem))
    exact (freshName_isNameFor d.imports s).not_used hused

theorem bindOwn (h : Holds names d) (s : String) :
    ∃ n d', (Draft.bindOwn s).run d = (n, d') ∧ Holds (n :: names) d' ∧ d'.own = some n ∧
      d'.location = d.location ∧ d'.imports.imports = d.imports.imports := by
  obtain ⟨n, d', hrun, hheld, -⟩ := h.reserve s
  have himports : d'.imports.imports = d.imports.imports := by
    cases hrun
    rfl
  have hlocation : d'.location = d.location := by
    cases hrun
    rfl
  refine ⟨n, { d' with own := some n }, ?_, ⟨hheld.reserved, hheld.nodup⟩, rfl, hlocation, himports⟩
  rw [Draft.bindOwn, run_bind, hrun]
  rfl

theorem release_imports (t : ImportTable) (n : String) : (t.release n).imports = t.imports := by
  unfold ImportTable.release
  split <;> rfl

theorem release (h : Holds (n :: names) d) :
    Holds names ((Draft.release n).run d).2 ∧ Extends d ((Draft.release n).run d).2 ∧
      bindings ((Draft.release n).run d).2 = bindings d := by
  obtain ⟨es, hes, hnames⟩ := h.reserved
  obtain ⟨hn, hnodup⟩ := List.nodup_cons.mp h.nodup
  have himports : ((Draft.release n).run d).2.imports.imports = d.imports.imports :=
    release_imports d.imports n
  refine ⟨⟨⟨_, hes.release n, fun m hm => ?_⟩, hnodup⟩,
    Extends.of_imports_eq rfl rfl himports, congrArg (List.map Import.binding) himports⟩
  refine (reserved_append _ _ _).mpr (.inr ⟨hnames m (List.mem_cons_of_mem n hm), fun he => ?_⟩)
  exact hn (Request.release.inj he ▸ hm)

theorem releaseAll {as : List α} (name : α → String) (h : Holds (as.map name ++ names) d) :
    ∃ d', (as.forM fun a => Draft.release (name a)).run d = ((), d') ∧ Holds names d' ∧
      Extends d d' ∧ bindings d' = bindings d := by
  induction as generalizing d with
  | nil => exact ⟨d, rfl, h, Extends.of_imports_eq rfl rfl rfl, rfl⟩
  | cons a as ih =>
    obtain ⟨hholds, hextends, hsame⟩ := release h
    obtain ⟨d', hrun, hheld, hextends', hsame'⟩ := ih hholds
    exact ⟨d', hrun, hheld, hextends.trans hextends', hsame'.trans hsame⟩

theorem request (h : Holds names d) {r : Request} {p : String} {k : ImportKind}
    (hk : r.key? = some (p, k)) : Holds names { d with imports := (r.apply d.imports).2 } := by
  obtain ⟨es, hes, hnames⟩ := h.reserved
  refine ⟨⟨_, hes.step r, fun n hn => ?_⟩, h.nodup⟩
  exact (Consistent.reserved_append_import (e := ⟨r, _⟩) hk n).mpr (hnames n hn)

theorem work (h : Holds names d) {m : Drafting α} (hm : Work m) :
    ∃ a d', m.run d = (a, d') ∧ Holds names d' ∧ Extends d d' := by
  refine ⟨_, _, rfl, ?_, Extends.of_grows (hm.grows d)⟩
  refine hm.induct (R := fun d e => Holds names d → Holds names e) (fun _ => id)
    (fun hde hef h => hef (hde h)) (fun t s b d h => ?_) (fun p s b d h => ?_) d h
  · obtain ⟨own, -, -, hrun⟩ | ⟨-, hrun⟩ := importFrom_cases t s b d
    · rwa [hrun]
    · rw [hrun]
      exact h.request (r := .defaultImport (d.moduleSpecifier t) s b) rfl
  · exact h.request (r := .namedImport p s b) rfl

end Holds

end TypedClient.Proofs.HeldNames
