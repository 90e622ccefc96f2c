import Mathlib.Data.List.Perm.Basic
import TypedClient.Proofs.FileTree.Listing
import TypedClient.Proofs.Path.Joining
import TypedClient.Proofs.Routing.ViewNodes

namespace TypedClient.Routing

namespace Tree

mutual

def modules : Tree → List String
  | ⟨_, page, layout, children⟩ => layout.toList ++ page.toList ++ modulesOf children

def modulesOf : List Tree → List String
  | [] => []
  | t :: ts => modules t ++ modulesOf ts

end

end Tree

def DirEntry.modules (settings : Settings) (dir : String) : DirEntry → List String
  | file name => [Path.join dir name]
  | e => (e.tree? settings dir).toList.flatMap Tree.modules

end TypedClient.Routing

namespace TypedClient.Proofs.MountedViews

open TypedClient.FileTree TypedClient.Routing TypedClient.Routing.Collection
open TypedClient.Proofs.Listing TypedClient.Proofs.ViewNodes TypedClient.Proofs.Joining
open TypedClient.Proofs.Pieces TypedClient.Text

/-- The files below a directory that are in no private directory: the steps to the directory of the
file, its name and the entries beside it. -/
inductive Lies : List DirEntry → List String → String → List DirEntry → Prop
  | here {es : List DirEntry} {name : String} (h : .file name ∈ es) : Lies es [] name es
  | inside {es sub around : List DirEntry} {d name : String} {ds : List String}
      (h : .directory d sub ∈ es) (hd : isPrivate d = false) (hsub : Lies sub ds name around) :
      Lies es (d :: ds) name around

def HasPage (settings : Settings) (es : List DirEntry) : Prop :=
  ∃ ds name around r, Lies es ds name around ∧ fileRole? settings name = some r ∧ r ≠ .layout

/-- A view counts unless it is a layout without a page beside or below it. -/
def Counts (settings : Settings) (around : List DirEntry) (name : String) : Prop :=
  ∃ r, fileRole? settings name = some r ∧ (r = .layout → HasPage settings around)

def Mounted (settings : Settings) (dir : String) (es : List DirEntry) (p : String) : Prop :=
  ∃ ds name around, Lies es ds name around ∧ Counts settings around name ∧
    p = Path.join (ds.foldl Path.join dir) name

/-- A directory in which no two entries are the same thing and no page stands beside a directory of
its name that has an index page, and so in all directories below that are not private. -/
inductive Unambiguous (settings : Settings) : List DirEntry → Prop
  | intro {es : List DirEntry} (distinct : (es.filterMap (DirEntry.role? settings)).Nodup)
      (beside : ∀ d sub name, .directory d sub ∈ es →
        (DirEntry.directory d sub).role? settings = some (.directory name) →
        (∃ e ∈ es, e.role? settings = some (.page name)) →
        ∀ e ∈ sub, e.role? settings ≠ some .index)
      (below : ∀ d sub, .directory d sub ∈ es → isPrivate d = false → Unambiguous settings sub) :
      Unambiguous settings es

variable {t : FileTree} {n : Name} {es sub around : List DirEntry} {settings : Settings}
  {dir name p segment : String} {layout page : Option String} {children : List Tree}
  {e e' : DirEntry} {r : Role} {d : String} {ds : List String}

theorem modulesOf_eq (ts : List Tree) : Tree.modulesOf ts = ts.flatMap Tree.modules := by
  induction ts with
  | nil => rfl
  | cons t ts ih => rw [Tree.modulesOf, ih, List.flatMap_cons]

@[simp] theorem modules_leaf : (Tree.leaf segment p).modules = [p] := rfl

theorem modules_ofViews : (Tree.ofViews segment layout page children).modules =
    layout.toList ++ page.toList ++ children.flatMap Tree.modules := by
  cases layout <;> cases page <;> simp [Tree.ofViews, Tree.modules, Tree.modulesOf, modulesOf_eq]

theorem steps_of_lies (ht : WellNamed t) (h : Lists t n es) (hlies : Lies es ds name around) :
    ∀ s ∈ ds ++ [name], IsStep s := by
  induction hlies generalizing n with
  | here hmem => exact List.forall_mem_singleton.mpr (h.steps ht _ hmem)
  | inside hmem _ _ ih =>
    refine List.forall_mem_cons.mpr ⟨h.steps ht _ hmem, ?_⟩
    cases h with
    | intro _ _ _ _ below => exact ih (below _ _ hmem)

/-- In a directory without doubles the first entry that is something is the only one. -/
theorem entryOf?_eq_some_iff (h : (es.filterMap (DirEntry.role? settings)).Nodup) :
    entryOf? settings r es = some e ↔ e ∈ es ∧ e.role? settings = some r := by
  refine ⟨entryOf?_eq_some, ?_⟩
  induction es with
  | nil => exact fun h => absurd h.1 List.not_mem_nil
  | cons x xs ih =>
    rintro ⟨he, hr⟩
    rw [entryOf?, List.find?_cons]
    by_cases hx : x.role? settings = some r
    · have hnot : r ∉ xs.filterMap (DirEntry.role? settings) := by
        rw [List.filterMap_cons_some hx] at h
        exact (List.nodup_cons.mp h).1
      have hmem : e ∉ xs := fun hmem => hnot (List.mem_filterMap.mpr ⟨e, hmem, hr⟩)
      obtain rfl := (List.mem_cons.mp he).resolve_right hmem
      rw [decide_eq_true hx]
    · have hne : e ≠ x := fun heq => hx (heq ▸ hr)
      have hxs : (xs.filterMap (DirEntry.role? settings)).Nodup :=
        h.sublist ((List.sublist_cons_self x xs).filterMap _)
      rw [decide_eq_false hx]
      exact ih hxs ⟨(List.mem_cons.mp he).resolve_left hne, hr⟩

def rolesOf (names : List String) : List Role :=
  .layout :: .index :: names.flatMap fun m => [.page m, .directory m]

theorem nodup_rolesOf {names : List String} (h : names.Nodup) : (rolesOf names).Nodup := by
  have hnames : (names.flatMap fun m => [Role.page m, Role.directory m]).Nodup := by
    rw [List.nodup_flatMap]
    refine ⟨fun m _ => by simp, h.imp fun hne r hr hr' => ?_⟩
    simp only [List.mem_cons, List.not_mem_nil, or_false] at hr hr'
    obtain rfl | rfl := hr <;> simp [hne] at hr'
  simp [rolesOf, hnames]

/-- The entries that are something are the first entries for what they may be. -/
theorem perm_entries (settings : Settings) (dir : String) (hes : es.Nodup)
    (h : (es.filterMap (DirEntry.role? settings)).Nodup) :
    ((rolesOf (siblingNames settings dir es)).filterMap fun r => entryOf? settings r es).Perm
      (es.filter fun e => (e.role? settings).isSome) := by
  obtain ⟨hnodup, hmem, -⟩ := siblingNames_spec settings dir es
  refine (List.perm_ext_iff_of_nodup ?_ (hes.filter _)).mpr fun e => ?_
  · refine (nodup_rolesOf hnodup).filterMap fun r r' e hr hr' => ?_
    exact Option.some.inj ((entryOf?_eq_some hr).2.symm.trans (entryOf?_eq_some hr').2)
  · simp only [List.mem_filterMap, List.mem_filter, entryOf?_eq_some_iff h]
    constructor
    · rintro ⟨r, -, he, hr⟩
      exact ⟨he, hr ▸ rfl⟩
    · rintro ⟨he, hsome⟩
      obtain ⟨r, hr⟩ := Option.isSome_iff_exists.mp hsome
      refine ⟨r, ?_, he, hr⟩
      have hname : ∀ m, r.name? = some m → m ∈ siblingNames settings dir es := fun m hm =>
        (hmem m).mpr ⟨e, he, by rw [hr, Option.bind_some, hm]⟩
      cases r <;> simp_all [rolesOf, Role.name?]

def modulesFor (settings : Settings) (dir : String) (es : List DirEntry) (r : Role) : List String :=
  (entryOf? settings r es).toList.flatMap (DirEntry.modules settings dir)

theorem role?_file_of_ne (h : e.role? settings = some r) (hr : ∀ m, r ≠ .directory m) :
    ∃ f, e = .file f := by
  cases e with
  | file f => exact ⟨f, rfl⟩
  | directory d sub =>
    exfalso
    simp only [DirEntry.role?] at h
    split_ifs at h
    exact hr _ (Option.some.inj h).symm

theorem modulesFor_of_file (hr : ∀ m, r ≠ .directory m) :
    modulesFor settings dir es r = (pathOf? settings dir r es).toList := by
  rw [modulesFor, pathOf?]
  cases hfirst : entryOf? settings r es with
  | none => rfl
  | some e =>
    obtain ⟨f, rfl⟩ := role?_file_of_ne (entryOf?_eq_some hfirst).2 hr
    rfl

/-- What the child for a name brings: its page and what its directory brings. -/
theorem modules_childAt? (h : Unambiguous settings es) (m : String)
    (hsegments : ∀ d sub, .directory d sub ∈ es →
      ∀ c ∈ childrenOf settings (Path.join dir d) sub, c.segment ≠ "") :
    ((childAt? settings dir es m).toList.flatMap Tree.modules).Perm
      ([.page m, .directory m].flatMap (modulesFor settings dir es)) := by
  have hpage : modulesFor settings dir es (.page m) = (pathOf? settings dir (.page m) es).toList :=
    modulesFor_of_file (by simp)
  rw [List.flatMap_cons, List.flatMap_singleton, hpage, modulesFor]
  cases hfirst : entryOf? settings (.directory m) es with
  | none =>
    rw [childAt?, hfirst]
    cases pathOf? settings dir (.page m) es <;> exact .refl _
  | some e =>
    obtain ⟨he, hrole⟩ := entryOf?_eq_some hfirst
    obtain ⟨d, sub, rfl, -, hname⟩ := role?_directory_iff.mp hrole
    have hmodules : (some (DirEntry.directory d sub)).toList.flatMap (DirEntry.modules settings dir) =
        (ofItems? (Segment.normalize m) (items settings (Path.join dir d) sub)).toList.flatMap
          Tree.modules := by
      rw [Option.toList_some, List.flatMap_singleton, DirEntry.modules, DirEntry.tree?, hname]
      exact fun _ h => by cases h
    rw [hmodules, childAt?_of_directory hfirst (hsegments d sub he), ofItems?_items]
    split
    · cases pathOf? settings dir (.page m) es <;> exact .refl _
    · rw [Option.toList_some, Option.toList_some, List.flatMap_singleton, List.flatMap_singleton,
        modules_ofViews, modules_ofViews]
      cases hpath : pathOf? settings dir (.page m) es with
      | none =>
        rw [Option.or_none]
        exact .refl _
      | some path =>
        have hindex : pathOf? settings (Path.join dir d) .index sub = none := by
          obtain ⟨f, hf, -⟩ := Option.map_eq_some_iff.mp hpath
          cases h with
          | intro _ beside _ =>
            rw [pathOf?, Option.map_eq_none_iff, entryOf?, List.find?_eq_none]
            simpa using beside d sub m he hrole ⟨f, entryOf?_eq_some hf⟩
        rw [hindex, Option.none_or, Option.toList_none, List.append_nil, ← List.append_assoc]
        exact List.perm_append_comm.append_right _

theorem flatMap_modules_childrenOf (h : Unambiguous settings es)
    (hsegments : ∀ d sub, .directory d sub ∈ es →
      ∀ c ∈ childrenOf settings (Path.join dir d) sub, c.segment ≠ "") :
    ((childrenOf settings dir es).flatMap Tree.modules).Perm
      ((siblingNames settings dir es).flatMap fun m =>
        [.page m, .directory m].flatMap (modulesFor settings dir es)) := by
  have hflat : (childrenOf settings dir es).flatMap Tree.modules =
      (siblingNames settings dir es).flatMap fun m =>
        (childAt? settings dir es m).toList.flatMap Tree.modules := by
    rw [childrenOf, List.filterMap_eq_flatMap_toList, List.flatMap_assoc]
  rw [hflat]
  exact List.Perm.flatMap_left _ fun m _ => modules_childAt? h m hsegments

theorem modules_perm (h : Unambiguous settings es) (hes : es.Nodup)
    (hsegments : ∀ d sub, .directory d sub ∈ es →
      ∀ c ∈ childrenOf settings (Path.join dir d) sub, c.segment ≠ "") :
    (Tree.ofViews segment (pathOf? settings dir .layout es) (pathOf? settings dir .index es)
      (childrenOf settings dir es)).modules.Perm
      ((es.filter fun e => (e.role? settings).isSome).flatMap (DirEntry.modules settings dir)) := by
  have hdistinct : (es.filterMap (DirEntry.role? settings)).Nodup := by
    cases h with
    | intro distinct _ _ => exact distinct
  have hroles : ((rolesOf (siblingNames settings dir es)).filterMap fun r =>
      entryOf? settings r es).flatMap (DirEntry.modules settings dir) =
      (rolesOf (siblingNames settings dir es)).flatMap (modulesFor settings dir es) := by
    rw [List.filterMap_eq_flatMap_toList, List.flatMap_assoc]
    rfl
  refine List.Perm.trans ?_ ((perm_entries settings dir hes hdistinct).flatMap_right _)
  rw [hroles, modules_ofViews, rolesOf, List.flatMap_cons, List.flatMap_cons, List.flatMap_assoc,
    modulesFor_of_file (by simp), modulesFor_of_file (by simp), ← List.append_assoc]
  exact (flatMap_modules_childrenOf h hsegments).append_left _

theorem HasPage.of_lies (hlies : Lies es ds name around) (h : HasPage settings around) :
    HasPage settings es := by
  induction hlies with
  | here => exact h
  | inside hmem hd _ ih =>
    obtain ⟨ds', name', around', r, hlies', hr⟩ := ih h
    exact ⟨_, name', around', r, .inside hmem hd hlies', hr⟩

theorem role?_directory (hd : isPrivate d = false) : (DirEntry.directory d sub).role? settings =
    some (.directory (Segment.splitOrder d).2) := by
  rw [DirEntry.role?, hd, if_neg Bool.false_ne_true]

/-- There is a page in a directory or below if it is in the directory itself or in or below one of
its directories. -/
theorem hasPage_iff : HasPage settings es ↔
    (∃ e ∈ es, e.role? settings = some .index) ∨ (∃ m, ∃ e ∈ es, e.role? settings = some (.page m)) ∨
      ∃ d sub, .directory d sub ∈ es ∧ isPrivate d = false ∧ HasPage settings sub := by
  constructor
  · rintro ⟨ds, name, around, r, hlies, hr, hne⟩
    cases hlies with
    | here hmem =>
      cases r with
      | layout => exact absurd rfl hne
      | index => exact .inl ⟨_, hmem, hr⟩
      | page m => exact .inr (.inl ⟨m, _, hmem, hr⟩)
      | directory m =>
        have hdirectory : (DirEntry.file name).role? settings = some (.directory m) := hr
        obtain ⟨_, _, ⟨⟩, -⟩ := role?_directory_iff.mp hdirectory
    | inside hmem hd hsub => exact .inr (.inr ⟨_, _, hmem, hd, _, name, around, r, hsub, hr, hne⟩)
  · have hfile : ∀ {e r}, e ∈ es → e.role? settings = some r → (∀ m, r ≠ .directory m) →
        r ≠ .layout → HasPage settings es := by
      intro e r he hr hdir hne
      obtain ⟨f, rfl⟩ := role?_file_of_ne hr hdir
      exact ⟨[], f, es, r, .here he, hr, hne⟩
    rintro (⟨e, he, hr⟩ | ⟨m, e, he, hr⟩ | ⟨d, sub, hmem, hd, ds, name, around, r, hlies, hr⟩)
    · exact hfile he hr (by simp) (by simp)
    · exact hfile he hr (by simp) (by simp)
    · exact ⟨d :: ds, name, around, r, .inside hmem hd hlies, hr⟩

theorem isSome_pathOf?_iff :
    (pathOf? settings dir r es).isSome ↔ ∃ e ∈ es, e.role? settings = some r := by
  rw [pathOf?, Option.isSome_map, entryOf?, List.find?_isSome]
  simp

theorem isSome_childAt?_iff (m : String) : (childAt? settings dir es m).isSome ↔
    (pathOf? settings dir (.page m) es).isSome ∨
      ∃ e, entryOf? settings (.directory m) es = some e ∧ (e.tree? settings dir).isSome := by
  unfold childAt?
  cases entryOf? settings (.directory m) es <;>
    cases pathOf? settings dir (.page m) es <;> simp

theorem mem_siblingNames {m : String} (hm : (childAt? settings dir es m).isSome) :
    m ∈ siblingNames settings dir es := by
  refine ((siblingNames_spec settings dir es).2.1 m).mpr ?_
  obtain hpage | ⟨e, hfirst, -⟩ := (isSome_childAt?_iff m).mp hm
  · obtain ⟨e, he, hr⟩ := isSome_pathOf?_iff.mp hpage
    exact ⟨e, he, by rw [hr]; rfl⟩
  · obtain ⟨he, hr⟩ := entryOf?_eq_some hfirst
    exact ⟨e, he, by rw [hr]; rfl⟩

theorem mem_childrenOf_iff {c : Tree} :
    c ∈ childrenOf settings dir es ↔ ∃ m, childAt? settings dir es m = some c := by
  rw [childrenOf, List.mem_filterMap]
  exact exists_congr fun m => and_iff_right_of_imp fun hc => mem_siblingNames (by rw [hc]; rfl)

theorem childrenOf_ne_nil_iff :
    childrenOf settings dir es ≠ [] ↔ ∃ m, (childAt? settings dir es m).isSome := by
  rw [ne_eq, List.eq_nil_iff_forall_not_mem]
  push Not
  simp only [mem_childrenOf_iff, Option.isSome_iff_exists]
  exact exists_comm

theorem isSome_ofItems?_items : (ofItems? segment (items settings dir es)).isSome ↔
    (pathOf? settings dir .index es).isSome ∨ childrenOf settings dir es ≠ [] := by
  rw [ofItems?_items]
  cases pathOf? settings dir .index es <;> cases childrenOf settings dir es <;> simp

theorem isPrivate_of_role? (h : ((DirEntry.directory d sub).role? settings).isSome) :
    isPrivate d = false := by
  rw [Bool.eq_false_iff]
  intro hd
  rw [DirEntry.role?, if_pos hd] at h
  cases h

/-- A directory has a tree just when there is a page in it or below, by induction on the listing. -/
theorem isSome_ofItems?_iff (h : Lists t n es) (hun : Unambiguous settings es) (segment dir : String) :
    (ofItems? segment (items settings dir es)).isSome ↔ HasPage settings es := by
  induction h generalizing segment dir with
  | @intro n es _ _ _ _ _ ih =>
    cases hun with
    | intro distinct beside below =>
      have hdirectory : (∃ m e, entryOf? settings (.directory m) es = some e ∧
          (e.tree? settings dir).isSome) ↔
          ∃ d sub, .directory d sub ∈ es ∧ isPrivate d = false ∧ HasPage settings sub := by
        simp only [entryOf?_eq_some_iff distinct]
        constructor
        · rintro ⟨m, e, ⟨he, hr⟩, htree⟩
          obtain ⟨d, sub, rfl, hd, -⟩ := role?_directory_iff.mp hr
          exact ⟨d, sub, he, hd, (ih d sub he (below d sub he hd) _ _).mp htree⟩
        · rintro ⟨d, sub, he, hd, hpage⟩
          exact ⟨_, _, ⟨he, role?_directory hd⟩, (ih d sub he (below d sub he hd) _ _).mpr hpage⟩
      rw [isSome_ofItems?_items, childrenOf_ne_nil_iff, hasPage_iff, ← hdirectory, isSome_pathOf?_iff]
      simp only [isSome_childAt?_iff, isSome_pathOf?_iff, exists_or]

structure Mounts (settings : Settings) (dir : String) (es : List DirEntry) (ps : List String) :
    Prop where
  nodup : ps.Nodup
  mem : ∀ p, p ∈ ps ↔ Mounted settings dir es p

theorem not_mounted (hpage : ¬ HasPage settings es) (p : String) : ¬ Mounted settings dir es p := by
  rintro ⟨ds, name, around, hlies, ⟨r, hr, hlayout⟩, -⟩
  by_cases hne : r = .layout
  · exact hpage ((hlayout hne).of_lies hlies)
  · exact hpage ⟨ds, name, around, r, hlies, hr, hne⟩

/-- What an entry brings, given what directories bring: paths that lead through its name. -/
theorem modules_of_entry (ht : WellNamed t) (h : Lists t n es)
    (hsub : ∀ d sub, .directory d sub ∈ es → isPrivate d = false →
      Mounts settings (Path.join dir d) sub ((DirEntry.directory d sub).modules settings dir))
    (he : e ∈ es) (hrole : (e.role? settings).isSome) :
    (e.modules settings dir).Nodup ∧ ∀ p ∈ e.modules settings dir, ∃ steps,
      (∀ s ∈ e.name :: steps, IsStep s) ∧ p = (e.name :: steps).foldl Path.join dir := by
  have hstep := h.steps ht e he
  cases e with
  | file f =>
    refine ⟨List.nodup_singleton _, fun p hp => ⟨[], List.forall_mem_singleton.mpr hstep, ?_⟩⟩
    exact List.mem_singleton.mp hp
  | directory d sub =>
    have hd := isPrivate_of_role? hrole
    obtain ⟨hnodup, hmem⟩ := hsub d sub he hd
    refine ⟨hnodup, fun p hp => ?_⟩
    obtain ⟨ds, name, around, hlies, -, rfl⟩ := (hmem p).mp hp
    cases h with
    | intro _ _ _ _ below =>
      refine ⟨ds ++ [name], List.forall_mem_cons.mpr ⟨hstep, ?_⟩, ?_⟩
      · exact steps_of_lies ht (below d sub he) hlies
      · rw [List.foldl_cons, List.foldl_append]
        rfl

theorem names_apart (h : Lists t n es) : es.Pairwise fun e e' => e.name ≠ e'.name := by
  cases h with
  | intro sorted _ _ _ _ =>
    refine (List.pairwise_map.mp sorted).imp fun h heq => ?_
    rw [heq] at h
    exact String.lt_irrefl _ h

/-- The entries of a directory with a page in it or below bring each view that counts once, given that
its directories do. -/
theorem mounts_entries (ht : WellNamed t) (h : Lists t n es) (hpage : HasPage settings es)
    (hsub : ∀ d sub, .directory d sub ∈ es → isPrivate d = false →
      Mounts settings (Path.join dir d) sub ((DirEntry.directory d sub).modules settings dir)) :
    Mounts settings dir es
      ((es.filter fun e => (e.role? settings).isSome).flatMap (DirEntry.modules settings dir)) := by
  refine ⟨List.nodup_flatMap.mpr ⟨fun e he => ?_, ?_⟩, fun p => ?_⟩
  · obtain ⟨he, hrole⟩ := List.mem_filter.mp he
    exact (modules_of_entry ht h hsub he hrole).1
  · -- paths through entries of different names differ in the first step
    refine ((names_apart h).filter _).imp_of_mem fun he he' hne p hp hp' => hne ?_
    obtain ⟨he, hrole⟩ := List.mem_filter.mp he
    obtain ⟨he', hrole'⟩ := List.mem_filter.mp he'
    obtain ⟨steps, hsteps, hp⟩ := (modules_of_entry ht h hsub he hrole).2 p hp
    obtain ⟨steps', hsteps', hp'⟩ := (modules_of_entry ht h hsub he' hrole').2 p hp'
    exact (foldl_join_inj hsteps hsteps' (hp.symm.trans hp')).1
  · rw [List.mem_flatMap]
    constructor
    · rintro ⟨e, he, hp⟩
      obtain ⟨he, hrole⟩ := List.mem_filter.mp he
      cases e with
      | file f =>
        obtain rfl := List.mem_singleton.mp hp
        obtain ⟨r, hr⟩ := Option.isSome_iff_exists.mp hrole
        exact ⟨[], f, es, .here he, ⟨r, hr, fun _ => hpage⟩, rfl⟩
      | directory d sub =>
        have hd := isPrivate_of_role? hrole
        obtain ⟨ds, name, around, hlies, hcounts, rfl⟩ := ((hsub d sub he hd).mem p).mp hp
        exact ⟨d :: ds, name, around, .inside he hd hlies, hcounts, rfl⟩
    · rintro ⟨ds, name, around, hlies, hcounts, rfl⟩
      cases hlies with
      | here hmem =>
        obtain ⟨r, hr, -⟩ := hcounts
        exact ⟨.file name, List.mem_filter.mpr ⟨hmem, Option.isSome_iff_exists.mpr ⟨r, hr⟩⟩,
          List.mem_singleton_self _⟩
      | @inside _ sub _ d _ ds hmem hd hinside =>
        refine ⟨.directory d sub, List.mem_filter.mpr ⟨hmem, by rw [role?_directory hd]; rfl⟩, ?_⟩
        exact ((hsub d sub hmem hd).mem _).mpr ⟨ds, name, _, hinside, hcounts, rfl⟩

/-- What a directory brings to a tree: each view below it that counts, once. By induction on the
listing. -/
theorem mounts_modules (ht : WellNamed t) (h : Lists t n es) (hun : Unambiguous settings es)
    (segment dir : String) :
    Mounts settings dir es
      ((ofItems? segment (items settings dir es)).toList.flatMap Tree.modules) := by
  induction h generalizing segment dir with
  | @intro n es sorted complete files directories listed ih =>
    have hes : Lists t n es := .intro sorted complete files directories listed
    have hpage := isSome_ofItems?_iff hes hun segment dir
    cases htree : ofItems? segment (items settings dir es) with
    | none =>
      have hnone : ¬ HasPage settings es := by
        rw [← hpage, htree]
        simp
      exact ⟨List.nodup_nil, fun p => ⟨fun h => absurd h List.not_mem_nil,
        fun h => absurd h (not_mounted hnone p)⟩⟩
    | some tree =>
      have hsub : ∀ d sub, .directory d sub ∈ es → isPrivate d = false →
          Mounts settings (Path.join dir d) sub ((DirEntry.directory d sub).modules settings dir) := by
        intro d sub he hd
        cases hun with
        | intro _ _ below => exact ih d sub he (below d sub he hd) _ _
      have hsegments : ∀ d sub, .directory d sub ∈ es →
          ∀ c ∈ childrenOf settings (Path.join dir d) sub, c.segment ≠ "" := fun d sub he c hc =>
        segment_ne_empty (fun e he' => ((listed d sub he).steps ht e he').1) hc
      have hnodup : es.Nodup := (names_apart hes).imp fun h heq => h (congrArg DirEntry.name heq)
      have hperm : tree.modules.Perm
          ((es.filter fun e => (e.role? settings).isSome).flatMap (DirEntry.modules settings dir)) := by
        rw [ofItems?_items, Option.ite_none_left_eq_some] at htree
        rw [← Option.some.inj htree.2]
        exact modules_perm hun hnodup hsegments
      have hviews : HasPage settings es := hpage.mp (by rw [htree]; rfl)
      obtain ⟨hapart, hmem⟩ := mounts_entries ht hes hviews hsub
      rw [Option.toList_some, List.flatMap_singleton]
      exact ⟨hperm.nodup_iff.mpr hapart, fun p => hperm.mem_iff.trans (hmem p)⟩

/-- Where no two entries of a directory are the same thing, the tree collected from it has each view
below it once, save those in private directories and layouts with no page in or below their
directory, and it has no other file. -/
theorem collect_mounts (ht : WellNamed t) (hdir : t.locate true dir = .found n .directory)
    (hes : Lists t n es) (hun : Unambiguous settings es) :
    ∃ tree, Tree.collect t settings dir = .ok tree ∧ tree.modules.Nodup ∧
      ∀ p, p ∈ tree.modules ↔ ∃ ds name around, Lies es ds name around ∧
        Counts settings around name ∧ p = Path.join (ds.foldl Path.join dir) name := by
  obtain ⟨es', hes', hcollect⟩ := exists_lists ht hdir
  obtain rfl := hes.unique hes'
  obtain ⟨hnodup, hmem⟩ := mounts_modules ht hes hun "" dir
  have hmodules : (Tree.ofEntries settings dir es).modules =
      (ofItems? "" (items settings dir es)).toList.flatMap Tree.modules := by
    rw [Tree.ofEntries]
    cases ofItems? "" (items settings dir es) with
    | none => rfl
    | some tree => exact (List.flatMap_singleton _ _).symm
  exact ⟨_, hcollect settings, hmodules ▸ hnodup, hmodules ▸ hmem⟩

/-- A page beside a directory of its name that has a layout alone, and a private page. -/
def aboutViews : FileTree :=
  ⟨[], [(["views"], .directory), (["views", "_draft.tsx"], .file (.text "")),
    (["views", "about"], .directory), (["views", "about", "layout.tsx"], .file (.text "")),
    (["views", "about.tsx"], .file (.text ""))]⟩

def aboutEntries : List DirEntry :=
  [.file "_draft.tsx", .directory "about" [.file "layout.tsx"], .file "about.tsx"]

theorem lists_aboutViews : Lists aboutViews ["views"] aboutEntries := by
  have hsub : Lists aboutViews ["views", "about"] [.file "layout.tsx"] := by
    refine .intro (by decide) (fun s => ?_) (fun s hs => ?_) ?_ ?_
    · simpa [aboutViews, DirEntry.name] using eq_comm
    · simp only [List.mem_singleton, DirEntry.file.injEq] at hs
      subst hs
      decide
    · simp
    · simp
  refine .intro (by decide) (fun s => ?_) (fun s hs => ?_) (fun s sub hs => ?_) fun s sub hs => ?_
  · simp [aboutViews, aboutEntries, DirEntry.name, @eq_comm _ s]
  · simp only [aboutEntries, List.mem_cons, DirEntry.file.injEq, reduceCtorEq, List.not_mem_nil,
      or_false, false_or] at hs
    obtain rfl | rfl := hs <;> decide
  · simp only [aboutEntries, List.mem_cons, DirEntry.directory.injEq, reduceCtorEq,
      List.not_mem_nil, or_false, false_or] at hs
    obtain ⟨rfl, rfl⟩ := hs
    decide
  · simp only [aboutEntries, List.mem_cons, DirEntry.directory.injEq, reduceCtorEq,
      List.not_mem_nil, or_false, false_or] at hs
    obtain ⟨rfl, rfl⟩ := hs
    exact hsub

theorem unambiguous_aboutEntries : Unambiguous {} aboutEntries := by
  have hsub : Unambiguous {} [.file "layout.tsx"] :=
    .intro (by decide) (by simp) (by simp)
  refine .intro (by decide) ?_ ?_
  · intro d sub name hmem _ _ e he
    simp only [aboutEntries, List.mem_cons, DirEntry.directory.injEq, reduceCtorEq,
      List.not_mem_nil, or_false, false_or] at hmem
    obtain ⟨rfl, rfl⟩ := hmem
    obtain rfl := List.mem_singleton.mp he
    decide
  · intro d sub hmem _
    simp only [aboutEntries, List.mem_cons, DirEntry.directory.injEq, reduceCtorEq,
      List.not_mem_nil, or_false, false_or] at hmem
    obtain ⟨rfl, rfl⟩ := hmem
    exact hsub

theorem collect_mounts_about : WellNamed aboutViews ∧
    aboutViews.locate true "views" = .found ["views"] .directory ∧
    Lists aboutViews ["views"] aboutEntries ∧ Unambiguous {} aboutEntries ∧
    ∃ tree, Tree.collect aboutViews {} "views" = .ok tree ∧ tree.modules.Nodup ∧
      ∀ p, p ∈ tree.modules ↔ ∃ ds name around, Lies aboutEntries ds name around ∧
        Counts {} around name ∧ p = Path.join (ds.foldl Path.join "views") name := by
  have ht : WellNamed aboutViews := by decide
  have hdir : aboutViews.locate true "views" = .found ["views"] .directory := by decide
  exact ⟨ht, hdir, lists_aboutViews, unambiguous_aboutEntries,
    collect_mounts ht hdir lists_aboutViews unambiguous_aboutEntries⟩

end TypedClient.Proofs.MountedViews
