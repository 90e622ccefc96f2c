import TypedClient.Proofs.FileTree.Listing
import TypedClient.Proofs.Routing.ViewNodes

namespace TypedClient.Proofs.CollectedTrees

open TypedClient.FileTree TypedClient.Routing TypedClient.Routing.Collection
open TypedClient.Proofs.Candidates TypedClient.Proofs.Listing TypedClient.Proofs.ViewNodes
open TypedClient.Proofs.ViewEntries

/-- A tree in which a node below the root has a page or children, no node has both a page and a
layout, and only the page that is the first child of a node with a layout has an empty segment. -/
inductive Regular : Tree → Prop
  | intro {t : Tree} (single : t.page = none ∨ t.layout = none)
      (filled : ∀ c ∈ t.children, c.page ≠ none ∨ c.children ≠ [])
      (named : ∀ i c, t.children[i]? = some c → c.segment = "" →
        i = 0 ∧ t.layout ≠ none ∧ ∃ page, c = Tree.leaf "" page)
      (below : ∀ c ∈ t.children, Regular c) : Regular t

mutual

/-- What the tree of the directory `dir` with the file `beside` it is made of. Its page is the index
page or else that file; with a layout it is the first child. The other children stand in the order
of siblings. -/
inductive Arranged (settings : Settings) :
    String → List DirEntry → Option String → Tree → Prop
  | intro {dir segment : String} {es : List DirEntry} {beside layout : Option String}
      (children : List (String × Tree))
      (sorted : (children.map Prod.fst).Pairwise (Before (rank settings es)))
      (named : ∀ c ∈ children, c.2.segment = Segment.normalize c.1 ∧ c.2.segment ≠ "")
      (below : ∀ c ∈ children, ArrangedChild settings dir es c.1 c.2) :
      Arranged settings dir es beside
        (Tree.ofViews segment layout ((pathOf? settings dir .index es).or beside)
          (children.map Prod.snd))

/-- What the child for a name is: a page, or the tree of a directory with the page beside it. -/
inductive ArrangedChild (settings : Settings) :
    String → List DirEntry → String → Tree → Prop
  | page {dir name path : String} {es : List DirEntry}
      (alone : entryOf? settings (.directory name) es = none)
      (first : pathOf? settings dir (.page name) es = some path) :
      ArrangedChild settings dir es name (Tree.leaf (Segment.normalize name) path)
  | directory {dir name d : String} {es sub : List DirEntry} {c : Tree}
      (first : entryOf? settings (.directory name) es = some (.directory d sub))
      (arranged : Arranged settings (Path.join dir d) sub (pathOf? settings dir (.page name) es) c) :
      ArrangedChild settings dir es name c

end

structure Child (settings : Settings) (dir : String) (es : List DirEntry) (name : String) (c : Tree) :
    Prop where
  regular : Regular c
  filled : c.page ≠ none ∨ c.children ≠ []
  arranged : ArrangedChild settings dir es name c

variable {t : FileTree} {n : Name} {es : List DirEntry} {settings : Settings}
  {dir name segment path : String} {layout page beside : Option String} {children : List Tree} {c : Tree}

theorem regular_leaf : Regular (Tree.leaf segment path) :=
  .intro (.inr rfl) (fun _ h => absurd h List.not_mem_nil) (fun _ _ h => by cases h)
    (fun _ h => absurd h List.not_mem_nil)

theorem regular_ofViews (hregular : ∀ c ∈ children, Regular c)
    (hfilled : ∀ c ∈ children, c.page ≠ none ∨ c.children ≠ [])
    (hsegments : ∀ c ∈ children, c.segment ≠ "") :
    Regular (Tree.ofViews segment layout page children) := by
  have hmem : ∀ c ∈ (Tree.ofViews segment layout page children).children,
      (∃ path, c = Tree.leaf "" path) ∨ c ∈ children := by
    intro c hc
    rw [children_ofViews, List.mem_append] at hc
    refine hc.imp_left fun hc => ?_
    split at hc
    · obtain ⟨path, -, rfl⟩ := Option.map_eq_some_iff.mp (Option.mem_toList.mp hc)
      exact ⟨path, rfl⟩
    · cases hc
  refine .intro ?_ (fun c hc => ?_) (fun i c hi hc => ?_) (fun c hc => ?_)
  · rw [page_ofViews, layout_ofViews]
    cases layout
    · exact .inr rfl
    · exact .inl rfl
  · obtain ⟨path, rfl⟩ | hc := hmem c hc
    · exact .inl (Option.some_ne_none _)
    · exact hfilled c hc
  · have hnot : c ∉ children := fun hmem => hsegments c hmem hc
    rw [children_ofViews] at hi
    split at hi
    · rename_i hlayout
      cases page with
      | none => exact absurd (List.mem_of_getElem? hi) hnot
      | some path =>
        cases i with
        | zero =>
          rw [layout_ofViews]
          exact ⟨rfl, Option.isSome_iff_ne_none.mp hlayout, path, (Option.some.inj hi).symm⟩
        | succ i =>
          have htail : children[i]? = some c := hi
          exact absurd (List.mem_of_getElem? htail) hnot
    · exact absurd (List.mem_of_getElem? hi) hnot
  · obtain ⟨path, rfl⟩ | hc := hmem c hc
    · exact regular_leaf
    · exact hregular c hc

theorem filled_ofViews (h : ¬ (page.isNone && children.isEmpty) = true) :
    (Tree.ofViews segment layout page children).page ≠ none ∨
      (Tree.ofViews segment layout page children).children ≠ [] := by
  cases layout <;> cases page <;> cases children <;> simp_all [Tree.ofViews]

def namedChildren (settings : Settings) (dir : String) (es : List DirEntry) : List (String × Tree) :=
  (siblingNames settings dir es).filterMap fun m => (childAt? settings dir es m).map fun c => (m, c)

theorem mem_namedChildren {x : String × Tree} (hx : x ∈ namedChildren settings dir es) :
    x.1 ∈ siblingNames settings dir es ∧ childAt? settings dir es x.1 = some x.2 := by
  obtain ⟨m, hm, hx⟩ := List.mem_filterMap.mp hx
  obtain ⟨c, hc, rfl⟩ := Option.map_eq_some_iff.mp hx
  exact ⟨hm, hc⟩

theorem snd_namedChildren (settings : Settings) (dir : String) (es : List DirEntry) :
    (namedChildren settings dir es).map Prod.snd = childrenOf settings dir es := by
  rw [namedChildren, List.map_filterMap, childrenOf]
  refine List.filterMap_congr fun m _ => ?_
  rw [Option.map_map]
  exact Option.map_id'

theorem fst_namedChildren (settings : Settings) (dir : String) (es : List DirEntry) :
    ((namedChildren settings dir es).map Prod.fst).Sublist (siblingNames settings dir es) := by
  rw [namedChildren, List.map_filterMap]
  generalize siblingNames settings dir es = names
  induction names with
  | nil => exact .slnil
  | cons m names ih =>
    cases hc : childAt? settings dir es m with
    | none => simpa [hc] using ih.cons m
    | some c => simpa [hc] using ih

theorem arranged_pruned (hindex : (pathOf? settings dir .index es).isNone = true) :
    Arranged settings dir es beside (Tree.ofViews segment none beside []) := by
  have h : Arranged settings dir es beside (Tree.ofViews segment none
      ((pathOf? settings dir .index es).or beside) (([] : List (String × Tree)).map Prod.snd)) :=
    .intro [] .nil (fun _ h => absurd h List.not_mem_nil) fun _ h => absurd h List.not_mem_nil
  rwa [Option.isNone_iff_eq_none.mp hindex] at h

theorem arranged_ofViews (hsegments : ∀ c ∈ childrenOf settings dir es, c.segment ≠ "")
    (hchild : ∀ m c, childAt? settings dir es m = some c → Child settings dir es m c) :
    Regular (Tree.ofViews segment layout ((pathOf? settings dir .index es).or beside)
        (childrenOf settings dir es)) ∧
      Arranged settings dir es beside
        (Tree.ofViews segment layout ((pathOf? settings dir .index es).or beside)
          (childrenOf settings dir es)) := by
  have hall : ∀ c ∈ childrenOf settings dir es, ∃ m, Child settings dir es m c := by
    intro c hc
    obtain ⟨m, -, hc⟩ := List.mem_filterMap.mp hc
    exact ⟨m, hchild m c hc⟩
  constructor
  · refine regular_ofViews (fun c hc => ?_) (fun c hc => ?_) hsegments
    · obtain ⟨m, hc⟩ := hall c hc
      exact hc.regular
    · obtain ⟨m, hc⟩ := hall c hc
      exact hc.filled
  · rw [← snd_namedChildren]
    refine .intro _ ?_ (fun x hx => ?_) (fun x hx => ?_)
    · exact (siblingNames_spec settings dir es).2.2.sublist (fst_namedChildren settings dir es)
    · have hmem := List.mem_map_of_mem (f := Prod.snd) hx
      rw [snd_namedChildren] at hmem
      exact ⟨segment_childAt? (mem_namedChildren hx).2, hsegments _ hmem⟩
    · exact (hchild _ _ (mem_namedChildren hx).2).arranged

/-- Below a directory with a listing every child is well formed, by induction on the listing. -/
theorem child_of_lists (ht : WellNamed t) (h : Lists t n es) (dir : String)
    (hc : childAt? settings dir es name = some c) : Child settings dir es name c := by
  induction h generalizing dir name c with
  | @intro n es sorted complete files directories below ih =>
    cases hfirst : entryOf? settings (.directory name) es with
    | none =>
      rw [childAt?, hfirst] at hc
      obtain ⟨path, hpath, rfl⟩ := Option.map_eq_some_iff.mp hc
      exact ⟨regular_leaf, .inl (Option.some_ne_none _), .page hfirst hpath⟩
    | some e =>
      obtain ⟨he, hrole⟩ := entryOf?_eq_some hfirst
      obtain ⟨d, sub, rfl, -, -⟩ := role?_directory_iff.mp hrole
      have hsub := below d sub he
      have hsegments : ∀ c ∈ childrenOf settings (Path.join dir d) sub, c.segment ≠ "" :=
        fun c hc => segment_ne_empty (fun e he => (hsub.steps ht e he).1) hc
      rw [childAt?_of_directory hfirst hsegments] at hc
      split at hc
      · -- nothing in the directory has views
        rename_i hempty
        obtain ⟨hindex, hchildren⟩ := Bool.and_eq_true_iff.mp hempty
        obtain ⟨path, hpath, rfl⟩ := Option.map_eq_some_iff.mp hc
        have harranged : Arranged settings (Path.join dir d) sub (some path)
            (Tree.leaf (Segment.normalize name) path) := arranged_pruned hindex
        exact ⟨regular_leaf, .inl (Option.some_ne_none _), .directory hfirst (hpath ▸ harranged)⟩
      · rename_i hfilled
        rw [← Option.some.inj hc]
        obtain ⟨hregular, harranged⟩ := arranged_ofViews hsegments
          fun m c hc => ih d sub he (Path.join dir d) hc
        refine ⟨hregular, filled_ofViews fun h => hfilled ?_, .directory hfirst harranged⟩
        obtain ⟨hpage, hchildren⟩ := Bool.and_eq_true_iff.mp h
        rw [Option.isNone_iff_eq_none, Option.or_eq_none_iff] at hpage
        exact Bool.and_eq_true_iff.mpr ⟨Option.isNone_iff_eq_none.mpr hpage.1, hchildren⟩

/-- The tree of views in a directory is well formed, and it is made of the listing of that
directory. -/
theorem collect_regular (ht : WellNamed t) (hdir : t.locate true dir = .found n .directory)
    (settings : Settings) : ∃ es tree, Lists t n es ∧ Tree.collect t settings dir = .ok tree ∧
      tree.segment = "" ∧ Regular tree ∧ Arranged settings dir es none tree := by
  obtain ⟨es, hes, hcollect⟩ := exists_lists ht hdir
  have hsegments : ∀ c ∈ childrenOf settings dir es, c.segment ≠ "" :=
    fun c hc => segment_ne_empty (fun e he => (hes.steps ht e he).1) hc
  refine ⟨es, _, hes, hcollect settings, ?_⟩
  rw [Tree.ofEntries, ofItems?_items]
  split
  · rename_i hempty
    obtain ⟨hindex, -⟩ := Bool.and_eq_true_iff.mp hempty
    have hregular : Regular (Tree.ofViews "" none none []) :=
      regular_ofViews (by simp) (by simp) (by simp)
    exact ⟨rfl, hregular, arranged_pruned hindex⟩
  · rw [Option.getD_some, ← Option.or_none (o := pathOf? settings dir .index es)]
    exact ⟨segment_ofViews, arranged_ofViews hsegments fun m c hc => child_of_lists ht hes dir hc⟩

def layoutAndPage : FileTree :=
  ⟨[], [(["views"], .directory), (["views", "about.tsx"], .file (.text "")),
    (["views", "layout.tsx"], .file (.text ""))]⟩

theorem collect_regular_layoutAndPage : WellNamed layoutAndPage ∧
    layoutAndPage.locate true "views" = .found ["views"] .directory ∧
    ∃ es tree, Lists layoutAndPage ["views"] es ∧
      Tree.collect layoutAndPage {} "views" = .ok tree ∧
      tree.segment = "" ∧ Regular tree ∧ Arranged {} "views" es none tree := by
  have ht : WellNamed layoutAndPage := by decide
  have hdir : layoutAndPage.locate true "views" = .found ["views"] .directory := by decide
  exact ⟨ht, hdir, collect_regular ht hdir {}⟩

theorem lists_layoutAndPage :
    Lists layoutAndPage ["views"] [.file "about.tsx", .file "layout.tsx"] := by
  refine .intro (by decide) (fun s => ?_) ?_ ?_ ?_
  · simp [layoutAndPage, DirEntry.name, eq_comm]
  · intro s hs
    simp only [List.mem_cons, DirEntry.file.injEq, List.not_mem_nil, or_false] at hs
    obtain rfl | rfl := hs <;> decide
  · intro s sub hs
    simp at hs
  · intro s sub hs
    simp at hs

/-- The first child below a layout is a page with a segment if there is no index page. -/
theorem first_child_named : ∃ tree, Tree.collect layoutAndPage {} "views" = .ok tree ∧
    ¬ ∀ i c, tree.children[i]? = some c →
      (c.segment = "" ↔ i = 0 ∧ tree.layout ≠ none ∧ c.page ≠ none ∧ c.children = []) := by
  have ht : WellNamed layoutAndPage := by decide
  have hdir : layoutAndPage.locate true "views" = .found ["views"] .directory := by decide
  obtain ⟨es, hes, hcollect⟩ := exists_lists ht hdir
  obtain rfl := hes.unique lists_layoutAndPage
  refine ⟨_, hcollect {}, fun h => ?_⟩
  have htree : Tree.ofEntries {} "views" [.file "about.tsx", .file "layout.tsx"] =
      Tree.ofViews "" (some "views/layout.tsx") none [Tree.leaf "about" "views/about.tsx"] := by
    have hnames : siblingNames {} "views" [.file "about.tsx", .file "layout.tsx"] = ["about"] := by
      have hcandidates : candidates (items {} "views" [.file "about.tsx", .file "layout.tsx"]) =
          [⟨none, "about", none, some "views/about.tsx"⟩] := by rfl
      rw [siblingNames, hcandidates, List.mergeSort_singleton]
      rfl
    rw [Tree.ofEntries, ofItems?_items, childrenOf, hnames]
    rfl
  rw [htree] at h
  exact absurd ((h 0 _ rfl).mpr ⟨rfl, by simp, Option.some_ne_none _, rfl⟩) (by decide)

end TypedClient.Proofs.CollectedTrees
