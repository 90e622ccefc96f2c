import TypedClient.Proofs.Routing.CollectedTrees
import TypedClient.Proofs.Routing.MountedViews
import TypedClient.Proofs.Routing.SegmentSpelling

namespace TypedClient.Routing

/-- A tree in which the children of every node have different segments. -/
inductive Tree.Apart : Tree → Prop
  | intro {t : Tree} (distinct : (t.children.map segment).Nodup) (below : ∀ c ∈ t.children, Apart c) :
      Apart t

/-- A name of a directory that has views: there is a page of that name or a page in the first directory
of that name or below. -/
inductive HasViews (settings : Settings) : List DirEntry → String → Prop
  | page {es : List DirEntry} {m : String} (h : ∃ e ∈ es, e.role? settings = some (.page m)) :
      HasViews settings es m
  | index {es sub : List DirEntry} {m d : String}
      (first : entryOf? settings (.directory m) es = some (.directory d sub))
      (h : ∃ e ∈ sub, e.role? settings = some .index) : HasViews settings es m
  | inside {es sub : List DirEntry} {m d k : String}
      (first : entryOf? settings (.directory m) es = some (.directory d sub))
      (h : HasViews settings sub k) : HasViews settings es m

/-- A directory in which names with views are names of different segments, and so in the directories
that are entered below. -/
inductive Distinct (settings : Settings) : List DirEntry → Prop
  | intro {es : List DirEntry}
      (names : ∀ m m', HasViews settings es m → HasViews settings es m' →
        Segment.normalize m = Segment.normalize m' → m = m')
      (below : ∀ m d sub, entryOf? settings (.directory m) es = some (.directory d sub) →
        Distinct settings sub) : Distinct settings es

end TypedClient.Routing

namespace TypedClient.Proofs.SiblingSegments

open TypedClient.FileTree TypedClient.Routing TypedClient.Routing.Collection
open TypedClient.Proofs.CollectedTrees TypedClient.Proofs.Listing TypedClient.Proofs.MountedViews
open TypedClient.Proofs.SegmentSpelling TypedClient.Proofs.ViewNodes

variable {t : FileTree} {n : Name} {es : List DirEntry} {settings : Settings} {dir segment p : String}
  {layout page : Option String} {children : List Tree} {tree : Tree}

theorem apart_iff : tree.Apart ↔
    (tree.children.map Tree.segment).Nodup ∧ ∀ c ∈ tree.children, c.Apart :=
  ⟨fun ⟨distinct, below⟩ => ⟨distinct, below⟩, fun h => .intro h.1 h.2⟩

theorem apart_leaf : (Tree.leaf segment p).Apart :=
  apart_iff.mpr ⟨List.nodup_nil, fun _ h => absurd h List.not_mem_nil⟩

theorem apart_ofViews_iff (hsegments : ∀ c ∈ children, c.segment ≠ "") :
    (Tree.ofViews segment layout page children).Apart ↔
      (children.map Tree.segment).Nodup ∧ ∀ c ∈ children, c.Apart := by
  have hempty : "" ∉ children.map Tree.segment := by simpa using hsegments
  rw [apart_iff, children_ofViews]
  cases layout with
  | none => rfl
  | some layout =>
    cases page with
    | none => rfl
    | some page =>
      have hleaf : (Tree.leaf "" page).Apart := apart_leaf
      have hsegment : (Tree.leaf "" page).segment = "" := rfl
      simp [hleaf, hsegment, hempty]

theorem isSome_childAt?_iff_hasViews (h : Lists t n es) (dir m : String) :
    (childAt? settings dir es m).isSome ↔ HasViews settings es m := by
  induction h generalizing dir m with
  | @intro n es _ _ _ _ _ ih =>
    have htree : ∀ d sub, entryOf? settings (.directory m) es = some (.directory d sub) →
        (((DirEntry.directory d sub).tree? settings dir).isSome ↔
          (∃ e ∈ sub, e.role? settings = some .index) ∨ ∃ k, HasViews settings sub k) := by
      intro d sub hfirst
      rw [DirEntry.tree?, isSome_ofItems?_items, isSome_pathOf?_iff, childrenOf_ne_nil_iff]
      simp only [ih d sub (entryOf?_eq_some hfirst).1]
    rw [isSome_childAt?_iff, isSome_pathOf?_iff]
    constructor
    · rintro (hpage | ⟨e, hfirst, hsome⟩)
      · exact .page hpage
      · obtain ⟨d, sub, rfl, -, -⟩ := role?_directory_iff.mp (entryOf?_eq_some hfirst).2
        obtain hindex | ⟨k, hk⟩ := (htree d sub hfirst).mp hsome
        · exact .index hfirst hindex
        · exact .inside hfirst hk
    · intro h
      cases h with
      | page h => exact .inl h
      | index hfirst h => exact .inr ⟨_, hfirst, (htree _ _ hfirst).mpr (.inl h)⟩
      | inside hfirst h => exact .inr ⟨_, hfirst, (htree _ _ hfirst).mpr (.inr ⟨_, h⟩)⟩

theorem nodup_segments_iff : ((childrenOf settings dir es).map Tree.segment).Nodup ↔
    ∀ m m', (childAt? settings dir es m).isSome → (childAt? settings dir es m').isSome →
      Segment.normalize m = Segment.normalize m' → m = m' := by
  have hsegments : (childrenOf settings dir es).map Tree.segment =
      ((namedChildren settings dir es).map Prod.fst).map Segment.normalize := by
    rw [← snd_namedChildren, List.map_map, List.map_map]
    exact List.map_congr_left fun x hx => segment_childAt? (mem_namedChildren hx).2
  have hnames : ((namedChildren settings dir es).map Prod.fst).Nodup :=
    (siblingNames_spec settings dir es).1.sublist (fst_namedChildren settings dir es)
  have hmem : ∀ m, m ∈ (namedChildren settings dir es).map Prod.fst ↔
      (childAt? settings dir es m).isSome := by
    intro m
    rw [Option.isSome_iff_exists, List.mem_map]
    constructor
    · rintro ⟨x, hx, rfl⟩
      exact ⟨x.2, (mem_namedChildren hx).2⟩
    · rintro ⟨c, hc⟩
      refine ⟨(m, c), List.mem_filterMap.mpr ⟨m, mem_siblingNames (by rw [hc]; rfl), ?_⟩, rfl⟩
      rw [hc, Option.map_some]
  rw [hsegments, List.nodup_map_iff_inj_on hnames]
  simp only [hmem]
  exact ⟨fun h m m' hm hm' => h m hm m' hm', fun h m hm m' hm' => h m m' hm hm'⟩

/-- The children of a directory and of those below are apart just when its names are distinct, by
induction on the listing. -/
theorem apart_iff_distinct (ht : WellNamed t) (h : Lists t n es) (dir segment : String)
    (layout page : Option String) :
    (Tree.ofViews segment layout page (childrenOf settings dir es)).Apart ↔ Distinct settings es := by
  induction h generalizing dir segment layout page with
  | @intro n es sorted complete files directories listed ih =>
    have hes : Lists t n es := .intro sorted complete files directories listed
    have hsegments : ∀ c ∈ childrenOf settings dir es, c.segment ≠ "" := fun c hc =>
      segment_ne_empty (fun e he => (hes.steps ht e he).1) hc
    have hsub : ∀ m d sub, entryOf? settings (.directory m) es = some (.directory d sub) →
        .directory d sub ∈ es ∧ ∀ c ∈ childrenOf settings (Path.join dir d) sub, c.segment ≠ "" := by
      intro m d sub hfirst
      have hmem := (entryOf?_eq_some hfirst).1
      exact ⟨hmem, fun c hc =>
        segment_ne_empty (fun e he => ((listed d sub hmem).steps ht e he).1) hc⟩
    rw [apart_ofViews_iff hsegments, nodup_segments_iff]
    simp only [isSome_childAt?_iff_hasViews hes]
    constructor
    · rintro ⟨hnames, hchildren⟩
      refine .intro hnames fun m d sub hfirst => ?_
      obtain ⟨hmem, hbelow⟩ := hsub m d sub hfirst
      have hchild := childAt?_of_directory hfirst hbelow
      by_cases hempty : childrenOf settings (Path.join dir d) sub = []
      · have hapart : (Tree.ofViews "" none none (childrenOf settings (Path.join dir d) sub)).Apart := by
          rw [hempty, apart_ofViews_iff (by simp)]
          simp
        exact (ih d sub hmem _ _ _ _).mp hapart
      · rw [if_neg (by simp [hempty])] at hchild
        exact (ih d sub hmem _ _ _ _).mp (hchildren _ (mem_childrenOf_iff.mpr ⟨m, hchild⟩))
    · rintro ⟨hnames, hbelow⟩
      refine ⟨hnames, fun c hc => ?_⟩
      obtain ⟨m, hc⟩ := mem_childrenOf_iff.mp hc
      cases hfirst : entryOf? settings (.directory m) es with
      | none =>
        rw [childAt?, hfirst] at hc
        obtain ⟨path, -, rfl⟩ := Option.map_eq_some_iff.mp hc
        exact apart_leaf
      | some e =>
        obtain ⟨d, sub, rfl, -, -⟩ := role?_directory_iff.mp (entryOf?_eq_some hfirst).2
        obtain ⟨hmem, hsub⟩ := hsub m d sub hfirst
        rw [childAt?_of_directory hfirst hsub] at hc
        split at hc
        · obtain ⟨path, -, rfl⟩ := Option.map_eq_some_iff.mp hc
          exact apart_leaf
        · rw [← Option.some.inj hc]
          exact (ih d sub hmem _ _ _ _).mpr (hbelow m d sub hfirst)

theorem apart_ofEntries_iff (ht : WellNamed t) (hes : Lists t n es) (dir : String) :
    (Tree.ofEntries settings dir es).Apart ↔ Distinct settings es := by
  rw [← apart_iff_distinct ht hes dir "" (pathOf? settings dir .layout es)
    (pathOf? settings dir .index es), Tree.ofEntries, ofItems?_items]
  split
  · rename_i hpruned
    obtain ⟨-, hempty⟩ := Bool.and_eq_true_iff.mp hpruned
    rw [List.isEmpty_iff.mp hempty, apart_ofViews_iff (by simp), apart_iff]
    rfl
  · rfl

/-- In the tree of the views in a directory the children of every node have different segments just
when different names with views are names of different segments; and names of one segment are the same
but for brackets written as braces. -/
theorem collect_apart_iff (ht : WellNamed t) (hdir : t.locate true dir = .found n .directory)
    (settings : Settings) : ∃ es tree, Lists t n es ∧ Tree.collect t settings dir = .ok tree ∧
      (tree.Apart ↔ Distinct settings es) ∧
      ∀ m m', Segment.normalize m = Segment.normalize m' →
        m.toList.map Segment.bracketed = m'.toList.map Segment.bracketed := by
  obtain ⟨es, hes, hcollect⟩ := exists_lists ht hdir
  exact ⟨es, _, hes, hcollect settings, apart_ofEntries_iff ht hes dir, fun _ _ => spelled_alike⟩

theorem collect_apart_layoutAndPage : WellNamed layoutAndPage ∧
    layoutAndPage.locate true "views" = .found ["views"] .directory ∧
    ∃ tree, Tree.collect layoutAndPage {} "views" = .ok tree ∧ tree.Apart := by
  have ht : WellNamed layoutAndPage := by decide
  have hdir : layoutAndPage.locate true "views" = .found ["views"] .directory := by decide
  obtain ⟨es, tree, hes, hcollect, hiff, -⟩ := collect_apart_iff ht hdir {}
  obtain rfl := hes.unique lists_layoutAndPage
  have habout : (DirEntry.file "about.tsx").role? {} = some (.page "about") := by decide
  have hlayout : (DirEntry.file "layout.tsx").role? {} = some .layout := by decide
  have hnone : ∀ m, entryOf? {} (.directory m) [.file "about.tsx", .file "layout.tsx"] = none := by
    simp [entryOf?, habout, hlayout]
  have hname : ∀ m, HasViews {} [.file "about.tsx", .file "layout.tsx"] m → m = "about" := by
    intro m hm
    cases hm with
    | page h => simpa [habout, hlayout, eq_comm] using h
    | index hfirst | inside hfirst => simp [hnone] at hfirst
  refine ⟨ht, hdir, tree, hcollect, hiff.mpr (.intro (fun m m' hm hm' _ => ?_) fun m d sub hfirst => ?_)⟩
  · rw [hname m hm, hname m' hm']
  · simp [hnone] at hfirst

def twoSpellings : FileTree :=
  ⟨[], [(["views"], .directory), (["views", "[id].tsx"], .file (.text "")),
    (["views", "\x7bid\x7d.tsx"], .file (.text ""))]⟩

theorem lists_twoSpellings :
    Lists twoSpellings ["views"] [.file "[id].tsx", .file "\x7bid\x7d.tsx"] := by
  refine .intro (by decide) (fun s => ?_) ?_ ?_ ?_
  · simp [twoSpellings, DirEntry.name, eq_comm]
  · intro s hs
    simp only [List.mem_cons, DirEntry.file.injEq, List.not_mem_nil, or_false] at hs
    obtain rfl | rfl := hs <;> decide
  · intro s sub hs
    simp at hs
  · intro s sub hs
    simp at hs

/-- Names that are different on disk do not meet, whatever segment they are names of. -/
theorem siblings_of_one_segment : WellNamed twoSpellings ∧
    ∃ tree, Tree.collect twoSpellings {} "views" = .ok tree ∧ ¬ tree.Apart := by
  have ht : WellNamed twoSpellings := by decide
  have hdir : twoSpellings.locate true "views" = .found ["views"] .directory := by decide
  obtain ⟨es, hes, hcollect⟩ := exists_lists ht hdir
  obtain rfl := hes.unique lists_twoSpellings
  refine ⟨ht, _, hcollect {}, fun h => ?_⟩
  cases (apart_ofEntries_iff ht hes "views").mp h with
  | intro names _ =>
    have hbrackets : HasViews {} [.file "[id].tsx", .file "\x7bid\x7d.tsx"] "[id]" :=
      .page ⟨.file "[id].tsx", by simp, by decide⟩
    have hbraces : HasViews {} [.file "[id].tsx", .file "\x7bid\x7d.tsx"] "\x7bid\x7d" :=
      .page ⟨.file "\x7bid\x7d.tsx", by simp, by decide⟩
    exact absurd (names _ _ hbrackets hbraces (by decide)) (by decide)

end TypedClient.Proofs.SiblingSegments
