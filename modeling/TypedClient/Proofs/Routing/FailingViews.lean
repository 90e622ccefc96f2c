import TypedClient.CommandLine.Run
import TypedClient.Proofs.FileTree.UserFiles
import TypedClient.Proofs.Outcome
import TypedClient.Proofs.Routing.MountedViews
import TypedClient.Proofs.Routing.ViewImports

namespace TypedClient.Proofs.FailingViews

open TypedClient.FileTree TypedClient.Routing TypedClient.Routing.Collection
open TypedClient.Proofs.Listing TypedClient.Proofs.MountedViews TypedClient.Proofs.ViewEntries
  TypedClient.Proofs.ViewImports TypedClient.Proofs.ViewNodes

variable {ε : Type} {load : String → Except ε View} {t : FileTree} {p : String} {f : LoadFault}
  {e : ε} {ms ns : List String} {settings : Settings} {dir segment : String}
  {layout page : Option String} {children : List Tree} {es : List DirEntry} {tree c : Tree}

/-- Why the module at a path cannot be loaded: the file is not there or no text, or the settings
that it exports are no literal or not of the form of settings. -/
inductive Fails (t : FileTree) (p : String) : LoadFault → Prop
  | unreadable (h : t.readText? p = none) : Fails t p (.unreadable p)
  | literal {source : String} {k : Text.Cursor} {cause : Literal.ReadError}
      (read : t.readText? p = some source)
      (exported : View.configExport.search? source.toList = some k)
      (h : Literal.parsePrefix (String.ofList k.rest) = .error cause) :
      Fails t p (.view (.literal p cause))
  | form {source : String} {k : Text.Cursor} {l : Literal} {n : Nat} {cause : Json.Mismatch}
      (read : t.readText? p = some source)
      (exported : View.configExport.search? source.toList = some k)
      (parsed : Literal.parsePrefix (String.ofList k.rest) = .ok (l, n))
      (h : ViewConfig.decode l.toJson = .error cause) : Fails t p (.view (.form p cause))

theorem load_eq_error_iff : View.load t p = .error f ↔ Fails t p f := by
  constructor
  · intro h
    rw [View.load] at h
    cases hread : t.readText? p with
    | none =>
      rw [hread] at h
      obtain rfl := Except.error.inj h
      exact .unreadable hread
    | some source =>
      rw [hread] at h
      dsimp only at h
      rw [View.parse, View.readConfig] at h
      cases hexported : View.configExport.search? source.toList with
      | none =>
        rw [hexported] at h
        cases h
      | some k =>
        rw [hexported] at h
        dsimp only at h
        cases hparsed : Literal.parsePrefix (String.ofList k.rest) with
        | error cause =>
          rw [hparsed] at h
          obtain rfl := Except.error.inj h
          exact .literal hread hexported hparsed
        | ok l =>
          rw [hparsed] at h
          dsimp only at h
          cases hdecode : ViewConfig.decode l.1.toJson with
          | error cause =>
            rw [hdecode] at h
            obtain rfl := Except.error.inj h
            exact .form hread hexported hparsed hdecode
          | ok config =>
            rw [hdecode] at h
            cases h
  · rintro (hread | ⟨hread, hexported, hparsed⟩ | ⟨hread, hexported, hparsed, hdecode⟩)
    · rw [View.load, hread]
    · simp only [View.load, View.parse, View.readConfig, hread, hexported, hparsed]
      rfl
    · simp only [View.load, View.parse, View.readConfig, hread, hexported, hparsed, hdecode]
      rfl

def loadAll (load : String → Except ε View) : List String → Except ε Unit
  | [] => .ok ()
  | m :: ms => load m >>= fun _ => loadAll load ms

theorem loadAll_append (ms ns : List String) :
    loadAll load (ms ++ ns) = loadAll load ms >>= fun _ => loadAll load ns := by
  induction ms with
  | nil => rfl
  | cons m ms ih =>
    rw [List.cons_append, loadAll, loadAll, ih]
    cases load m <;> rfl

theorem loadAll_eq_ok_iff : loadAll load ms = .ok () ↔ ∀ m ∈ ms, ∃ v, load m = .ok v := by
  induction ms with
  | nil => simp [loadAll]
  | cons m ms ih =>
    rw [loadAll, List.forall_mem_cons, ← ih, Proofs.Outcome.bind_eq_ok_iff]
    exact ⟨fun ⟨v, hv, h⟩ => ⟨⟨v, hv⟩, h⟩, fun ⟨⟨v, hv⟩, h⟩ => ⟨v, hv, h⟩⟩

theorem exists_first_of_loadAll (h : loadAll load ms = .error e) :
    ∃ front m back, ms = front ++ m :: back ∧ (∀ n ∈ front, ∃ v, load n = .ok v) ∧
      load m = .error e := by
  induction ms with
  | nil => cases h
  | cons m ms ih =>
    rw [loadAll] at h
    cases hm : load m with
    | error e' =>
      rw [hm] at h
      obtain rfl := Except.error.inj h
      exact ⟨[], m, ms, rfl, by simp, hm⟩
    | ok v =>
      rw [hm] at h
      obtain ⟨front, n, back, rfl, hfront, hn⟩ := ih h
      exact ⟨m :: front, n, back, rfl, List.forall_mem_cons.mpr ⟨⟨v, hm⟩, hfront⟩, hn⟩

def shown (tree : Tree) : List String :=
  (nodesIn tree).filterMap Tree.module?

def shownOf (trees : List Tree) : List String :=
  (nodesOf trees).filterMap Tree.module?

theorem shown_mk : shown ⟨segment, page, layout, children⟩ =
    (page.or layout).toList ++ shownOf children := by
  rw [shown, nodesIn, List.filterMap_cons, Tree.module?]
  cases page.or layout <;> rfl

theorem shownOf_cons (tree : Tree) (trees : List Tree) :
    shownOf (tree :: trees) = shown tree ++ shownOf trees := by
  rw [shownOf, nodesOf, List.filterMap_append, shown, shownOf]

mutual

/-- The routes of a tree are made just when the modules of its nodes are loaded. -/
theorem ofTree_loads (load : String → Except ε View) : ∀ tree : Tree,
    (Route.ofTree load tree).map (fun _ => ()) = loadAll load (shown tree)
  | ⟨segment, page, layout, children⟩ => by
    have hbelow := ofTrees_loads load children
    rw [shown_mk, loadAll_append, ← hbelow, Route.ofTree]
    cases page.or layout with
    | none => cases Route.ofTrees load children <;> rfl
    | some m =>
      rw [Option.toList_some, loadAll]
      dsimp only
      cases load m with
      | error e => rfl
      | ok v => cases Route.ofTrees load children <;> rfl

theorem ofTrees_loads (load : String → Except ε View) : ∀ trees : List Tree,
    (Route.ofTrees load trees).map (fun _ => ()) = loadAll load (shownOf trees)
  | [] => rfl
  | tree :: trees => by
    have hfirst := ofTree_loads load tree
    have hrest := ofTrees_loads load trees
    rw [shownOf_cons, loadAll_append, ← hfirst, ← hrest, Route.ofTrees]
    cases Route.ofTree load tree with
    | error e => rfl
    | ok r => cases Route.ofTrees load trees <;> rfl

end

theorem ofTree_eq_error_iff : Route.ofTree load tree = .error e ↔
    loadAll load (shown tree) = .error e := by
  rw [← ofTree_loads]
  cases Route.ofTree load tree with
  | error e' =>
    constructor <;> rintro ⟨⟩ <;> rfl
  | ok r => constructor <;> rintro ⟨⟩

theorem exists_ofTree (h : ∀ m ∈ shown tree, ∃ v, load m = .ok v) :
    ∃ r, Route.ofTree load tree = .ok r := by
  rw [← loadAll_eq_ok_iff, ← ofTree_loads, Proofs.Outcome.map_eq_ok_iff] at h
  obtain ⟨r, hr, -⟩ := h
  exact ⟨r, hr⟩

def Single (tree : Tree) : Prop :=
  ∀ c ∈ nodesIn tree, c.page = none ∨ c.layout = none

theorem mem_nodesOf {trees : List Tree} : c ∈ nodesOf trees ↔ ∃ u ∈ trees, c ∈ nodesIn u := by
  induction trees with
  | nil => simp [nodesOf]
  | cons u trees ih => rw [nodesOf, List.mem_append, ih, List.exists_mem_cons_iff]

theorem single_iff : Single tree ↔
    (tree.page = none ∨ tree.layout = none) ∧ ∀ u ∈ tree.children, Single u := by
  obtain ⟨segment, page, layout, children⟩ := tree
  rw [Single, nodesIn, List.forall_mem_cons]
  refine and_congr_right fun _ => ⟨fun h u hu c hc => h c (mem_nodesOf.mpr ⟨u, hu, hc⟩), ?_⟩
  intro h c hc
  obtain ⟨u, hu, hc⟩ := mem_nodesOf.mp hc
  exact h u hu c hc

theorem single_leaf : Single (Tree.leaf segment p) :=
  single_iff.mpr ⟨.inr rfl, by simp [Tree.leaf]⟩

theorem single_ofViews (h : ∀ c ∈ children, Single c) :
    Single (Tree.ofViews segment layout page children) := by
  rw [single_iff, page_ofViews, layout_ofViews, children_ofViews]
  constructor
  · cases layout
    · exact .inr rfl
    · exact .inl rfl
  · intro u hu
    rw [List.mem_append] at hu
    obtain hu | hu := hu
    · split at hu
      · obtain ⟨path, -, rfl⟩ := Option.map_eq_some_iff.mp (Option.mem_toList.mp hu)
        exact single_leaf
      · cases hu
    · exact h u hu

theorem single_addPage (h : Single tree) : Single (addPage tree p) := by
  obtain ⟨hown, hbelow⟩ := single_iff.mp h
  rw [addPage]
  by_cases hlayout : tree.layout.isSome = true
  · rw [if_pos hlayout]
    split
    · exact h
    · exact single_iff.mpr ⟨hown, List.forall_mem_cons.mpr ⟨single_leaf, hbelow⟩⟩
  · rw [if_neg hlayout]
    split
    · exact h
    · exact single_iff.mpr ⟨.inr (by simpa using hlayout), hbelow⟩

theorem single_childrenOf (h : ∀ e ∈ es, ∀ tree, e.tree? settings dir = some tree → Single tree) :
    ∀ c ∈ childrenOf settings dir es, Single c := by
  intro c hc
  obtain ⟨m, -, hc⟩ := List.mem_filterMap.mp hc
  rw [childAt?] at hc
  split at hc
  · rename_i e path hfirst hpath
    obtain rfl := Option.some.inj hc
    apply single_addPage
    cases htree : e.tree? settings dir with
    | none => exact single_iff.mpr ⟨.inr rfl, by simp⟩
    | some u => exact h e (entryOf?_eq_some hfirst).1 u htree
  · rename_i e hfirst hpath
    exact h e (entryOf?_eq_some hfirst).1 c hc
  · obtain ⟨path, -, rfl⟩ := Option.map_eq_some_iff.mp hc
    exact single_leaf

theorem single_ofItems? (hbelow : ∀ e ∈ es, ∀ u, e.tree? settings dir = some u → Single u)
    (h : ofItems? segment (items settings dir es) = some tree) : Single tree := by
  rw [ofItems?_items, Option.ite_none_left_eq_some] at h
  rw [← Option.some.inj h.2]
  exact single_ofViews (single_childrenOf hbelow)

/-- By recursion on the entry: the trees of the directories in it come first. -/
theorem single_tree? : ∀ (e : DirEntry) (dir : String) (tree : Tree),
    e.tree? settings dir = some tree → Single tree
  | .directory d sub, dir, _, h =>
    single_ofItems? (fun e _ u hu => single_tree? e (Path.join dir d) u hu) h

theorem single_collect (h : Tree.collect t settings dir = .ok tree) : Single tree := by
  rw [Tree.collect, Tree.collect?] at h
  cases hentries : dirEntries? t dir with
  | none =>
    rw [hentries] at h
    cases h
  | some es =>
    rw [hentries] at h
    obtain rfl := Except.ok.inj h
    rw [Tree.ofEntries]
    cases hitems : ofItems? "" (items settings dir es) with
    | none => exact single_iff.mpr ⟨.inr rfl, by simp⟩
    | some u => exact single_ofItems? (fun e _ v hv => single_tree? e dir v hv) hitems

mutual

/-- The layouts and pages of such a tree are the modules that its nodes show. -/
theorem modules_eq_shown : ∀ tree : Tree, Single tree → tree.modules = shown tree
  | ⟨segment, page, layout, children⟩, h => by
    obtain ⟨hown, hbelow⟩ := single_iff.mp h
    rw [shown_mk, Tree.modules, modulesOf_eq_shownOf children hbelow]
    obtain rfl | rfl : page = none ∨ layout = none := hown
    · simp
    · simp

theorem modulesOf_eq_shownOf : ∀ trees : List Tree, (∀ u ∈ trees, Single u) →
    Tree.modulesOf trees = shownOf trees
  | [], _ => rfl
  | tree :: trees, h => by
    obtain ⟨hfirst, hrest⟩ := List.forall_mem_cons.mp h
    rw [Tree.modulesOf, shownOf_cons, modules_eq_shown tree hfirst,
      modulesOf_eq_shownOf trees hrest]

end

theorem run_look {α δ : Type} (g : FileTree → Except δ α) (fault : δ → Command.Fault)
    (t : FileTree) : (Command.look g fault).run.run t = ((g t).mapError fault, t) := by
  rw [Command.look, UserFiles.run_bind, UserFiles.run_get]
  dsimp only
  cases g t <;> rfl

section Generation

variable {views output : String} {mode : WriteMode}

theorem run_directory (role : String) {path : String} (h : path ≠ "") (t : FileTree) :
    (Command.directory role path).run.run t = (.ok (Path.absolute t.cwdPath path), t) := by
  rw [Command.directory, run_look, if_neg h]
  rfl

theorem run_generateRoutes_of_error (hv : views ≠ "") (ho : output ≠ "")
    (h : Command.routeFiles t (Path.absolute t.cwdPath views) (Path.absolute t.cwdPath output)
      settings = .error f) :
    (Command.generateRoutes views output settings mode).run.run t = (.error (.views f), t) := by
  rw [Command.generateRoutes, UserFiles.run_bind, run_directory "views" hv]
  dsimp only
  rw [UserFiles.run_bind, run_directory "output" ho]
  dsimp only
  rw [UserFiles.run_bind, run_look, h]
  rfl

theorem run_generateRoutes_of_empty (h : views = "" ∨ output = "") (t : FileTree)
    (settings : Settings) (mode : WriteMode) : ∃ role,
      (Command.generateRoutes views output settings mode).run.run t =
        (.error (.noDirectory role), t) := by
  rw [Command.generateRoutes, UserFiles.run_bind]
  by_cases hv : views = ""
  · rw [hv, Command.directory, run_look]
    exact ⟨"views", rfl⟩
  · rw [run_directory "views" hv, h.resolve_left hv]
    dsimp only
    rw [UserFiles.run_bind, Command.directory, run_look]
    exact ⟨"output", rfl⟩

end Generation

/-- Routes are generated all or not at all. If a page or a layout of the collected tree cannot be
loaded, the generation ends with the fault of the first such module in pre-order, and the file tree
is as it was; so it is where a directory is the empty path, which has no tree. If every module that
the nodes of a tree show is loaded, its routes are made. -/
theorem routes_need_all_views (t : FileTree) (views output : String) (settings : Settings)
    (mode : WriteMode) (load : String → Except ε View) :
    (views ≠ "" → output ≠ "" →
      ∀ tree, Tree.collect t settings (Path.absolute t.cwdPath views) = .ok tree →
      ∀ p ∈ tree.modules, ∀ f, Fails t p f →
        ∃ front q back g, tree.modules = front ++ q :: back ∧
          (∀ m ∈ front, ∃ v, View.load t m = .ok v) ∧ Fails t q g ∧
          (Command.generateRoutes views output settings mode).run.run t = (.error (.views g), t)) ∧
      (views = "" ∨ output = "" → ∃ role,
        (Command.generateRoutes views output settings mode).run.run t =
          (.error (.noDirectory role), t)) ∧
      ∀ tree, (∀ m ∈ shown tree, ∃ v, load m = .ok v) → ∃ r, Route.ofTree load tree = .ok r := by
  refine ⟨fun hv ho tree hcollect p hp f hf => ?_,
    fun hempty => run_generateRoutes_of_empty hempty t settings mode, fun tree h => exists_ofTree h⟩
  have hmodules := modules_eq_shown tree (single_collect hcollect)
  rw [hmodules] at hp ⊢
  cases hload : loadAll (View.load t) (shown tree) with
  | ok =>
    obtain ⟨v, hv⟩ := loadAll_eq_ok_iff.mp hload p hp
    rw [load_eq_error_iff.mpr hf] at hv
    cases hv
  | error g =>
    obtain ⟨front, q, back, hsplit, hfront, hq⟩ := exists_first_of_loadAll hload
    refine ⟨front, q, back, g, hsplit, hfront, load_eq_error_iff.mp hq, ?_⟩
    apply run_generateRoutes_of_error hv ho
    rw [Command.routeFiles, hcollect]
    have hroot : Route.ofTree (View.load t) tree = .error g := ofTree_eq_error_iff.mpr hload
    change (Route.ofTree (View.load t) tree >>= _) = _
    rw [hroot]
    rfl

def broken : FileTree :=
  ⟨[], [(["views"], .directory),
    (["views", "about.tsx"], .file (.text "export default function About() \x7b\x7d\n")),
    (["views", "broken.tsx"], .file (.text "export const config = \x7b title: ;\n"))]⟩

theorem lists_broken : Lists broken ["views"] [.file "about.tsx", .file "broken.tsx"] := by
  refine .intro (by decide) (fun s => ?_) ?_ ?_ ?_
  · simp [broken, DirEntry.name, eq_comm]
  · intro s hs
    simp only [List.mem_cons, DirEntry.file.injEq, List.not_mem_nil, or_false] at hs
    obtain rfl | rfl := hs <;> decide
  · intro s sub hs
    simp at hs
  · intro s sub hs
    simp at hs

theorem collect_broken : ∃ tree, Tree.collect broken {} "/views" = .ok tree ∧
    tree.modules = ["/views/about.tsx", "/views/broken.tsx"] := by
  have ht : WellNamed broken := by decide
  have hdir : broken.locate true "/views" = .found ["views"] .directory := by decide
  obtain ⟨es, hes, hcollect⟩ := exists_lists ht hdir
  obtain rfl := hes.unique lists_broken
  refine ⟨_, hcollect {}, ?_⟩
  have hnames : siblingNames {} "/views" [.file "about.tsx", .file "broken.tsx"] =
      ["about", "broken"] := by
    have hcandidates : candidates (items {} "/views" [.file "about.tsx", .file "broken.tsx"]) =
        [⟨none, "about", none, some "/views/about.tsx"⟩,
          ⟨none, "broken", none, some "/views/broken.tsx"⟩] := by rfl
    rw [siblingNames, hcandidates, List.mergeSort_of_pairwise (by decide)]
    rfl
  rw [Tree.ofEntries, ofItems?_items, childrenOf, hnames]
  rfl

theorem broken_view_ends_generation :
    (∃ g, Fails broken "/views/broken.tsx" g ∧
      (Command.generateRoutes "views" "out" {} {}).run.run broken = (.error (.views g), broken)) ∧
      ∃ r, Route.ofTree (fun m => (.ok ⟨m, none, none⟩ : Except LoadFault View))
        (Tree.leaf "about" "/views/about.tsx") = .ok r := by
  have h := routes_need_all_views broken "views" "out" {} {}
    fun m => (.ok ⟨m, none, none⟩ : Except LoadFault View)
  refine ⟨?_, h.2.2 _ fun m _ => ⟨_, rfl⟩⟩
  have hviews : Path.absolute broken.cwdPath "views" = "/views" := by decide
  obtain ⟨tree, hcollect, hmodules⟩ := collect_broken
  have habout : ∀ g, ¬ Fails broken "/views/about.tsx" g := by
    intro g hg
    have hload : (View.load broken "/views/about.tsx").isOk = true := by decide +kernel
    rw [load_eq_error_iff.mpr hg] at hload
    cases hload
  obtain ⟨f, hf⟩ : ∃ f, Fails broken "/views/broken.tsx" f := by
    have hload : (View.load broken "/views/broken.tsx").isOk = false := by decide +kernel
    cases hbroken : View.load broken "/views/broken.tsx" with
    | error f => exact ⟨f, load_eq_error_iff.mp hbroken⟩
    | ok v =>
      rw [hbroken] at hload
      cases hload
  obtain ⟨front, q, back, g, hsplit, hfront, hg, hrun⟩ :=
    h.1 (by decide) (by decide) tree (hviews ▸ hcollect) _ (by rw [hmodules]; simp) f hf
  refine ⟨g, ?_, hrun⟩
  rw [hmodules] at hsplit
  match front, hsplit with
  | [], hsplit =>
    obtain ⟨rfl, -⟩ := List.cons.inj hsplit
    exact absurd hg (habout g)
  | [_], hsplit =>
    obtain ⟨-, hsplit⟩ := List.cons.inj hsplit
    obtain ⟨rfl, -⟩ := List.cons.inj hsplit
    exact hg
  | _ :: _ :: front, hsplit => simp at hsplit

end TypedClient.Proofs.FailingViews
