import TypedClient.Proofs.FileTree.Relisting
import TypedClient.Proofs.Routing.SiblingSegments

namespace TypedClient.Routing

namespace Tree

mutual

def mapPages (f : String → String) : Tree → Tree
  | ⟨segment, page, layout, children⟩ => ⟨segment, page.map f, layout, mapPagesOf f children⟩

def mapPagesOf (f : String → String) : List Tree → List Tree
  | [] => []
  | t :: ts => mapPages f t :: mapPagesOf f ts

end

end Tree

def renamed (p p' q : String) : String :=
  if q = p then p' else q

/-- The steps lead through the first directory of each name, from the entries on. -/
inductive Entered (settings : Settings) : List DirEntry → List String → Prop
  | here {es : List DirEntry} : Entered settings es []
  | inside {es sub : List DirEntry} {m s : String} {ds : List String}
      (first : entryOf? settings (.directory m) es = some (.directory s sub))
      (h : Entered settings sub ds) : Entered settings es (s :: ds)

def Hollow (settings : Settings) (es : List DirEntry) : Prop :=
  (∃ e ∈ es, e.role? settings = some .layout) ∧ ∀ m, ¬ HasViews settings es m

/-- A directory that is not private nor of a reserved name, has no index page and shares its name with
no other page or directory among the entries `es`. -/
structure Hosts (settings : Settings) (es : List DirEntry) (d : String) (sub : List DirEntry) :
    Prop where
  mem : .directory d sub ∈ es
  visible : Collection.isPrivate d = false
  unreserved : d ≠ "index" ∧ d ≠ "layout" ∧ Text.startsWith "@" d = false
  pageless : ∀ e ∈ sub, e.role? settings ≠ some .index
  alone : ∀ e ∈ es, (e.role? settings).bind Role.name? = some (Segment.splitOrder d).2 →
    e = .directory d sub

end TypedClient.Routing

namespace TypedClient.Proofs.SiblingPages

open TypedClient.FileTree TypedClient.Routing TypedClient.Routing.Collection
open TypedClient.Proofs.Candidates TypedClient.Proofs.Joining TypedClient.Proofs.Listing
open TypedClient.Proofs.MountedViews TypedClient.Proofs.Relisting TypedClient.Proofs.SiblingSegments
open TypedClient.Proofs.ViewNodes

variable {settings : Settings} {t u u' : FileTree} {n : Name} {es es' sub front back : List DirEntry}
  {e : DirEntry} {r r' : Role} {d dir f g m s segment p p' : String} {ds : List String}
  {layout page : Option String} {children : List Tree} {φ : List DirEntry → List DirEntry}

theorem mapPagesOf_eq (F : String → String) (ts : List Tree) :
    Tree.mapPagesOf F ts = ts.map (Tree.mapPages F) := by
  induction ts with
  | nil => rfl
  | cons t ts ih => rw [Tree.mapPagesOf, ih, List.map_cons]

theorem mapPages_leaf (F : String → String) :
    (Tree.leaf segment p).mapPages F = Tree.leaf segment (F p) :=
  rfl

theorem mapPages_ofViews (F : String → String) :
    (Tree.ofViews segment layout page children).mapPages F =
      Tree.ofViews segment layout (page.map F) (children.map (Tree.mapPages F)) := by
  cases layout <;> cases page <;>
    simp [Tree.ofViews, Tree.mapPages, mapPagesOf_eq, mapPages_leaf]

theorem ofViews_inj {children' : List Tree} : Tree.ofViews segment layout page children =
    Tree.ofViews segment layout page children' ↔ children = children' := by
  constructor
  · intro h
    have hchildren := congrArg Tree.children h
    rw [children_ofViews, children_ofViews] at hchildren
    exact List.append_cancel_left hchildren
  · rintro rfl
    rfl

section Entries

@[simp] theorem role?_relist : (e.relist s φ).role? settings = e.role? settings := by
  cases e <;> rfl

@[simp] theorem order?_relist : (e.relist s φ).order? = e.order? := by
  cases e <;> rfl

theorem entryOf?_relist : entryOf? settings r (es.map (DirEntry.relist s φ)) =
    (entryOf? settings r es).map (DirEntry.relist s φ) := by
  rw [entryOf?, entryOf?, List.find?_map]
  simp only [Function.comp_def, role?_relist]

theorem pathOf?_relist : pathOf? settings dir r (es.map (DirEntry.relist s φ)) =
    pathOf? settings dir r es := by
  rw [pathOf?, pathOf?, entryOf?_relist, Option.map_map]
  simp only [Function.comp_def, name_relist]

theorem rank_relist : rank settings (es.map (DirEntry.relist s φ)) = rank settings es := by
  funext m
  rw [rank, rank, List.findSome?_map]
  simp only [Function.comp_def, role?_relist, order?_relist]

/-- The names of children depend on the names that entries count under and on their numbers. -/
theorem siblingNames_congr (hnames : ∀ m, (∃ e ∈ es, (e.role? settings).bind Role.name? = some m) ↔
      ∃ e ∈ es', (e.role? settings).bind Role.name? = some m)
    (hrank : rank settings es = rank settings es') (dir dir' : String) :
    siblingNames settings dir es = siblingNames settings dir' es' := by
  obtain ⟨hnodup, hmem, hsorted⟩ := siblingNames_spec settings dir es
  obtain ⟨hnodup', hmem', hsorted'⟩ := siblingNames_spec settings dir' es'
  rw [← hrank] at hsorted'
  have hperm : (siblingNames settings dir es).Perm (siblingNames settings dir' es') := by
    rw [List.perm_ext_iff_of_nodup hnodup hnodup']
    intro m
    rw [hmem, hmem', hnames]
  refine hperm.eq_of_pairwise (fun a b _ _ hab hba => ?_) hsorted hsorted'
  unfold Before at hab hba
  cases ha : rank settings es a <;> cases hb : rank settings es b <;> simp only [ha, hb] at hab hba
  · exact absurd hba (String.lt_asymm hab)
  · grind [String.lt_asymm]

theorem siblingNames_relist : siblingNames settings dir (es.map (DirEntry.relist s φ)) =
    siblingNames settings dir es := by
  refine siblingNames_congr (fun m => ?_) rank_relist dir dir
  simp only [List.mem_map, exists_exists_and_eq_and, role?_relist]

theorem childAt?_relist (h : ∀ sub, entryOf? settings (.directory m) es ≠ some (.directory s sub)) :
    childAt? settings dir (es.map (DirEntry.relist s φ)) m = childAt? settings dir es m := by
  rw [childAt?, childAt?, entryOf?_relist, pathOf?_relist]
  cases hfirst : entryOf? settings (.directory m) es with
  | none => rfl
  | some e =>
    obtain ⟨d, sub, rfl, -, -⟩ := role?_directory_iff.mp (entryOf?_eq_some hfirst).2
    have hd : d ≠ s := by
      rintro rfl
      exact h sub hfirst
    have hsame : (DirEntry.directory d sub).relist s φ = .directory d sub := by
      rw [DirEntry.relist, if_neg hd]
    rw [Option.map_some, hsame]

theorem entryOf?_insert (hf : fileRole? settings f = some r')
    (hnew : ∀ e ∈ front ++ back, e.role? settings ≠ some r') (r : Role) :
    entryOf? settings r (front ++ .file f :: back) =
      if r = r' then some (.file f) else entryOf? settings r (front ++ back) := by
  have hrole : (DirEntry.file f).role? settings = some r' := hf
  split
  · rename_i hr
    subst hr
    have hfront : front.find? (fun e => e.role? settings = some r) = none := by
      rw [List.find?_eq_none]
      intro e he
      simpa using hnew e (List.mem_append_left back he)
    rw [entryOf?, List.find?_append, hfront, Option.none_or,
      List.find?_cons_of_pos (by simpa using hrole)]
  · rename_i hr
    have hne : ¬ ((DirEntry.file f).role? settings = some r) := by
      rw [hrole, Option.some_inj]
      exact Ne.symm hr
    rw [entryOf?, entryOf?, List.find?_append, List.find?_append,
      List.find?_cons_of_neg (by simpa using hne)]

theorem pathOf?_insert (hf : fileRole? settings f = some r')
    (hnew : ∀ e ∈ front ++ back, e.role? settings ≠ some r') (r : Role) (dir : String) :
    pathOf? settings dir r (front ++ .file f :: back) =
      if r = r' then some (Path.join dir f) else pathOf? settings dir r (front ++ back) := by
  rw [pathOf?, pathOf?, entryOf?_insert hf hnew]
  split <;> rfl

theorem childAt?_insert (hf : fileRole? settings f = some r')
    (hnew : ∀ e ∈ front ++ back, e.role? settings ≠ some r') (hdirectory : r' ≠ .directory m)
    (hpage : r' ≠ .page m) : childAt? settings dir (front ++ .file f :: back) m =
      childAt? settings dir (front ++ back) m := by
  rw [childAt?, childAt?, entryOf?_insert hf hnew, pathOf?_insert hf hnew,
    if_neg (Ne.symm hdirectory), if_neg (Ne.symm hpage)]

theorem rank_insert (hf : (fileRole? settings f).bind Role.name? ≠ some m) :
    rank settings (front ++ .file f :: back) m = rank settings (front ++ back) m := by
  have hrole : ((DirEntry.file f).role? settings).bind Role.name? ≠ some m := hf
  rw [rank, rank, List.findSome?_append, List.findSome?_append, List.findSome?_cons, if_neg hrole]

theorem rank_of_alone {o : Option Nat}
    (h : ∀ e ∈ es, (e.role? settings).bind Role.name? = some m → e.order? = o)
    (hex : ∃ e ∈ es, (e.role? settings).bind Role.name? = some m) : rank settings es m = o := by
  induction es with
  | nil =>
    obtain ⟨_, he, -⟩ := hex
    cases he
  | cons e es ih =>
    rw [List.forall_mem_cons] at h
    rw [rank, List.findSome?_cons]
    by_cases he : (e.role? settings).bind Role.name? = some m
    · rw [if_pos he, h.1 he]
      cases o with
      | some k => rfl
      | none =>
        rw [List.findSome?_eq_none_iff]
        intro x hx
        split
        · rename_i hname
          exact h.2 x hx hname
        · rfl
    · obtain ⟨x, hx, hname⟩ := hex
      rw [if_neg he]
      obtain rfl | hx := List.mem_cons.mp hx
      · exact absurd hname he
      · exact ih h.2 ⟨x, hx, hname⟩

end Entries

/-- Two listings of a directory with the same layout and index page, whose children are the same but for
the paths of pages just when `q` holds. -/
structure Compares (settings : Settings) (dir : String) (F : String → String)
    (es es' : List DirEntry) (q : Prop) : Prop where
  layout : pathOf? settings dir .layout es = pathOf? settings dir .layout es'
  index : pathOf? settings dir .index es = pathOf? settings dir .index es'
  empty : childrenOf settings dir es = [] ↔ childrenOf settings dir es' = []
  same : (childrenOf settings dir es).map (Tree.mapPages F) =
    (childrenOf settings dir es').map (Tree.mapPages F) ↔ q

section Comparisons

variable {F : String → String} {q q' : Prop} {sub' : List DirEntry}

theorem Compares.congr (h : Compares settings dir F es es' q) (hq : q ↔ q') :
    Compares settings dir F es es' q' :=
  ⟨h.layout, h.index, h.empty, h.same.trans hq⟩

theorem filterMap_eq_iff {α β : Type} {names : List α} {f g : α → Option β} {a : α}
    (hnodup : names.Nodup) (ha : a ∈ names) (hother : ∀ b, b ≠ a → f b = g b)
    (hsome : (f a).isSome = (g a).isSome) :
    names.filterMap f = names.filterMap g ↔ f a = g a := by
  obtain ⟨l, l', rfl⟩ := List.append_of_mem ha
  rw [List.nodup_middle, List.nodup_cons, List.mem_append, not_or] at hnodup
  have hl : l.filterMap f = l.filterMap g :=
    List.filterMap_congr fun b hb => hother b (ne_of_mem_of_not_mem hb hnodup.1.1)
  have hl' : l'.filterMap f = l'.filterMap g :=
    List.filterMap_congr fun b hb => hother b (ne_of_mem_of_not_mem hb hnodup.1.2)
  rw [List.filterMap_append, List.filterMap_append, hl, List.append_cancel_left_eq,
    List.filterMap_cons, List.filterMap_cons, hl']
  cases hf : f a <;> cases hg : g a <;> simp_all

/-- Listings with children for the same names, which are the same for all of them but one. -/
theorem compares_of_child (hnames : siblingNames settings dir es = siblingNames settings dir es')
    (hm : m ∈ siblingNames settings dir es)
    (hlayout : pathOf? settings dir .layout es = pathOf? settings dir .layout es')
    (hindex : pathOf? settings dir .index es = pathOf? settings dir .index es')
    (hother : ∀ k, k ≠ m → childAt? settings dir es k = childAt? settings dir es' k)
    (hsome : (childAt? settings dir es m).isSome = (childAt? settings dir es' m).isSome) :
    Compares settings dir F es es' ((childAt? settings dir es m).map (Tree.mapPages F) =
      (childAt? settings dir es' m).map (Tree.mapPages F)) := by
  have hchild : ∀ k, (childAt? settings dir es k).isSome = (childAt? settings dir es' k).isSome := by
    intro k
    by_cases hk : k = m
    · rw [hk, hsome]
    · rw [hother k hk]
  refine ⟨hlayout, hindex, ?_, ?_⟩
  · rw [← not_iff_not, ← ne_eq, ← ne_eq, childrenOf_ne_nil_iff, childrenOf_ne_nil_iff]
    simp only [hchild]
  · rw [childrenOf, childrenOf, ← hnames, List.map_filterMap, List.map_filterMap]
    refine filterMap_eq_iff (siblingNames_spec settings dir es).1 hm (fun k hk => ?_) ?_
    · rw [hother k hk]
    · rw [Option.isSome_map, Option.isSome_map, hsome]

theorem Compares.isEmpty_eq (h : Compares settings dir F es es' q) :
    (childrenOf settings dir es).isEmpty = (childrenOf settings dir es').isEmpty := by
  rw [Bool.eq_iff_iff, List.isEmpty_iff, List.isEmpty_iff, h.empty]

theorem Compares.of_isEmpty (h : Compares settings dir F es es' q)
    (hempty : (childrenOf settings dir es').isEmpty = true) : q := by
  have hnil' := List.isEmpty_iff.mp hempty
  have hnil := h.empty.mpr hnil'
  apply h.same.mp
  rw [hnil, hnil']

theorem Compares.ofViews_iff (h : Compares settings dir F es es' q) (segment : String)
    (layout page : Option String) :
    (Tree.ofViews segment layout page (childrenOf settings dir es)).mapPages F =
      (Tree.ofViews segment layout page (childrenOf settings dir es')).mapPages F ↔ q := by
  rw [mapPages_ofViews, mapPages_ofViews, ofViews_inj]
  exact h.same

/-- The children for the name of a directory compare as the listings of the directory do. -/
theorem child_compares (h : Compares settings (Path.join dir s) F sub sub' q)
    (hfirst : entryOf? settings (.directory m) es = some (.directory s sub))
    (hfirst' : entryOf? settings (.directory m) es' = some (.directory s sub'))
    (hpage : pathOf? settings dir (.page m) es = pathOf? settings dir (.page m) es')
    (hsegments : ∀ c ∈ childrenOf settings (Path.join dir s) sub, c.segment ≠ "")
    (hsegments' : ∀ c ∈ childrenOf settings (Path.join dir s) sub', c.segment ≠ "") :
    (childAt? settings dir es m).isSome = (childAt? settings dir es' m).isSome ∧
      ((childAt? settings dir es m).map (Tree.mapPages F) =
        (childAt? settings dir es' m).map (Tree.mapPages F) ↔ q) := by
  rw [childAt?_of_directory hfirst hsegments, childAt?_of_directory hfirst' hsegments', h.layout,
    h.index, hpage]
  rw [h.isEmpty_eq]
  split
  · -- both are pruned, and then both have the same children, none
    rename_i hpruned
    have hq := h.of_isEmpty (Bool.and_eq_true_iff.mp hpruned).2
    exact ⟨rfl, iff_of_true rfl hq⟩
  · refine ⟨rfl, ?_⟩
    rw [Option.map_some, Option.map_some, Option.some_inj]
    exact h.ofViews_iff _ _ _

theorem ofEntries_compares (h : Compares settings dir F es es' q) :
    (Tree.ofEntries settings dir es).mapPages F = (Tree.ofEntries settings dir es').mapPages F ↔ q := by
  rw [Tree.ofEntries, Tree.ofEntries, ofItems?_items, ofItems?_items, h.layout, h.index,
    h.isEmpty_eq]
  split
  · rename_i hpruned
    have hq := h.of_isEmpty (Bool.and_eq_true_iff.mp hpruned).2
    exact iff_of_true rfl hq
  · rw [Option.getD_some, Option.getD_some]
    exact h.ofViews_iff _ _ _

theorem name_of_entryOf? (h : entryOf? settings (.directory m) es = some (.directory s sub)) :
    (Segment.splitOrder s).2 = m := by
  obtain ⟨_, _, ⟨⟩, -, hm⟩ := role?_directory_iff.mp (entryOf?_eq_some h).2
  exact hm

theorem entered_cons_iff (h : entryOf? settings (.directory m) es = some (.directory s sub)) :
    Entered settings es (s :: ds) ↔ Entered settings sub ds := by
  constructor
  · intro hentered
    cases hentered with
    | inside first hsub =>
      obtain rfl := (name_of_entryOf? h).symm.trans (name_of_entryOf? first)
      obtain ⟨-, rfl⟩ := DirEntry.directory.inj (Option.some.inj (h.symm.trans first))
      exact hsub
  · exact .inside h

theorem mem_siblingNames_of_entryOf? (h : entryOf? settings (.directory m) es = some e) (dir : String) :
    m ∈ siblingNames settings dir es := by
  obtain ⟨he, hrole⟩ := entryOf?_eq_some h
  exact ((siblingNames_spec settings dir es).2.1 m).mpr ⟨e, he, by rw [hrole]; rfl⟩

/-- A directory of a listing has a listing itself, so its children have segments. -/
theorem below_of_entryOf? (hu : WellNamed u) (hes : Lists u n es)
    (h : entryOf? settings r es = some (.directory s sub)) (dir : String) :
    Lists u (n ++ [s]) sub ∧ ∀ c ∈ childrenOf settings dir sub, c.segment ≠ "" := by
  have hsub : Lists u (n ++ [s]) sub := by
    cases hes with
    | intro _ _ _ _ below => exact below s sub (entryOf?_eq_some h).1
  exact ⟨hsub, fun c hc => segment_ne_empty (fun e he => (hsub.steps hu e he).1) hc⟩

/-- Listings in which the directory at the end of the steps lists something else compare as its two
listings do, if it is entered at all. By induction on the steps. -/
theorem compares_relisted {new new' : List DirEntry} (hu : WellNamed u) (hu' : WellNamed u')
    (hes : Lists u n (relisted new ds es)) (hes' : Lists u' n (relisted new' ds es))
    (h : Compares settings (ds.foldl Path.join dir) F new new' q) :
    Compares settings dir F (relisted new ds es) (relisted new' ds es)
      (Entered settings es ds → q) := by
  induction ds generalizing dir n es with
  | nil => exact h.congr ⟨fun hq _ => hq, fun hq => hq .here⟩
  | cons s ds ih =>
    have hnames : siblingNames settings dir (relisted new (s :: ds) es) =
        siblingNames settings dir (relisted new' (s :: ds) es) := by
      rw [relisted, siblingNames_relist, relisted, siblingNames_relist]
    have hpath : ∀ r, pathOf? settings dir r (relisted new (s :: ds) es) =
        pathOf? settings dir r (relisted new' (s :: ds) es) := fun r => by
      rw [relisted, pathOf?_relist, relisted, pathOf?_relist]
    have hother : ∀ k, (∀ sub, entryOf? settings (.directory k) es ≠ some (.directory s sub)) →
        childAt? settings dir (relisted new (s :: ds) es) k =
          childAt? settings dir (relisted new' (s :: ds) es) k := fun k hk => by
      rw [relisted, childAt?_relist hk, relisted, childAt?_relist hk]
    by_cases hentered : ∃ m sub, entryOf? settings (.directory m) es = some (.directory s sub)
    · obtain ⟨m, sub, hfirst⟩ := hentered
      have hrelisted : ∀ new, entryOf? settings (.directory m) (relisted new (s :: ds) es) =
          some (.directory s (relisted new ds sub)) := fun new => by
        rw [relisted, entryOf?_relist, hfirst, Option.map_some, DirEntry.relist, if_pos rfl]
      obtain ⟨hsub, hsegments⟩ := below_of_entryOf? hu hes (hrelisted new) (Path.join dir s)
      obtain ⟨hsub', hsegments'⟩ := below_of_entryOf? hu' hes' (hrelisted new') (Path.join dir s)
      obtain ⟨hsome, hiff⟩ := child_compares (ih hsub hsub' h) (hrelisted new) (hrelisted new')
        (hpath _) hsegments hsegments'
      have hrest : ∀ k, k ≠ m → childAt? settings dir (relisted new (s :: ds) es) k =
          childAt? settings dir (relisted new' (s :: ds) es) k := fun k hk =>
        hother k fun _ hfirst' =>
          hk ((name_of_entryOf? hfirst').symm.trans (name_of_entryOf? hfirst))
      refine (compares_of_child hnames (mem_siblingNames_of_entryOf? (hrelisted new) dir) (hpath _)
        (hpath _) hrest hsome).congr ?_
      rw [hiff, entered_cons_iff hfirst]
    · -- an earlier directory has the name, so what this one lists is not read
      have hchildren : childrenOf settings dir (relisted new (s :: ds) es) =
          childrenOf settings dir (relisted new' (s :: ds) es) := by
        rw [childrenOf, childrenOf, hnames]
        exact List.filterMap_congr fun k _ => hother k fun sub hk => hentered ⟨k, sub, hk⟩
      refine ⟨hpath _, hpath _, by rw [hchildren], iff_of_true (by rw [hchildren]) fun h => ?_⟩
      cases h with
      | inside first _ => exact absurd ⟨_, _, first⟩ hentered

end Comparisons

theorem hollow_iff (h : Lists t n es) (dir : String) : Hollow settings es ↔
    (pathOf? settings dir .layout es).isSome ∧ childrenOf settings dir es = [] := by
  have hnil : childrenOf settings dir es = [] ↔ ∀ m, ¬ HasViews settings es m := by
    rw [← not_iff_not, ← ne_eq, childrenOf_ne_nil_iff, not_forall]
    simp only [isSome_childAt?_iff_hasViews h, not_not]
  rw [Hollow, isSome_pathOf?_iff, hnil]

theorem exists_insert_iff :
    (∃ e ∈ front ++ .file f :: back, (e.role? settings).bind Role.name? = some m) ↔
      (fileRole? settings f).bind Role.name? = some m ∨
        ∃ e ∈ front ++ back, (e.role? settings).bind Role.name? = some m := by
  have hfile : (DirEntry.file f).role? settings = fileRole? settings f := rfl
  simp only [List.mem_append, List.mem_cons, or_and_right, exists_or, exists_eq_left, hfile]
  exact or_left_comm

theorem childrenOf_insert_index (hg : fileRole? settings g = some .index)
    (hnew : ∀ e ∈ front ++ back, e.role? settings ≠ some .index) (dir : String) :
    childrenOf settings dir (front ++ .file g :: back) = childrenOf settings dir (front ++ back) := by
  have hnone : ∀ k, (fileRole? settings g).bind Role.name? ≠ some k := by
    simp [hg, Role.name?]
  have hnames : siblingNames settings dir (front ++ .file g :: back) =
      siblingNames settings dir (front ++ back) :=
    siblingNames_congr (fun k => exists_insert_iff.trans (or_iff_right (hnone k)))
      (funext fun k => rank_insert (hnone k)) dir dir
  rw [childrenOf, childrenOf, hnames]
  exact List.filterMap_congr fun k _ => childAt?_insert hg hnew (by simp) (by simp)

theorem role_of_hosts (h : Hosts settings es d sub) : (DirEntry.directory d sub).role? settings =
    some (.directory (Segment.splitOrder d).2) :=
  role?_directory h.visible

theorem entryOf?_of_hosts (h : Hosts settings es d sub) :
    entryOf? settings (.directory (Segment.splitOrder d).2) es = some (.directory d sub) := by
  cases hfirst : entryOf? settings (.directory (Segment.splitOrder d).2) es with
  | none =>
    have hnone := List.find?_eq_none.mp hfirst _ h.mem
    exact absurd (role_of_hosts h) (by simpa using hnone)
  | some e =>
    obtain ⟨he, hrole⟩ := entryOf?_eq_some hfirst
    rw [h.alone e he (by rw [hrole]; rfl)]

theorem no_page_of_hosts (h : Hosts settings es d sub) :
    ∀ e ∈ es, e.role? settings ≠ some (.page (Segment.splitOrder d).2) := by
  intro e he hrole
  obtain rfl := h.alone e he (by rw [hrole]; rfl)
  cases (role_of_hosts h).symm.trans hrole

theorem siblingNames_of_hosts (h : Hosts settings (front ++ back) d sub)
    (hf : fileRole? settings f = some (.page (Segment.splitOrder d).2))
    (horder : (DirEntry.file f).order? = (Segment.splitOrder d).1) (dir : String) :
    siblingNames settings dir (front ++ .file f :: back) =
      siblingNames settings dir (front ++ back) := by
  have hname : (fileRole? settings f).bind Role.name? = some (Segment.splitOrder d).2 := by
    rw [hf]
    rfl
  have hcounts : ((DirEntry.directory d sub).role? settings).bind Role.name? =
      some (Segment.splitOrder d).2 := by
    rw [role_of_hosts h]
    rfl
  refine siblingNames_congr (fun m => ?_) (funext fun m => ?_) dir dir
  · rw [exists_insert_iff, hname]
    refine or_iff_right_of_imp fun hm => ?_
    exact ⟨_, h.mem, hcounts.trans hm⟩
  · by_cases hm : (Segment.splitOrder d).2 = m
    · -- the file and the directory have the same number
      subst hm
      have hsame : ∀ e ∈ front ++ back, (e.role? settings).bind Role.name? =
          some (Segment.splitOrder d).2 → e.order? = (Segment.splitOrder d).1 := by
        intro e he hrole
        rw [h.alone e he hrole]
        rfl
      rw [rank_of_alone hsame ⟨_, h.mem, hcounts⟩]
      refine rank_of_alone (fun e he hrole => ?_) (exists_insert_iff.mpr (.inl hname))
      simp only [List.mem_append, List.mem_cons] at he hsame
      obtain he | rfl | he := he
      · exact hsame e (.inl he) hrole
      · exact horder
      · exact hsame e (.inr he) hrole
    · exact rank_insert (by rw [hname]; simpa using hm)

section Pages

variable {front' back' : List DirEntry} {F : String → String}

theorem childAt?_beside (h : Hosts settings (front ++ back) d sub)
    (hf : fileRole? settings f = some (.page (Segment.splitOrder d).2))
    (hsegments : ∀ c ∈ childrenOf settings (Path.join dir d) sub, c.segment ≠ "") :
    childAt? settings dir (front ++ .file f :: back) (Segment.splitOrder d).2 =
      some (if childrenOf settings (Path.join dir d) sub = []
        then Tree.leaf (Segment.normalize (Segment.splitOrder d).2) (Path.join dir f)
        else Tree.ofViews (Segment.normalize (Segment.splitOrder d).2)
          (pathOf? settings (Path.join dir d) .layout sub) (some (Path.join dir f))
          (childrenOf settings (Path.join dir d) sub)) := by
  have hnopage := no_page_of_hosts h
  have hfirst : entryOf? settings (.directory (Segment.splitOrder d).2) (front ++ .file f :: back) =
      some (.directory d sub) := by
    rw [entryOf?_insert hf hnopage, if_neg nofun, entryOf?_of_hosts h]
  have hindex : pathOf? settings (Path.join dir d) .index sub = none := by
    rw [← Option.not_isSome_iff_eq_none, isSome_pathOf?_iff]
    rintro ⟨e, he, hrole⟩
    exact h.pageless e he hrole
  rw [childAt?_of_directory hfirst hsegments, pathOf?_insert hf hnopage, if_pos rfl, hindex]
  by_cases hempty : childrenOf settings (Path.join dir d) sub = [] <;> simp [hempty]

theorem childAt?_within (h : Hosts settings es d (front' ++ back'))
    (hg : fileRole? settings g = some .index)
    (hsegments : ∀ c ∈ childrenOf settings (Path.join dir d) (front' ++ back'), c.segment ≠ "") :
    childAt? settings dir (es.map (DirEntry.relist d fun _ => front' ++ .file g :: back'))
        (Segment.splitOrder d).2 =
      some (Tree.ofViews (Segment.normalize (Segment.splitOrder d).2)
        (pathOf? settings (Path.join dir d) .layout (front' ++ back'))
        (some (Path.join (Path.join dir d) g))
        (childrenOf settings (Path.join dir d) (front' ++ back'))) := by
  have hfirst : entryOf? settings (.directory (Segment.splitOrder d).2)
      (es.map (DirEntry.relist d fun _ => front' ++ .file g :: back')) =
        some (.directory d (front' ++ .file g :: back')) := by
    rw [entryOf?_relist, entryOf?_of_hosts h, Option.map_some, DirEntry.relist, if_pos rfl]
  have hchildren := childrenOf_insert_index hg h.pageless (Path.join dir d)
  rw [childAt?_of_directory hfirst (by rwa [hchildren]), hchildren, pathOf?_insert hg h.pageless,
    pathOf?_insert hg h.pageless, if_pos rfl, if_neg nofun]
  rfl

theorem mapPages_eq_iff (hp : F p = F p') :
    (if children = [] then Tree.leaf segment p
        else Tree.ofViews segment layout (some p) children).mapPages F =
      (Tree.ofViews segment layout (some p') children).mapPages F ↔
        ¬ (layout.isSome ∧ children = []) := by
  by_cases hempty : children = []
  · rw [if_pos hempty, hempty, mapPages_leaf, mapPages_ofViews, List.map_nil, hp]
    cases layout <;> simp [Tree.ofViews, Tree.leaf]
  · rw [if_neg hempty, mapPages_ofViews, mapPages_ofViews, Option.map_some, Option.map_some, hp]
    exact iff_of_true rfl fun hboth => hempty hboth.2

/-- The entries with the page beside the directory compare with those that have it as an index page
unless the directory is hollow. -/
theorem compares_hosts (h : Hosts settings (front ++ back) d (front' ++ back'))
    (hf : fileRole? settings f = some (.page (Segment.splitOrder d).2))
    (horder : (DirEntry.file f).order? = (Segment.splitOrder d).1)
    (hg : fileRole? settings g = some .index) (ht : WellNamed t)
    (hes : Lists t n (front ++ back)) (dir : String) :
    Compares settings dir (renamed (Path.join dir f) (Path.join (Path.join dir d) g))
      (front ++ .file f :: back)
      ((front ++ back).map (DirEntry.relist d fun _ => front' ++ .file g :: back'))
      (¬ Hollow settings (front' ++ back')) := by
  have hnopage := no_page_of_hosts h
  obtain ⟨hsub, hsegments⟩ := below_of_entryOf? ht hes (entryOf?_of_hosts h) (Path.join dir d)
  have hbeside := childAt?_beside h hf hsegments
  have hwithin := childAt?_within h hg hsegments
  have hnames : siblingNames settings dir (front ++ .file f :: back) = siblingNames settings dir
      ((front ++ back).map (DirEntry.relist d fun _ => front' ++ .file g :: back')) := by
    rw [siblingNames_of_hosts h hf horder, siblingNames_relist]
  have hpath : ∀ r, r ≠ .page (Segment.splitOrder d).2 →
      pathOf? settings dir r (front ++ .file f :: back) = pathOf? settings dir r
        ((front ++ back).map (DirEntry.relist d fun _ => front' ++ .file g :: back')) := by
    intro r hr
    rw [pathOf?_insert hf hnopage, if_neg hr, pathOf?_relist]
  have hother : ∀ k, k ≠ (Segment.splitOrder d).2 →
      childAt? settings dir (front ++ .file f :: back) k = childAt? settings dir
        ((front ++ back).map (DirEntry.relist d fun _ => front' ++ .file g :: back')) k := by
    intro k hk
    rw [childAt?_insert hf hnopage nofun (by simpa using Ne.symm hk), childAt?_relist]
    exact fun _ hfirst => hk (name_of_entryOf? hfirst).symm
  have hmem : (Segment.splitOrder d).2 ∈ siblingNames settings dir (front ++ .file f :: back) :=
    mem_siblingNames (by rw [hbeside]; rfl)
  have hrenamed : renamed (Path.join dir f) (Path.join (Path.join dir d) g) (Path.join dir f) =
      renamed (Path.join dir f) (Path.join (Path.join dir d) g) (Path.join (Path.join dir d) g) := by
    simp [renamed]
  refine (compares_of_child hnames hmem (hpath _ nofun) (hpath _ nofun) hother ?_).congr ?_
  · rw [hbeside, hwithin]
    rfl
  · rw [hbeside, hwithin, Option.map_some, Option.map_some, Option.some_inj,
      mapPages_eq_iff hrenamed, hollow_iff hsub (Path.join dir d)]

end Pages

theorem isPrivate_congr (hd : d ≠ "") (h : d.toList <+: f.toList) :
    isPrivate f = isPrivate d := by
  obtain ⟨c, cs, hcs⟩ := List.exists_cons_of_ne_nil (String.toList_eq_nil_iff.not.mpr hd)
  obtain ⟨rest, hrest⟩ := h
  simp [isPrivate, Text.startsWith, ← hrest, hcs, List.isPrefixOf]

theorem fileRole?_of_hosts {extension : Option String} (h : Hosts settings es d sub) (hd : d ≠ "")
    (hf : Path.splitExtension f = (d, extension))
    (hview : settings.isViewExtension (extension.getD "") = true) :
    fileRole? settings f = some (.page (Segment.splitOrder d).2) := by
  have hprefix := Extension.stem_prefix f
  rw [hf] at hprefix
  have hprivate : isPrivate f = false := (isPrivate_congr hd hprefix).trans h.visible
  obtain ⟨hindex, hlayout, hat⟩ := h.unreserved
  have hreserved : ∀ s, Text.startsWith "@" s = true → d ≠ s := by
    rintro s hs rfl
    rw [hat] at hs
    cases hs
  simp [fileRole?, hf, hprivate, hview, hindex, hlayout, hat, hreserved "@layout" rfl,
    hreserved "@index" rfl]

section Insertion

variable {around : List DirEntry} {extension : Option String}

theorem directories_of_hosts (ht : WellNamed t) (haround : Lists t n around)
    (hd : Hosts settings around d sub) : t.node? n = some .directory ∧
      t.node? (n ++ [d]) = some .directory ∧ Lists t (n ++ [d]) sub := by
  cases haround with
  | intro _ _ _ directories below =>
    have hnode := directories d sub hd.mem
    exact ⟨ht.parents n d (by rw [hnode]; exact Option.some_ne_none _), hnode, below d sub hd.mem⟩

/-- The listing of the views with the file `f` beside the directory compares with the one that has the
index page `g` in the directory. -/
theorem insert_compares (ds : List String) (ht : WellNamed t) (hes : Lists t n es)
    (haround : Lists t (n ++ ds) around) (hd : Hosts settings around d sub) (hstep : IsStep f)
    (hf : Path.splitExtension f = (d, extension))
    (hview : settings.isViewExtension (extension.getD "") = true)
    (hfree : t.node? (n ++ ds ++ [f]) = none) (hstep' : IsStep g)
    (hg : fileRole? settings g = some .index) (hfree' : t.node? (n ++ ds ++ [d] ++ [g]) = none)
    (c c' : Contents) (dir : String) : ∃ es₁ es₂,
      Lists (t.insert (n ++ ds ++ [f]) (.file c)) n es₁ ∧
      Lists (t.insert (n ++ ds ++ [d] ++ [g]) (.file c')) n es₂ ∧
      Compares settings dir (renamed (Path.join (ds.foldl Path.join dir) f)
          (Path.join (Path.join (ds.foldl Path.join dir) d) g)) es₁ es₂
        (Entered settings es ds → ¬ Hollow settings sub) := by
  have hname : d ≠ "" := (haround.steps ht _ hd.mem).1
  obtain ⟨hparent, hnode, hsub⟩ := directories_of_hosts ht haround hd
  have hrole := fileRole?_of_hosts hd hname hf hview
  have horder : (DirEntry.file f).order? = (Segment.splitOrder d).1 := by
    rw [DirEntry.order?, hf]
  obtain ⟨front, back, rfl, haround₁⟩ := lists_insert haround hfree c
  obtain ⟨front', back', rfl, hsub₂⟩ := lists_insert hsub hfree' c'
  have hes₁ := lists_relisted hes haround₁ fun r hr => by
    rw [node?_insert t (by simp), if_neg]
    simpa only [List.append_assoc, List.append_cancel_left_eq] using hr [f] (by simp)
  have haround₂ := lists_relisted haround hsub₂ fun r hr => by
    rw [node?_insert t (by simp), if_neg]
    simpa only [List.append_assoc, List.append_cancel_left_eq] using hr [g] (by simp)
  have hes₂ := lists_relisted hes haround₂ fun r hr => by
    rw [node?_insert t (by simp), if_neg]
    simpa only [List.append_assoc, List.append_cancel_left_eq] using hr ([d] ++ [g]) (by simp)
  refine ⟨_, _, hes₁, hes₂, compares_relisted ?_ ?_ hes₁ hes₂
    (compares_hosts hd hrole horder hg ht haround (ds.foldl Path.join dir))⟩
  · exact wellNamed_insert ht hparent hfree hstep c
  · exact wellNamed_insert ht hnode hfree' hstep' c'

theorem collect_insert (ht : WellNamed t) (hdir : t.locate true dir = .found n .directory)
    {k : Name} (hk : t.node? k = some .directory) (hstep : IsStep f)
    (hfree : t.node? (k ++ [f]) = none) {c : Contents}
    (hes : Lists (t.insert (k ++ [f]) (.file c)) n es) :
    Tree.collect (t.insert (k ++ [f]) (.file c)) settings dir =
      .ok (Tree.ofEntries settings dir es) := by
  obtain ⟨es', hes', hcollect⟩ :=
    exists_lists (wellNamed_insert ht hk hfree hstep c) (locate_insert ht hk hfree c hdir)
  rw [hes.unique hes', hcollect]

/-- A directory of views that is not private nor of a reserved name, has no index page and shares its
name with no other page or directory. A view file `f` of its name beside it and an index page `g` in
it give the same tree, up to the path of that file, unless the directory is entered and has a layout
around nothing. -/
theorem beside_like_index (ds : List String) (ht : WellNamed t)
    (hdir : t.locate true dir = .found n .directory) (haround : Lists t (n ++ ds) around)
    (hd : Hosts settings around d sub) (hstep : IsStep f)
    (hf : Path.splitExtension f = (d, extension))
    (hview : settings.isViewExtension (extension.getD "") = true)
    (hfree : t.node? (n ++ ds ++ [f]) = none) (hstep' : IsStep g)
    (hg : fileRole? settings g = some .index) (hfree' : t.node? (n ++ ds ++ [d] ++ [g]) = none)
    (c c' : Contents) : ∃ es T T', Lists t n es ∧
      Tree.collect (t.insert (n ++ ds ++ [f]) (.file c)) settings dir = .ok T ∧
      Tree.collect (t.insert (n ++ ds ++ [d] ++ [g]) (.file c')) settings dir = .ok T' ∧
      (T.mapPages (renamed (Path.join (ds.foldl Path.join dir) f)
          (Path.join (Path.join (ds.foldl Path.join dir) d) g)) =
        T'.mapPages (renamed (Path.join (ds.foldl Path.join dir) f)
          (Path.join (Path.join (ds.foldl Path.join dir) d) g)) ↔
        ¬ (Entered settings es ds ∧ Hollow settings sub)) := by
  obtain ⟨es, hes, -⟩ := exists_lists ht hdir
  obtain ⟨es₁, es₂, hes₁, hes₂, hcompares⟩ :=
    insert_compares ds ht hes haround hd hstep hf hview hfree hstep' hg hfree' c c' dir
  obtain ⟨hparent, hnode, -⟩ := directories_of_hosts ht haround hd
  refine ⟨es, _, _, hes, collect_insert ht hdir hparent hstep hfree hes₁,
    collect_insert ht hdir hnode hstep' hfree' hes₂, ?_⟩
  rw [ofEntries_compares hcompares, not_and]

end Insertion

def views (names : List String) : FileTree :=
  ⟨[], (["views"], .directory) :: (["views", "about"], .directory) ::
    names.map fun s => (["views", "about", s], .file (.text ""))⟩

theorem lists_about {names : List String} (h : names.Pairwise (· < ·)) :
    Lists (views names) ["views", "about"] (names.map .file) := by
  have hnames : (names.map DirEntry.file).map DirEntry.name = names := by
    rw [List.map_map]
    exact List.map_id' names
  refine .intro (by rwa [hnames]) (fun s => ?_) (fun s _ hs => ?_) (by simp) (by simp)
  · rw [hnames]
    simp [views]
  · obtain ⟨l, l', heq, -⟩ := List.lookup_eq_some_iff.mp hs
    have hmem : (["views", "about"] ++ [s], Node.directory) ∈ (views names).entries := by
      rw [heq]
      simp
    simp [views] at hmem

theorem lists_views {names : List String} (h : names.Pairwise (· < ·)) :
    Lists (views names) ["views"] [.directory "about" (names.map .file)] := by
  refine .intro (List.pairwise_singleton _ _) (fun s => ?_) (by simp) (fun s sub hs => ?_)
    fun s sub hs => ?_
  · simp [views, DirEntry.name, eq_comm]
  · obtain ⟨rfl, -⟩ := DirEntry.directory.inj (List.mem_singleton.mp hs)
    rfl
  · obtain ⟨rfl, rfl⟩ := DirEntry.directory.inj (List.mem_singleton.mp hs)
    exact lists_about h

theorem hosts_about {names : List String} (h : ∀ s ∈ names, fileRole? {} s ≠ some .index) :
    Hosts {} [.directory "about" (names.map .file)] "about" (names.map .file) := by
  refine ⟨List.mem_singleton_self _, rfl, by decide, fun e he => ?_, fun e he _ => ?_⟩
  · obtain ⟨s, hs, rfl⟩ := List.mem_map.mp he
    exact h s hs
  · exact List.mem_singleton.mp he

/-- A layout around a page keeps the page beside the directory. -/
theorem beside_like_index_about : ∃ T T',
    Tree.collect ((views ["layout.tsx", "team.tsx"]).insert ["views", "about.tsx"]
      (.file (.text ""))) {} "views" = .ok T ∧
    Tree.collect ((views ["layout.tsx", "team.tsx"]).insert ["views", "about", "index.tsx"]
      (.file (.text ""))) {} "views" = .ok T' ∧
    T.mapPages (renamed "views/about.tsx" "views/about/index.tsx") =
      T'.mapPages (renamed "views/about.tsx" "views/about/index.tsx") := by
  have hdir : (views ["layout.tsx", "team.tsx"]).locate true "views" =
      .found ["views"] .directory := by decide
  have hsorted : ["layout.tsx", "team.tsx"].Pairwise (· < ·) := by decide
  have hindex : ∀ s ∈ ["layout.tsx", "team.tsx"], fileRole? {} s ≠ some .index := by decide
  have hname : Path.splitExtension "about.tsx" = ("about", some "tsx") := by decide
  obtain ⟨es, T, T', hes, hT, hT', hiff⟩ := beside_like_index [] (by decide) hdir
    (lists_views hsorted) (hosts_about hindex) (by decide) hname (by decide) (by decide)
    (by decide : IsStep "index.tsx") (by decide) (by decide) (.text "") (.text "")
  refine ⟨T, T', hT, hT', hiff.mpr ?_⟩
  rintro ⟨-, -, hnone⟩
  exact hnone "team" (.page ⟨.file "team.tsx", by simp, by decide⟩)

/-- A layout around nothing is lost with the page beside the directory. -/
theorem layout_lost_about : Hosts {} [.directory "about" [.file "layout.tsx"]] "about"
      [.file "layout.tsx"] ∧
    ∃ T T', Tree.collect ((views ["layout.tsx"]).insert ["views", "about.tsx"]
        (.file (.text ""))) {} "views" = .ok T ∧
      Tree.collect ((views ["layout.tsx"]).insert ["views", "about", "index.tsx"]
        (.file (.text ""))) {} "views" = .ok T' ∧
      T.mapPages (renamed "views/about.tsx" "views/about/index.tsx") ≠
        T'.mapPages (renamed "views/about.tsx" "views/about/index.tsx") := by
  have ht : WellNamed (views ["layout.tsx"]) := by decide
  have hdir : (views ["layout.tsx"]).locate true "views" = .found ["views"] .directory := by decide
  have hes : Lists (views ["layout.tsx"]) ["views"] [.directory "about" [.file "layout.tsx"]] :=
    lists_views (List.pairwise_singleton _ _)
  have hd : Hosts {} [.directory "about" [.file "layout.tsx"]] "about" [.file "layout.tsx"] :=
    hosts_about (by decide : ∀ s ∈ ["layout.tsx"], fileRole? {} s ≠ some .index)
  have hname : Path.splitExtension "about.tsx" = ("about", some "tsx") := by decide
  have hlayout : (DirEntry.file "layout.tsx").role? {} = some .layout := by decide
  have hhollow : Hollow {} [.file "layout.tsx"] := by
    refine ⟨⟨_, List.mem_singleton_self _, hlayout⟩, fun m hm => ?_⟩
    cases hm with
    | page h => simp [hlayout] at h
    | index first | inside first => simp [entryOf?, hlayout] at first
  obtain ⟨es₁, es₂, hes₁, hes₂, hcompares⟩ := insert_compares [] ht hes hes hd (by decide) hname
    (by decide) (by decide) (by decide : IsStep "index.tsx") (by decide) (by decide) (.text "")
    (.text "") "views"
  refine ⟨hd, _, _, collect_insert ht hdir (k := ["views"]) (by decide) (by decide) (by decide) hes₁,
    collect_insert ht hdir (k := ["views", "about"]) (by decide) (by decide) (by decide) hes₂, ?_⟩
  intro hsame
  exact (ofEntries_compares hcompares).mp hsame .here hhollow

end TypedClient.Proofs.SiblingPages
