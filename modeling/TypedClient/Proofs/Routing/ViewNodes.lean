import TypedClient.Proofs.Path.Extension
import TypedClient.Proofs.Routing.ViewEntries

namespace TypedClient.Routing

open Collection

def Tree.ofViews (segment : String) (layout page : Option String) (children : List Tree) : Tree :=
  if layout.isSome then { segment, layout, children := (page.map (leaf "")).toList ++ children }
  else { segment, page, children }

def pathOf? (settings : Settings) (dir : String) (r : Role) (es : List DirEntry) : Option String :=
  (entryOf? settings r es).map fun e => Path.join dir e.name

def childAt? (settings : Settings) (dir : String) (es : List DirEntry) (name : String) : Option Tree :=
  let segment := Segment.normalize name
  match entryOf? settings (.directory name) es, pathOf? settings dir (.page name) es with
  | some e, some page => some (addPage ((e.tree? settings dir).getD { segment }) page)
  | some e, none => e.tree? settings dir
  | none, page => page.map (Tree.leaf segment)

def siblingNames (settings : Settings) (dir : String) (es : List DirEntry) : List String :=
  ((candidates (items settings dir es)).mergeSort precedes).map Candidate.name

def childrenOf (settings : Settings) (dir : String) (es : List DirEntry) : List Tree :=
  (siblingNames settings dir es).filterMap (childAt? settings dir es)

end TypedClient.Routing

namespace TypedClient.Proofs.ViewNodes

open TypedClient.Text TypedClient.Routing TypedClient.Routing.Collection
open TypedClient.Proofs.Candidates TypedClient.Proofs.ViewEntries

variable {settings : Settings} {dir name segment : String} {es : List DirEntry} {e : DirEntry}
  {layout page : Option String} {children : List Tree} {c t : Tree}

@[simp] theorem segment_ofViews : (Tree.ofViews segment layout page children).segment = segment := by
  rw [Tree.ofViews]
  split <;> rfl

@[simp] theorem layout_ofViews : (Tree.ofViews segment layout page children).layout = layout := by
  cases layout <;> rfl

theorem page_ofViews :
    (Tree.ofViews segment layout page children).page = if layout.isSome then none else page := by
  cases layout <;> rfl

theorem children_ofViews : (Tree.ofViews segment layout page children).children =
    (if layout.isSome then (page.map (Tree.leaf "")).toList else []) ++ children := by
  cases layout <;> rfl

theorem ofItems?_eq (items : List Item) : ofItems? segment items =
    let children := ((candidates items).mergeSort precedes).filterMap Candidate.tree?
    if (items.findSome? Item.index?).isNone && children.isEmpty then none
    else some (Tree.ofViews segment (items.findSome? Item.layout?) (items.findSome? Item.index?)
      children) := by
  unfold ofItems?
  dsimp only
  cases items.findSome? Item.layout? <;> cases items.findSome? Item.index? <;> rfl

theorem tree?_gathered (es : List DirEntry) (name : String) :
    (gathered (items settings dir es) name).tree? = childAt? settings dir es name := by
  rw [Candidate.tree?, childAt?, gathered, first?_directory, first?_page, pathOf?]
  cases entryOf? settings (.directory name) es <;>
    cases entryOf? settings (.page name) es <;> rfl

theorem ofItems?_items (segment : String) : ofItems? segment (items settings dir es) =
    if (pathOf? settings dir .index es).isNone && (childrenOf settings dir es).isEmpty then none
    else some (Tree.ofViews segment (pathOf? settings dir .layout es) (pathOf? settings dir .index es)
      (childrenOf settings dir es)) := by
  have hchildren : ((candidates (items settings dir es)).mergeSort precedes).filterMap
      Candidate.tree? = childrenOf settings dir es := by
    obtain ⟨names, -, -, -, heq⟩ := siblings_eq (items settings dir es)
    rw [childrenOf, siblingNames, heq, List.map_map, List.filterMap_map, List.filterMap_map]
    exact List.filterMap_congr fun m _ => tree?_gathered es m
  rw [ofItems?_eq, hchildren, findSome?_layout, findSome?_index]
  rfl

/-- The names of children are those that pages and directories count under, each once and in the
order of siblings. -/
theorem siblingNames_spec (settings : Settings) (dir : String) (es : List DirEntry) :
    (siblingNames settings dir es).Nodup ∧
      (∀ m, m ∈ siblingNames settings dir es ↔
        ∃ e ∈ es, (e.role? settings).bind Role.name? = some m) ∧
      (siblingNames settings dir es).Pairwise (Before (rank settings es)) := by
  obtain ⟨names, hnodup, hmem, hsorted, heq⟩ := siblings_eq (items settings dir es)
  have hrank : (fun m => first? Item.order? m (items settings dir es)) = rank settings es :=
    funext fun m => first?_order es m
  have hnames : siblingNames settings dir es = names := by
    rw [siblingNames, heq, List.map_map]
    exact List.map_id' names
  rw [hnames]
  refine ⟨hnodup, fun m => ?_, hrank ▸ hsorted⟩
  rw [hmem]
  constructor
  · rintro ⟨i, hi, hname⟩
    obtain ⟨e, he, r, hr, rfl⟩ := mem_items.mp hi
    exact ⟨e, he, by rw [hr, Option.bind_some, ← hname, name?_item]⟩
  · rintro ⟨e, he, hname⟩
    obtain ⟨r, hr, hname⟩ := Option.bind_eq_some_iff.mp hname
    exact ⟨_, mem_items.mpr ⟨e, he, r, hr, rfl⟩, (name?_item r e).trans hname⟩

theorem entryOf?_eq_some {r : Role} (h : entryOf? settings r es = some e) :
    e ∈ es ∧ e.role? settings = some r :=
  ⟨List.mem_of_find?_eq_some h, by simpa using List.find?_some h⟩

theorem role?_directory_iff : e.role? settings = some (.directory name) ↔
    ∃ d sub, e = .directory d sub ∧ isPrivate d = false ∧ (Segment.splitOrder d).2 = name := by
  cases e with
  | file f =>
    simp only [DirEntry.role?, fileRole?, reduceCtorEq, false_and, exists_false, iff_false]
    split_ifs <;> simp
  | directory d sub => simp [DirEntry.role?]

/-- A page beside a directory stands where its index page would, unless it has one. -/
theorem addPage_ofViews (hchildren : ∀ c ∈ children, c.segment ≠ "") (file : String) :
    addPage (Tree.ofViews segment layout page children) file =
      Tree.ofViews segment layout (page.or (some file)) children := by
  have hhead : (children.head?.map Tree.segment) ≠ some "" := by
    intro h
    obtain ⟨c, hc, hsegment⟩ := Option.map_eq_some_iff.mp h
    exact hchildren c (List.mem_of_head? hc) hsegment
  cases layout <;> cases page <;> simp [addPage, Tree.ofViews, hhead, Tree.leaf]

theorem segment_childAt? (h : childAt? settings dir es name = some c) :
    c.segment = Segment.normalize name := by
  have hadd : ∀ t page, (addPage t page).segment = t.segment := by
    intro t page
    unfold addPage
    split_ifs <;> rfl
  have htree : ∀ e t, entryOf? settings (.directory name) es = some e →
      e.tree? settings dir = some t → t.segment = Segment.normalize name := by
    intro e t he ht
    obtain ⟨d, sub, rfl, -, rfl⟩ := role?_directory_iff.mp (entryOf?_eq_some he).2
    rw [DirEntry.tree?, ofItems?_items, Option.ite_none_left_eq_some] at ht
    rw [← Option.some.inj ht.2, segment_ofViews]
  unfold childAt? at h
  split at h
  · rename_i e page he hpage
    rw [← Option.some.inj h, hadd]
    cases ht : e.tree? settings dir with
    | none => rfl
    | some t => exact htree e t he ht
  · rename_i e he hpage
    exact htree e c he h
  · obtain ⟨page, -, rfl⟩ := Option.map_eq_some_iff.mp h
    rfl

theorem replaceAll_ne_nil {r : Regex} {f : Cursor → List Char} (hf : ∀ k, f k ≠ []) {cs : List Char}
    (hcs : cs ≠ []) : r.replaceAll f cs ≠ [] := by
  cases cs with
  | nil => exact absurd rfl hcs
  | cons c cs =>
    rw [Regex.replaceAll, Regex.replaceFrom]
    split
    · split
      · exact List.append_ne_nil_of_left_ne_nil (hf _) _
      · exact List.cons_ne_nil _ _
    · exact List.cons_ne_nil _ _

theorem normalize_ne_empty (h : name ≠ "") : Segment.normalize name ≠ "" := by
  have hexchange : ∀ (r : Regex) before after (cs : List Char), before ≠ [] → cs ≠ [] →
      Segment.exchange r before after cs ≠ [] := fun r before after cs hbefore hcs =>
    replaceAll_ne_nil (fun _ => List.append_ne_nil_of_left_ne_nil
      (List.append_ne_nil_of_left_ne_nil hbefore _) _) hcs
  rw [Segment.normalize, ne_eq, String.ofList_eq_empty_iff, Segment.normalizeChars]
  refine hexchange _ _ _ _ (List.cons_ne_nil _ _) (hexchange _ _ _ _ (List.cons_ne_nil _ _)
    (hexchange _ _ _ _ (List.cons_ne_nil _ _) ?_))
  rwa [ne_eq, String.toList_eq_nil_iff]

theorem splitOrder_ne_empty (h : name ≠ "") : (Segment.splitOrder name).2 ≠ "" := by
  unfold Segment.splitOrder
  dsimp only
  split
  · split_ifs
    · split
      · simp
      · exact h
    · exact h
  · exact h

theorem name_ne_empty (he : e.name ≠ "") (h : (e.role? settings).bind Role.name? = some name) :
    name ≠ "" := by
  cases e with
  | file f =>
    simp only [DirEntry.role?, fileRole?] at h
    split_ifs at h
    · cases h
    · cases h
    · cases h
    · cases h
    · exact Option.some.inj h ▸ splitOrder_ne_empty (Extension.stem_ne_empty he)
  | directory d sub =>
    simp only [DirEntry.role?] at h
    split_ifs at h
    · cases h
    · exact Option.some.inj h ▸ splitOrder_ne_empty he

theorem segment_ne_empty (hes : ∀ e ∈ es, e.name ≠ "") (hc : c ∈ childrenOf settings dir es) :
    c.segment ≠ "" := by
  obtain ⟨m, hm, hc⟩ := List.mem_filterMap.mp hc
  obtain ⟨e, he, hname⟩ := ((siblingNames_spec settings dir es).2.1 m).mp hm
  rw [segment_childAt? hc]
  exact normalize_ne_empty (name_ne_empty (hes e he) hname)

/-- The child for the name of a directory: its node, with the page beside it, or that page alone if
the directory has no views. -/
theorem childAt?_of_directory {d : String} {sub : List DirEntry}
    (hfirst : entryOf? settings (.directory name) es = some (.directory d sub))
    (hsegments : ∀ c ∈ childrenOf settings (Path.join dir d) sub, c.segment ≠ "") :
    childAt? settings dir es name =
      if (pathOf? settings (Path.join dir d) .index sub).isNone &&
        (childrenOf settings (Path.join dir d) sub).isEmpty
      then (pathOf? settings dir (.page name) es).map (Tree.leaf (Segment.normalize name))
      else some (Tree.ofViews (Segment.normalize name) (pathOf? settings (Path.join dir d) .layout sub)
        ((pathOf? settings (Path.join dir d) .index sub).or (pathOf? settings dir (.page name) es))
        (childrenOf settings (Path.join dir d) sub)) := by
  obtain ⟨_, _, ⟨⟩, -, hname⟩ := role?_directory_iff.mp (entryOf?_eq_some hfirst).2
  have htree : (DirEntry.directory d sub).tree? settings dir =
      ofItems? (Segment.normalize name) (items settings (Path.join dir d) sub) := by
    rw [DirEntry.tree?, hname]
  cases hpage : pathOf? settings dir (.page name) es with
  | none =>
    simp only [childAt?, hfirst, hpage, htree, ofItems?_items]
    split <;> simp
  | some page =>
    simp only [childAt?, hfirst, hpage, htree, ofItems?_items]
    split
    · rfl
    · rw [Option.getD_some, addPage_ofViews hsegments]

end TypedClient.Proofs.ViewNodes
