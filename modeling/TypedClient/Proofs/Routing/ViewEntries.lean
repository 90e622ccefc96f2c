import TypedClient.Proofs.Routing.Candidates

namespace TypedClient.Routing

open Collection Text

inductive Role
  | layout
  | index
  | page (name : String)
  | directory (name : String)
deriving DecidableEq, Repr

def Role.name? : Role → Option String
  | page name => some name
  | directory name => some name
  | _ => none

/-- What a file is: nothing if it is private, no view or has a reserved name. -/
def fileRole? (settings : Settings) (name : String) : Option Role :=
  let (stem, extension) := Path.splitExtension name
  if isPrivate name || !settings.isViewExtension (extension.getD "") then none
  else if stem = "layout" || stem = "@layout" then some .layout
  else if stem = "index" || stem = "@index" then some .index
  else if startsWith "@" stem then none
  else some (.page (Segment.splitOrder stem).2)

namespace DirEntry

def role? (settings : Settings) : DirEntry → Option Role
  | file name => fileRole? settings name
  | directory name _ =>
    if isPrivate name then none else some (.directory (Segment.splitOrder name).2)

def order? : DirEntry → Option Nat
  | file name => (Segment.splitOrder (Path.splitExtension name).1).1
  | directory name _ => (Segment.splitOrder name).1

def tree? (settings : Settings) (dir : String) : DirEntry → Option Tree
  | file _ => none
  | directory name entries => ofItems? (Segment.normalize (Segment.splitOrder name).2)
      (items settings (Path.join dir name) entries)

end DirEntry

def Role.item (settings : Settings) (dir : String) (e : DirEntry) : Role → Item
  | layout => .layout (Path.join dir e.name)
  | index => .index (Path.join dir e.name)
  | page name => .page e.order? name (Path.join dir e.name)
  | directory name => .directory e.order? name (e.tree? settings dir)

def entryOf? (settings : Settings) (r : Role) (es : List DirEntry) : Option DirEntry :=
  es.find? fun e => e.role? settings = some r

def rank (settings : Settings) (es : List DirEntry) (name : String) : Option Nat :=
  es.findSome? fun e => if (e.role? settings).bind Role.name? = some name then e.order? else none

end TypedClient.Routing

namespace TypedClient.Proofs.ViewEntries

open TypedClient.Routing TypedClient.Routing.Collection TypedClient.Proofs.Candidates

variable {settings : Settings} {dir name : String} {e : DirEntry} {es : List DirEntry} {r : Role}

theorem item?_eq (e : DirEntry) :
    item? settings dir e = (e.role? settings).map (Role.item settings dir e) := by
  cases e with
  | file name =>
    unfold item? fileItem? DirEntry.role? fileRole?
    dsimp only
    split
    · rfl
    split
    · rfl
    split
    · rfl
    split <;> rfl
  | directory name entries =>
    unfold item? DirEntry.role?
    dsimp only
    split <;> rfl

theorem items_eq (es : List DirEntry) : items settings dir es = es.filterMap (item? settings dir) := by
  induction es with
  | nil => rfl
  | cons e es ih =>
    rw [items, ih, List.filterMap_cons]
    cases item? settings dir e <;> rfl

theorem mem_items {i : Item} : i ∈ items settings dir es ↔
    ∃ e ∈ es, ∃ r, e.role? settings = some r ∧ r.item settings dir e = i := by
  rw [items_eq, List.mem_filterMap]
  simp only [item?_eq, Option.map_eq_some_iff]

theorem name?_item (r : Role) (e : DirEntry) : (r.item settings dir e).name? = r.name? := by
  cases r <;> rfl

theorem findSome?_items {α : Type} (f : Item → Option α) (es : List DirEntry) :
    (items settings dir es).findSome? f =
      es.findSome? fun e => (e.role? settings).bind fun r => f (r.item settings dir e) := by
  rw [items_eq]
  induction es with
  | nil => rfl
  | cons e es ih =>
    rw [List.filterMap_cons, List.findSome?_cons, ← ih, item?_eq]
    cases e.role? settings with
    | none => rfl
    | some r => rfl

theorem findSome?_eq_entryOf? {α : Type} (f : DirEntry → α) (r : Role) (es : List DirEntry)
    (g : DirEntry → Option α)
    (hg : ∀ e, g e = if e.role? settings = some r then some (f e) else none) :
    es.findSome? g = (entryOf? settings r es).map f := by
  rw [entryOf?]
  induction es with
  | nil => rfl
  | cons e es ih =>
    rw [List.findSome?_cons, List.find?_cons, hg, ih]
    by_cases he : e.role? settings = some r
    · rw [if_pos he, decide_eq_true he]
      rfl
    · rw [if_neg he, decide_eq_false he]

theorem first?_order (es : List DirEntry) (name : String) :
    first? Item.order? name (items settings dir es) = rank settings es name := by
  rw [first?, findSome?_items, rank]
  congr 1
  funext e
  cases e.role? settings with
  | none => rfl
  | some r =>
    rw [Option.bind_some, Option.bind_some, name?_item]
    cases r <;> rfl

theorem findSome?_layout (es : List DirEntry) :
    (items settings dir es).findSome? Item.layout? =
      (entryOf? settings .layout es).map fun e => Path.join dir e.name := by
  rw [findSome?_items]
  refine findSome?_eq_entryOf? _ _ _ _ fun e => ?_
  cases e.role? settings with
  | none => rfl
  | some r => cases r <;> rfl

theorem findSome?_index (es : List DirEntry) :
    (items settings dir es).findSome? Item.index? =
      (entryOf? settings .index es).map fun e => Path.join dir e.name := by
  rw [findSome?_items]
  refine findSome?_eq_entryOf? _ _ _ _ fun e => ?_
  cases e.role? settings with
  | none => rfl
  | some r => cases r <;> rfl

theorem first?_page (es : List DirEntry) (name : String) :
    first? Item.page? name (items settings dir es) =
      (entryOf? settings (.page name) es).map fun e => Path.join dir e.name := by
  rw [first?, findSome?_items]
  refine findSome?_eq_entryOf? _ _ _ _ fun e => ?_
  cases e.role? settings with
  | none => rfl
  | some r => cases r <;> simp [Role.item, Item.name?, Item.page?]

theorem first?_directory (es : List DirEntry) (name : String) :
    first? Item.directory? name (items settings dir es) =
      (entryOf? settings (.directory name) es).map fun e => e.tree? settings dir := by
  rw [first?, findSome?_items]
  refine findSome?_eq_entryOf? _ _ _ _ fun e => ?_
  cases e.role? settings with
  | none => rfl
  | some r => cases r <;> simp [Role.item, Item.name?, Item.directory?]

end TypedClient.Proofs.ViewEntries
