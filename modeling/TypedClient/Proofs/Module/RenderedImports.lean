import TypedClient.Proofs.Module.ImportRequests
import TypedClient.Proofs.Module.ImportSyntax

namespace TypedClient.Proofs.RenderedImports

open TypedClient.Module TypedClient.Proofs.FreshName TypedClient.Proofs.ImportRequests
  TypedClient.Proofs.ImportSyntax

variable {a : Alphabet} {t : ImportTable} {i : Import} {is : List Import} {path : String}

def specifierOf (allTypes : Bool) (n : String × Import) : Specifier :=
  ⟨n.1, n.2.binding, n.2.typeOnly && !allTypes⟩

def namedDeclaration (path : String) (is : List Import) : List Declaration :=
  match ImportTable.sortedNamed is with
  | [] => []
  | named =>
    let allTypes := named.all fun n => n.2.typeOnly
    [⟨path, allTypes, .named (named.map (specifierOf allTypes))⟩]

def declarationsFrom (t : ImportTable) (path : String) : List Declaration :=
  let is := t.imports.filter fun i => i.path = path
  ((is.filter fun i => i.kind = .everything).map fun i => ⟨path, false, .everything i.binding⟩) ++
    ((is.filter fun i => i.kind = .defaultExport).map fun i =>
      ⟨path, i.typeOnly, .defaultExport i.binding⟩) ++
    namedDeclaration path is

def declarations (t : ImportTable) : List Declaration :=
  t.paths.flatMap (declarationsFrom t)

theorem toList_fromPath (path : String) : (ImportTable.fromPath path).toList =
    [⟨true, .word "from"⟩, ⟨true, .path path⟩, ⟨false, .semicolon⟩].flatMap Chunk.chars := by
  have hfront : " from \"".toList = ' ' :: "from".toList ++ [' ', '"'] := by decide
  have hback : "\";".toList = ['"', ';'] := by decide
  simp only [ImportTable.fromPath, String.toList_append, hfront, hback, Chunk.chars, Token.chars,
    List.flatMap_cons, List.flatMap_nil, if_true, Bool.false_eq_true, if_false, List.append_assoc,
    List.cons_append, List.nil_append, List.append_nil]

theorem chars_eq (d : Declaration) : d.chars = "import".toList ++
    (((if d.typeOnly then [⟨true, .word "type"⟩] else []) : List Chunk).flatMap Chunk.chars ++
      (d.clause.chunks.flatMap Chunk.chars ++ (ImportTable.fromPath d.path).toList)) := by
  rw [chars_eq_append, Declaration.chunks, List.flatMap_append, List.flatMap_append,
    toList_fromPath]

theorem toList_everything (b : String) :
    ("import * as " ++ b ++ ImportTable.fromPath path).toList =
      Declaration.chars ⟨path, false, .everything b⟩ := by
  have hfront : "import * as ".toList =
      "import".toList ++ ' ' :: '*' :: ' ' :: "as".toList ++ [' '] := by decide
  rw [String.toList_append, String.toList_append, hfront, chars_eq]
  generalize "import".toList = w
  simp [Clause.chunks, Chunk.chars, Token.chars]

theorem toList_keyword (typeOnly : Bool) : (ImportTable.keyword typeOnly).toList =
    "import".toList ++ ((if typeOnly then [⟨true, .word "type"⟩] else []) : List Chunk).flatMap
      Chunk.chars := by
  cases typeOnly with
  | true =>
    have htype : "import type".toList = "import".toList ++ ' ' :: "type".toList := by decide
    simp only [ImportTable.keyword, htype, Chunk.chars, Token.chars, if_true, List.flatMap_cons,
      List.flatMap_nil, List.append_nil, List.singleton_append]
  | false =>
    simp only [ImportTable.keyword, Bool.false_eq_true, if_false, List.flatMap_nil, List.append_nil]

theorem toList_default (typeOnly : Bool) (b : String) :
    (ImportTable.keyword typeOnly ++ " " ++ b ++ ImportTable.fromPath path).toList =
      Declaration.chars ⟨path, typeOnly, .defaultExport b⟩ := by
  have hblank : " ".toList = [' '] := by decide
  rw [String.toList_append, String.toList_append, String.toList_append, toList_keyword, hblank,
    chars_eq]
  generalize "import".toList = w
  simp [Clause.chunks, Chunk.chars, Token.chars]

theorem toList_specifier (allTypes : Bool) (n : String × Import) :
    ' ' :: (ImportTable.specifier allTypes n.1 n.2).toList =
      (specifierOf allTypes n).chunks.flatMap Chunk.chars := by
  have htype : "type ".toList = "type".toList ++ [' '] := by decide
  have has : " as ".toList = ' ' :: "as".toList ++ [' '] := by decide
  have hempty : "".toList = [] := by decide
  rw [ImportTable.specifier, specifierOf, Specifier.chunks]
  cases (n.2.typeOnly && !allTypes) <;> by_cases hsame : n.1 = n.2.binding <;>
    simp only [hsame, htype, has, hempty, String.toList_append, Chunk.chars, Token.chars,
      List.flatMap_cons, List.flatMap_nil, if_true, if_false, Bool.false_eq_true, List.append_assoc,
      List.cons_append, List.nil_append, List.append_nil]

theorem cons_intercalate {c d : Char} {ls : List (List Char)} (h : ls ≠ []) :
    d :: [c, d].intercalate ls = [c].intercalate (ls.map (d :: ·)) := by
  induction ls with
  | nil => exact absurd rfl h
  | cons l ls ih =>
    cases ls with
    | nil => simp
    | cons l' ls =>
      have hrest := ih (List.cons_ne_nil l' ls)
      rw [List.map_cons, List.map_cons, List.intercalate_cons_cons, List.intercalate_cons_cons,
        ← List.map_cons, ← hrest]
      simp

theorem toList_named {named : List (String × Import)} (h : named ≠ []) (allTypes : Bool) :
    (ImportTable.keyword allTypes ++ " \x7b " ++
      ", ".intercalate (named.map fun n => ImportTable.specifier allTypes n.1 n.2) ++ " \x7d" ++
        ImportTable.fromPath path).toList =
      Declaration.chars ⟨path, allTypes, .named (named.map (specifierOf allTypes))⟩ := by
  have hopen : " \x7b ".toList = [' ', '{'] ++ [' '] := by decide
  have hclose : " \x7d".toList = [' ', '}'] := by decide
  have hcomma : ", ".toList = [',', ' '] := by decide
  have hinner : [' '] ++ [',', ' '].intercalate
      ((named.map fun n => ImportTable.specifier allTypes n.1 n.2).map String.toList) =
      ([⟨false, .comma⟩].intercalate
        ((named.map (specifierOf allTypes)).map Specifier.chunks)).flatMap Chunk.chars := by
    rw [flatMap_intercalate, List.singleton_append, cons_intercalate (by simpa using h)]
    simp only [List.map_map, Function.comp_def, toList_specifier]
    rfl
  simp only [chars_eq, String.toList_append, String.toList_intercalate, toList_keyword, hopen,
    hclose, hcomma]
  simp only [Clause.chunks, List.flatMap_append, List.flatMap_cons, ← hinner]
  generalize "import".toList = w, [',', ' '].intercalate _ = inner
  simp [Chunk.chars, Token.chars]

theorem toList_pathStatements (t : ImportTable) (path : String) :
    (t.pathStatements path).map String.toList =
      (declarationsFrom t path).map Declaration.chars := by
  have hnamed : ∀ is, (ImportTable.namedStatement path is).map String.toList =
      (namedDeclaration path is).map Declaration.chars := by
    intro is
    rw [ImportTable.namedStatement, namedDeclaration]
    cases ImportTable.sortedNamed is with
    | nil => rfl
    | cons n named =>
      simp only [List.map_singleton]
      rw [toList_named (List.cons_ne_nil n named)]
  simp only [ImportTable.pathStatements, declarationsFrom, List.map_append, List.map_map, hnamed,
    Function.comp_def, toList_everything, toList_default]

theorem toList_statements (t : ImportTable) :
    t.statements.map String.toList = (declarations t).map Declaration.chars := by
  rw [ImportTable.statements, declarations, List.map_flatMap, List.map_flatMap]
  simp only [toList_pathStatements]

theorem kind_of_exported? {n : String × Import}
    (h : (i.kind.exported?.map fun m => (m, i)) = some n) : n.2 = i ∧ i.kind = .named n.1 := by
  obtain ⟨m, hm, rfl⟩ := Option.map_eq_some_iff.mp h
  refine ⟨rfl, ?_⟩
  cases hkind : i.kind with
  | named exported =>
    rw [hkind] at hm
    rw [Option.some.inj hm]
  | defaultExport | everything =>
    rw [hkind] at hm
    cases hm

theorem mem_sortedNamed {n : String × Import} : n ∈ ImportTable.sortedNamed is ↔
    n.2 ∈ is ∧ n.2.kind = .named n.1 := by
  rw [ImportTable.sortedNamed, List.mem_mergeSort, List.mem_filterMap]
  constructor
  · rintro ⟨i, hi, hn⟩
    obtain ⟨rfl, hkind⟩ := kind_of_exported? hn
    exact ⟨hi, hkind⟩
  · rintro ⟨hi, hkind⟩
    exact ⟨n.2, hi, by simp [hkind, ImportKind.exported?]⟩

theorem mem_namedDeclaration {d : Declaration} (h : d ∈ namedDeclaration path is) :
    ImportTable.sortedNamed is ≠ [] ∧ d = ⟨path,
      (ImportTable.sortedNamed is).all fun n => n.2.typeOnly,
      .named ((ImportTable.sortedNamed is).map
        (specifierOf ((ImportTable.sortedNamed is).all fun n => n.2.typeOnly)))⟩ := by
  rw [namedDeclaration] at h
  cases hnamed : ImportTable.sortedNamed is with
  | nil =>
    rw [hnamed] at h
    cases h
  | cons n named =>
    rw [hnamed] at h
    exact ⟨List.cons_ne_nil n named, List.mem_singleton.mp h⟩

theorem mem_declarations {d : Declaration} (h : d ∈ declarations t) :
    (∃ i ∈ t.imports, i.kind = .everything ∧ d = ⟨i.path, false, .everything i.binding⟩) ∨
      (∃ i ∈ t.imports, i.kind = .defaultExport ∧
        d = ⟨i.path, i.typeOnly, .defaultExport i.binding⟩) ∨
      ∃ path ∈ t.paths, d ∈ namedDeclaration path (t.imports.filter fun i => i.path = path) := by
  obtain ⟨path, hpath, hd⟩ := List.mem_flatMap.mp h
  simp only [declarationsFrom, List.mem_append, List.mem_map, List.mem_filter,
    decide_eq_true_eq] at hd
  obtain (⟨i, ⟨⟨hi, rfl⟩, hkind⟩, rfl⟩ | ⟨i, ⟨⟨hi, rfl⟩, hkind⟩, rfl⟩) | hd := hd
  · exact .inl ⟨i, hi, hkind, rfl⟩
  · exact .inr (.inl ⟨i, hi, hkind, rfl⟩)
  · exact .inr (.inr ⟨path, hpath, hd⟩)

theorem mem_paths : path ∈ t.paths ↔ ∃ i ∈ t.imports, i.path = path := by
  rw [ImportTable.paths, List.mem_eraseDups, List.mem_map]

theorem binding_fits {es : List Event} (h : Consistent es t) (hi : i ∈ t.imports) :
    a.IsName i.binding ∧ isBindable i.binding = true := by
  obtain ⟨e, he, -, hanswer⟩ := h.requested i hi
  obtain ⟨hname, hreserved⟩ := h.names e he _ hanswer
  exact ⟨isName_of_isIdentifier hname, isBindable_of_not_reserved hreserved⟩

theorem declarations_fit {es : List Event} (h : Consistent es t)
    (hpaths : ∀ i ∈ t.imports, ∀ c ∈ i.path.toList, isPlain c = true)
    (hnames : ∀ i ∈ t.imports, ∀ n, i.kind = .named n → a.IsName n) :
    ∀ d ∈ declarations t, d.Fits a := by
  intro d hd
  obtain ⟨i, hi, -, rfl⟩ | ⟨i, hi, -, rfl⟩ | ⟨path, hpath, hd⟩ := mem_declarations hd
  · exact ⟨hpaths i hi, binding_fits h hi, nofun⟩
  · exact ⟨hpaths i hi, binding_fits h hi, fun _ => rfl⟩
  · obtain ⟨hne, rfl⟩ := mem_namedDeclaration hd
    obtain ⟨i, hi, rfl⟩ := mem_paths.mp hpath
    refine ⟨hpaths i hi, ⟨by simpa using hne, ?_⟩, fun hall => ?_⟩
    · intro s hs
      obtain ⟨n, hn, rfl⟩ := List.mem_map.mp hs
      obtain ⟨hmem, hkind⟩ := mem_sortedNamed.mp hn
      have hmem := (List.mem_filter.mp hmem).1
      obtain ⟨hname, hbindable⟩ : a.IsName n.2.binding ∧ isBindable n.2.binding = true :=
        binding_fits h hmem
      exact ⟨hnames _ hmem _ hkind, hname, hbindable⟩
    · dsimp only at hall
      simp [Clause.hasType, specifierOf, hall]

theorem imports_named {named : List (String × Import)}
    (h : ∀ n ∈ named, n.2.path = path ∧ n.2.kind = .named n.1) :
    let allTypes := named.all fun n => n.2.typeOnly
    Declaration.imports ⟨path, allTypes, .named (named.map (specifierOf allTypes))⟩ =
      named.map Prod.snd := by
  intro allTypes
  simp only [Declaration.imports, List.map_map]
  refine List.map_congr_left fun n hn => ?_
  obtain ⟨hpath, hkind⟩ := h n hn
  have htype : (allTypes || (n.2.typeOnly && !allTypes)) = n.2.typeOnly := by
    cases hall : allTypes with
    | false => simp
    | true => simpa using (List.all_eq_true.mp hall n hn).symm
  obtain ⟨exported, p, k, b, typeOnly⟩ := n
  simp_all [specifierOf]

theorem flatMap_imports_namedDeclaration (h : ∀ i ∈ is, i.path = path) :
    (namedDeclaration path is).flatMap Declaration.imports =
      (ImportTable.sortedNamed is).map Prod.snd := by
  have hall : ∀ n ∈ ImportTable.sortedNamed is, n.2.path = path ∧ n.2.kind = .named n.1 := by
    intro n hn
    obtain ⟨hmem, hkind⟩ := mem_sortedNamed.mp hn
    exact ⟨h _ hmem, hkind⟩
  rw [namedDeclaration]
  cases hnamed : ImportTable.sortedNamed is with
  | nil => rfl
  | cons n named =>
    rw [hnamed] at hall
    simp only [List.flatMap_singleton]
    exact imports_named hall

theorem sortedNamed_perm (is : List Import) : ((ImportTable.sortedNamed is).map Prod.snd).Perm
    (is.filter fun i => i.kind.exported?.isSome) := by
  refine ((List.mergeSort_perm _ _).map Prod.snd).trans (List.Perm.of_eq ?_)
  rw [List.map_filterMap]
  induction is with
  | nil => rfl
  | cons i is ih =>
    rw [List.filterMap_cons, List.filter_cons, ih]
    cases i.kind <;> rfl

theorem kinds_perm (is : List Import) : (is.filter (fun i => i.kind = .everything) ++
    is.filter (fun i => i.kind = .defaultExport) ++
    is.filter (fun i => i.kind.exported?.isSome)).Perm is := by
  induction is with
  | nil => exact .refl _
  | cons i is ih =>
    cases hkind : i.kind with
    | everything => simpa [hkind, ImportKind.exported?] using ih
    | defaultExport =>
      have hmid : (is.filter (fun i => i.kind = .everything) ++
          i :: (is.filter (fun i => i.kind = .defaultExport) ++
            is.filter (fun i => i.kind.exported?.isSome))).Perm (i :: _) := List.perm_middle
      simpa [hkind, ImportKind.exported?] using hmid.trans (by simpa using ih.cons i)
    | named n =>
      have hmid : (is.filter (fun i => i.kind = .everything) ++
          is.filter (fun i => i.kind = .defaultExport) ++
            i :: is.filter (fun i => i.kind.exported?.isSome)).Perm (i :: _) := List.perm_middle
      simpa [hkind, ImportKind.exported?] using hmid.trans (by simpa using ih.cons i)

/-- The parts of a list that keys tell apart make the list, each key taken once. -/
theorem flatMap_filter_perm {α β : Type} [DecidableEq β] (key : α → β) {l : List α} (hl : l.Nodup)
    {ks : List β} (hks : ks.Nodup) (hmem : ∀ x ∈ l, key x ∈ ks) :
    (ks.flatMap fun k => l.filter fun x => key x = k).Perm l := by
  refine (List.perm_ext_iff_of_nodup ?_ hl).mpr fun x => ?_
  · rw [List.nodup_flatMap]
    refine ⟨fun k _ => hl.filter _, hks.imp fun hne x hx hx' => hne ?_⟩
    have hx := (List.mem_filter.mp hx).2
    have hx' := (List.mem_filter.mp hx').2
    simp only [decide_eq_true_eq] at hx hx'
    exact hx.symm.trans hx'
  · rw [List.mem_flatMap]
    constructor
    · rintro ⟨k, -, hx⟩
      exact (List.mem_filter.mp hx).1
    · exact fun hx => ⟨key x, hmem x hx, List.mem_filter.mpr ⟨hx, by simp⟩⟩

theorem idxOf_lt_of_filter {α : Type} [DecidableEq α] {p : α → Bool} {x y : α} {l : List α}
    (hx : p x = true) (hy : p y = true) (h : (l.filter p).idxOf x < (l.filter p).idxOf y) :
    l.idxOf x < l.idxOf y := by
  induction l with
  | nil => cases h
  | cons b l ih =>
    by_cases hbx : b = x
    · subst hbx
      have hby : b ≠ y := by
        rintro rfl
        exact Nat.lt_irrefl _ h
      rw [List.idxOf_cons_self, List.idxOf_cons_ne l hby]
      exact Nat.succ_pos _
    · by_cases hb : p b = true
      · rw [List.filter_cons_of_pos hb, List.idxOf_cons_ne _ hbx] at h
        by_cases hby : b = y
        · rw [hby, List.idxOf_cons_self] at h
          exact absurd h (Nat.not_lt_zero _)
        · rw [List.idxOf_cons_ne _ hby] at h
          rw [List.idxOf_cons_ne _ hbx, List.idxOf_cons_ne _ hby]
          exact Nat.succ_lt_succ (ih (Nat.lt_of_succ_lt_succ h))
      · have hby : b ≠ y := fun he => hb (he ▸ hy)
        rw [List.filter_cons_of_neg hb] at h
        rw [List.idxOf_cons_ne _ hbx, List.idxOf_cons_ne _ hby]
        exact Nat.succ_lt_succ (ih h)

/-- Without doubles the members keep the order of their first places. By recursion on the list
without its first member. -/
theorem pairwise_eraseDups {α : Type} [DecidableEq α] (l : List α) :
    l.eraseDups.Pairwise fun x y => l.idxOf x < l.idxOf y := by
  match l with
  | [] => exact .nil
  | b :: l =>
    rw [List.eraseDups_cons, List.pairwise_cons]
    have hrest := pairwise_eraseDups (l.filter fun x => !x == b)
    have hmem : ∀ x ∈ (l.filter fun x => !x == b).eraseDups, (!x == b) = true ∧ b ≠ x := by
      intro x hx
      have hx := (List.mem_filter.mp (List.mem_eraseDups.mp hx)).2
      exact ⟨hx, fun he => by simp [he] at hx⟩
    refine ⟨fun x hx => ?_, hrest.imp_of_mem fun hx hy h => ?_⟩
    · rw [List.idxOf_cons_self, List.idxOf_cons_ne l (hmem x hx).2]
      exact Nat.succ_pos _
    · obtain ⟨hx, hbx⟩ := hmem _ hx
      obtain ⟨hy, hby⟩ := hmem _ hy
      rw [List.idxOf_cons_ne l hbx, List.idxOf_cons_ne l hby]
      exact Nat.succ_lt_succ (idxOf_lt_of_filter (p := fun x => !x == b) hx hy h)
termination_by l.length
decreasing_by exact Nat.lt_succ_of_le (List.length_filter_le _ _)

def firstUse (t : ImportTable) (path : String) : Nat :=
  (t.imports.map Import.path).idxOf path

theorem pairwise_paths (t : ImportTable) :
    t.paths.Pairwise fun p q => firstUse t p < firstUse t q :=
  pairwise_eraseDups _

theorem nodup_paths (t : ImportTable) : t.paths.Nodup := by
  refine (pairwise_paths t).imp fun h => ?_
  rintro rfl
  exact Nat.lt_irrefl _ h

theorem typeOnly_everything {es : List Event} (h : Consistent es t) (hi : i ∈ t.imports)
    (hkind : i.kind = .everything) : i.typeOnly = false := by
  obtain ⟨e, he, hkey, -⟩ := h.requested i hi
  rw [hkind] at hkey
  have hrequest : e.request.typeOnly = false := by
    cases hr : e.request with
    | namespaceImport => rfl
    | valueImport => rfl
    | reserve | release | defaultImport | namedImport => rw [hr] at hkey; cases hkey
  by_contra htype
  have hall := (h.typeOnly i hi).mp (by simpa using htype) e he (hkind ▸ hkey)
  rw [hrequest] at hall
  cases hall

theorem imports_declarationsFrom_perm {es : List Event} (h : Consistent es t) (path : String) :
    ((declarationsFrom t path).flatMap Declaration.imports).Perm
      (t.imports.filter fun i => i.path = path) := by
  have hpath : ∀ i ∈ t.imports.filter fun i => i.path = path, i ∈ t.imports ∧ i.path = path := by
    intro i hi
    simpa using List.mem_filter.mp hi
  generalize hfrom : (t.imports.filter fun i => i.path = path) = is at hpath
  have heverything : (is.filter fun i => i.kind = .everything).flatMap (fun i =>
      Declaration.imports ⟨path, false, .everything i.binding⟩) =
        is.filter fun i => i.kind = .everything := by
    refine (List.flatMap_congr fun i hi => ?_).trans (List.flatMap_singleton' _)
    obtain ⟨hi, hkind⟩ := List.mem_filter.mp hi
    have hkind : i.kind = .everything := by simpa using hkind
    have htype := typeOnly_everything h (hpath i hi).1 hkind
    obtain ⟨p, k, b, typeOnly⟩ := i
    have hp : p = path := (hpath _ hi).2
    simp_all [Declaration.imports]
  have hdefault : (is.filter fun i => i.kind = .defaultExport).flatMap (fun i =>
      Declaration.imports ⟨path, i.typeOnly, .defaultExport i.binding⟩) =
        is.filter fun i => i.kind = .defaultExport := by
    refine (List.flatMap_congr fun i hi => ?_).trans (List.flatMap_singleton' _)
    obtain ⟨hi, hkind⟩ := List.mem_filter.mp hi
    obtain ⟨p, k, b, typeOnly⟩ := i
    have hp : p = path := (hpath _ hi).2
    simp_all [Declaration.imports]
  rw [declarationsFrom, hfrom]
  simp only [List.flatMap_append, List.flatMap_map]
  rw [heverything, hdefault, flatMap_imports_namedDeclaration fun i hi => (hpath i hi).2]
  exact ((sortedNamed_perm is).append_left _).trans (kinds_perm is)

theorem imports_declarations_perm {es : List Event} (h : Consistent es t) :
    ((declarations t).flatMap Declaration.imports).Perm t.imports := by
  rw [declarations, List.flatMap_assoc]
  refine (List.Perm.flatMap_left _ fun path _ => imports_declarationsFrom_perm h path).trans ?_
  exact flatMap_filter_perm Import.path (.of_map _ h.keys) (nodup_paths t)
    fun i hi => mem_paths.mpr ⟨i, hi, rfl⟩

def rank : Clause → Nat
  | .everything _ => 0
  | .defaultExport _ => 1
  | .named _ => 2

/-- One declaration stands before another: its path was used first before that of the other, or it
is for the same path and its clause comes first. -/
def Precedes (t : ImportTable) (d e : Declaration) : Prop :=
  firstUse t d.path < firstUse t e.path ∨ d.path = e.path ∧ rank d.clause < rank e.clause

theorem path_of_mem {d : Declaration} (h : d ∈ declarationsFrom t path) : d.path = path := by
  simp only [declarationsFrom, List.mem_append, List.mem_map] at h
  obtain (⟨i, -, rfl⟩ | ⟨i, -, rfl⟩) | h := h
  · rfl
  · rfl
  · rw [(mem_namedDeclaration h).2]

theorem pairwise_kinds {es : List Event} (h : Consistent es t) (path : String) :
    (t.imports.filter fun i => i.path = path).Pairwise fun i j => i.kind ≠ j.kind := by
  have hkeys := (List.pairwise_map.mp h.keys).filter fun i => i.path = path
  refine hkeys.imp_of_mem fun hi hj hne hkind => hne ?_
  have hi := (List.mem_filter.mp hi).2
  have hj := (List.mem_filter.mp hj).2
  simp only [decide_eq_true_eq] at hi hj
  rw [hi, hj, hkind]

theorem pairwise_filter_kind {R : Import → Import → Prop}
    (h : is.Pairwise fun i j => i.kind ≠ j.kind) (k : ImportKind) :
    (is.filter fun i => i.kind = k).Pairwise R := by
  refine (h.filter _).imp_of_mem fun hi hj hne => absurd ?_ hne
  have hi := (List.mem_filter.mp hi).2
  have hj := (List.mem_filter.mp hj).2
  simp only [decide_eq_true_eq] at hi hj
  exact hi.trans hj.symm

theorem pairwise_namedDeclaration (path : String) (is : List Import)
    (R : Declaration → Declaration → Prop) : (namedDeclaration path is).Pairwise R := by
  rw [namedDeclaration]
  cases ImportTable.sortedNamed is with
  | nil => exact .nil
  | cons n named => exact List.pairwise_singleton _ _

theorem pairwise_declarationsFrom {es : List Event} (h : Consistent es t) (path : String) :
    (declarationsFrom t path).Pairwise fun d e => rank d.clause < rank e.clause := by
  have hkinds := pairwise_kinds h path
  have hnamed : ∀ d ∈ namedDeclaration path (t.imports.filter fun i => i.path = path),
      rank d.clause = 2 := by
    intro d hd
    rw [(mem_namedDeclaration hd).2]
    rfl
  rw [declarationsFrom, List.pairwise_append, List.pairwise_append, List.pairwise_map,
    List.pairwise_map]
  refine ⟨⟨pairwise_filter_kind hkinds _, pairwise_filter_kind hkinds _, ?_⟩,
    pairwise_namedDeclaration _ _ _, fun d hd e he => ?_⟩
  · intro d hd e he
    obtain ⟨i, -, rfl⟩ := List.mem_map.mp hd
    obtain ⟨j, -, rfl⟩ := List.mem_map.mp he
    exact Nat.zero_lt_one
  · rw [hnamed e he]
    obtain hd | hd := List.mem_append.mp hd
    · obtain ⟨i, -, rfl⟩ := List.mem_map.mp hd
      exact Nat.zero_lt_two
    · obtain ⟨i, -, rfl⟩ := List.mem_map.mp hd
      exact Nat.one_lt_two

theorem pairwise_declarations {es : List Event} (h : Consistent es t) :
    (declarations t).Pairwise (Precedes t) := by
  rw [declarations, List.pairwise_flatMap]
  constructor
  · intro path _
    refine (pairwise_declarationsFrom h path).imp_of_mem fun hd he hrank => ?_
    exact .inr ⟨(path_of_mem hd).trans (path_of_mem he).symm, hrank⟩
  · refine (pairwise_paths t).imp fun hfirst d hd e he => ?_
    rw [← path_of_mem hd, ← path_of_mem he] at hfirst
    exact .inl hfirst

theorem pairwise_sortedNamed (h : is.Pairwise fun i j => i.kind ≠ j.kind) :
    (ImportTable.sortedNamed is).Pairwise fun m n => m.1 < n.1 := by
  have hle : (ImportTable.sortedNamed is).Pairwise fun m n => m.1 ≤ n.1 := by
    refine (List.pairwise_mergeSort (fun m n o hmn hno => ?_) (fun m n => ?_) _).imp fun hmn => ?_
    · simp only [decide_eq_true_eq] at hmn hno ⊢
      exact String.le_trans hmn hno
    · simpa using String.le_total m.1 n.1
    · simpa using hmn
  have hne : (ImportTable.sortedNamed is).Pairwise fun m n => m.1 ≠ n.1 := by
    rw [ImportTable.sortedNamed,
      (List.mergeSort_perm _ _).pairwise_iff (fun hmn => Ne.symm hmn), List.pairwise_filterMap]
    refine h.imp fun hkind m hm n hn he => hkind ?_
    rw [(kind_of_exported? hm).2, (kind_of_exported? hn).2, he]
  exact hle.imp₂ (fun m n hmn hne => String.not_le.mp fun hnm => hne (String.le_antisymm hmn hnm))
    hne

/-- The named imports of a declaration stand in the order of what they take, each once. -/
def Sorted (d : Declaration) : Prop :=
  ∀ ss, d.clause = .named ss → (ss.map Specifier.exported).Pairwise (· < ·)

theorem declarations_sorted {es : List Event} (h : Consistent es t) :
    ∀ d ∈ declarations t, Sorted d := by
  intro d hd ss hss
  obtain ⟨i, -, -, rfl⟩ | ⟨i, -, -, rfl⟩ | ⟨path, -, hd⟩ := mem_declarations hd
  · cases hss
  · cases hss
  · rw [(mem_namedDeclaration hd).2] at hss
    rw [← Clause.named.inj hss, List.map_map, List.pairwise_map]
    exact pairwise_sortedNamed (pairwise_kinds h path)

theorem map_read? {texts : List String} {ds : List Declaration} (hfits : ∀ d ∈ ds, d.Fits a)
    (h : texts.map String.toList = ds.map Declaration.chars) :
    texts.map (Declaration.read? a) = ds.map some := by
  induction ds generalizing texts with
  | nil =>
    obtain rfl := List.map_eq_nil_iff.mp h
    rfl
  | cons d ds ih =>
    obtain ⟨hd, hds⟩ := List.forall_mem_cons.mp hfits
    obtain ⟨text, texts, rfl, htext, htexts⟩ := List.map_eq_cons_iff.mp h
    rw [List.map_cons, List.map_cons, read?_chars hd htext, ih hds htexts]

/-- After any requests of the empty table, its statements read back are declarations that import
every import of the table once and nothing else: those from one path stand together, the paths in
the order of first use, and for a path all exports come before the default export and that before
one declaration of the named exports, which are sorted. The paths are to need no escapes, and the
exports are to be names. -/
theorem statements_read_back (a : Alphabet) (rs : List Request)
    (hpaths : ∀ i ∈ (run rs).2.imports, ∀ c ∈ i.path.toList, isPlain c = true)
    (hnames : ∀ i ∈ (run rs).2.imports, ∀ n, i.kind = .named n → a.IsName n) :
    ∃ ds : List Declaration,
      (run rs).2.statements.map (Declaration.read? a) = ds.map some ∧
        (ds.flatMap Declaration.imports).Perm (run rs).2.imports ∧
        ((run rs).2.imports.map fun i => (i.path, i.kind)).Nodup ∧
        ds.Pairwise (Precedes (run rs).2) ∧ ∀ d ∈ ds, Sorted d := by
  have h := run_consistent rs
  refine ⟨declarations (run rs).2, ?_, imports_declarations_perm h, h.keys,
    pairwise_declarations h, declarations_sorted h⟩
  exact map_read? (declarations_fit h hpaths hnames) (toList_statements _)

def ascii : Alphabet where
  starts c := Identifier.isPart c && !Text.isDigit c
  continues := Identifier.isPart
  starts_of_isPart c hc hdigit := by rw [hc, hdigit]; rfl
  continues_of_isPart _ hc := hc
  starts_blank c hc := by
    simp only [Char.isWhitespace, Bool.or_eq_true, decide_eq_true_eq] at hc
    obtain ((rfl | rfl) | rfl) | rfl := hc <;> decide
  apart c hc := by
    simp only [List.mem_cons, List.not_mem_nil, or_false] at hc
    obtain rfl | rfl | rfl | rfl | rfl | rfl | rfl := hc <;> decide

/-- Requests of every kind: a default export under the name `type`, a named one under another name,
and a type that is asked for as a value too. -/
def mixed : List Request :=
  [.namedImport "./form.js" "Model" true, .defaultImport "./type.js" "type" true,
    .namedImport "./form.js" "delete" false, .namespaceImport "./form.js" "Form",
    .namedImport "./form.js" "Binder" true, .valueImport "./form.js" "Binder" false]

def mixedImports : List Import :=
  [⟨"./form.js", .named "Model", "Model", true⟩, ⟨"./type.js", .defaultExport, "type", true⟩,
    ⟨"./form.js", .named "delete", "delete_1", false⟩, ⟨"./form.js", .everything, "Form", false⟩,
    ⟨"./form.js", .named "Binder", "Binder", false⟩]

theorem mixed_read_back : ∃ ds : List Declaration,
    (run mixed).2.statements.map (Declaration.read? ascii) = ds.map some ∧
      (ds.flatMap Declaration.imports).Perm mixedImports := by
  have himports : (run mixed).2.imports = mixedImports := by decide +kernel
  have hmodel : ascii.IsName "Model" :=
    isName_of_isIdentifier (isIdentifier_of_sanitize (by decide +kernel))
  have hdelete : ascii.IsName "delete" :=
    isName_of_isIdentifier (isIdentifier_of_sanitize (by decide +kernel))
  have hbinder : ascii.IsName "Binder" :=
    isName_of_isIdentifier (isIdentifier_of_sanitize (by decide +kernel))
  have hnames : ∀ i ∈ (run mixed).2.imports, ∀ n, i.kind = .named n → ascii.IsName n := by
    intro i hi n hn
    simp only [himports, mixedImports, List.mem_cons, List.not_mem_nil, or_false] at hi
    obtain rfl | rfl | rfl | rfl | rfl := hi <;> cases hn
    · exact hmodel
    · exact hdelete
    · exact hbinder
  have hpaths : ∀ i ∈ (run mixed).2.imports, ∀ c ∈ i.path.toList, isPlain c = true := by
    simp only [himports, ← List.all_eq_true]
    decide +kernel
  obtain ⟨ds, hread, hperm, -⟩ := statements_read_back ascii mixed hpaths hnames
  exact ⟨ds, hread, himports ▸ hperm⟩

end TypedClient.Proofs.RenderedImports
