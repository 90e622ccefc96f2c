import Mathlib.Data.List.Induction
import TypedClient.Document.Reading
import TypedClient.Proofs.Module.FreshName

namespace TypedClient.Proofs.DeclaredOperations

open TypedClient.Document TypedClient.Identifier TypedClient.Text TypedClient.Proofs.FreshName

/-- An operation as a document declares it: a member of a path item whose key is a method. -/
structure Declaration where
  path : String
  item : List (String × Json)
  key : String
  operation : Json

namespace Declaration

def service (c : Declaration) : String :=
  serviceName c.path c.operation

def read (c : Declaration) : Operation :=
  readOperation c.path (lower c.key) c.service (c.item.lookup "parameters") c.operation

end Declaration

def itemDeclarations (path : String) (item : List (String × Json)) : List Declaration :=
  (item.filter fun m => methods.contains (lower m.1)).map fun m => ⟨path, item, m.1, m.2⟩

def declarations (doc : Json) : List Declaration :=
  (((doc.get? "paths").bind Json.object?).getD []).flatMap fun p =>
    itemDeclarations p.1 (p.2.object?.getD [])

def declarationsFor (doc : Json) (service : String) : List Declaration :=
  (declarations doc).filter fun c => c.service = service

/-- The name of an operation for which one is derived: that name itself, or the one with the least
number that no earlier operation has. -/
def NameFor (Used : String → Prop) (derived name : String) : Prop :=
  (¬ Used derived ∧ name = derived) ∨
    (Used derived ∧ ∃ n, 1 ≤ n ∧ name = numbered derived n ∧ ¬ Used name ∧
      ∀ k, 1 ≤ k → k < n → Used (numbered derived k))

variable {doc : Json} {d : Document} {s : Service} {ss : List Service} {ops : List Operation}
  {os : List (String × Operation)}

section Declarations

theorem mem_getD_object? {o : Option Json} {m : String × Json} :
    m ∈ (o.bind Json.object?).getD [] ↔ ∃ ms, o = some (.object ms) ∧ m ∈ ms := by
  constructor
  · intro h
    cases ho : o.bind Json.object? with
    | none =>
      rw [ho] at h
      cases h
    | some ms =>
      rw [ho] at h
      obtain ⟨j, rfl, hj⟩ := Option.bind_eq_some_iff.mp ho
      cases j with
      | object ms' =>
        cases hj
        exact ⟨ms, rfl, h⟩
      | _ => cases hj
  · rintro ⟨ms, rfl, h⟩
    exact h

/-- What is declared are just the pairs of a path item and a key of it that is a method. -/
theorem mem_declarations_iff {c : Declaration} :
    c ∈ declarations doc ↔ ∃ paths, doc.get? "paths" = some (.object paths) ∧
      (c.path, .object c.item) ∈ paths ∧ (c.key, c.operation) ∈ c.item ∧
      lower c.key ∈ methods := by
  obtain ⟨path, item, key, operation⟩ := c
  rw [declarations, List.mem_flatMap]
  constructor
  · rintro ⟨⟨path', value⟩, hpath, h⟩
    obtain ⟨paths, hpaths, hvalue⟩ := mem_getD_object?.mp hpath
    obtain ⟨m, hm, heq⟩ := List.mem_map.mp h
    obtain ⟨hm, hmethod⟩ := List.mem_filter.mp hm
    obtain ⟨rfl, hitem, rfl, rfl⟩ := Declaration.mk.inj heq
    cases value with
    | object ms =>
      obtain rfl : ms = item := hitem
      exact ⟨paths, hpaths, hvalue, hm, List.contains_iff_mem.mp hmethod⟩
    | _ => cases hm
  · rintro ⟨paths, hpaths, hitem, hkey, hmethod⟩
    refine ⟨_, mem_getD_object?.mpr ⟨paths, hpaths, hitem⟩, ?_⟩
    exact List.mem_map.mpr ⟨_, List.mem_filter.mpr ⟨hkey, List.contains_iff_mem.mpr hmethod⟩, rfl⟩

theorem itemOperations_eq (path : String) (item : Json) :
    itemOperations path item =
      (itemDeclarations path (item.object?.getD [])).map fun c => (c.service, c.read) := by
  cases item with
  | object ms =>
    rw [itemOperations, itemDeclarations, List.map_map, ← List.filterMap_eq_map,
      List.filterMap_filter]
    rfl
  | _ => rfl

theorem allOperations_eq (doc : Json) :
    allOperations doc = (declarations doc).map fun c => (c.service, c.read) := by
  rw [allOperations, declarations, List.map_flatMap]
  exact congrArg (List.flatMap · _) (funext fun p => itemOperations_eq p.1 p.2)

end Declarations

section Grouping

structure Grouped (os : List (String × Operation)) (ss : List Service) : Prop where
  distinct : (ss.map Service.name).Nodup
  covers : ∀ o ∈ os, o.1 ∈ ss.map Service.name
  operations : ∀ s ∈ ss, s.operations = (os.filter fun o => o.1 = s.name).map Prod.snd

theorem addOperation_cases (name : String) (op : Operation) (ss : List Service) :
    (∃ before s after, ss = before ++ s :: after ∧ s.name = name ∧ addOperation name op ss =
        before ++ { s with operations := s.operations ++ [op] } :: after) ∨
      (name ∉ ss.map Service.name ∧ addOperation name op ss = ss ++ [⟨name, [op]⟩]) := by
  induction ss with
  | nil => exact .inr ⟨nofun, rfl⟩
  | cons s ss ih =>
    rw [addOperation]
    split
    · rename_i hs
      exact .inl ⟨[], s, ss, rfl, hs, rfl⟩
    · rename_i hs
      obtain ⟨before, t, after, rfl, ht, hadd⟩ | ⟨hnew, hadd⟩ := ih
      · exact .inl ⟨s :: before, t, after, rfl, ht, by rw [hadd, List.cons_append]⟩
      · refine .inr ⟨?_, by rw [hadd, List.cons_append]⟩
        rw [List.map_cons, List.mem_cons, not_or]
        exact ⟨Ne.symm hs, hnew⟩

theorem filter_append_other {o : String × Operation} {name : String} (h : o.1 ≠ name) :
    (os ++ [o]).filter (fun o => o.1 = name) = os.filter fun o => o.1 = name := by
  simp [List.filter_append, h]

theorem filter_append_own (o : String × Operation) :
    ((os ++ [o]).filter fun p => p.1 = o.1).map Prod.snd =
      ((os.filter fun p => p.1 = o.1).map Prod.snd) ++ [o.2] := by
  simp [List.filter_append]

theorem Grouped.addOperation (h : Grouped os ss) (o : String × Operation) :
    Grouped (os ++ [o]) (addOperation o.1 o.2 ss) := by
  obtain ⟨before, s, after, rfl, hname, hadd⟩ | ⟨hnew, hadd⟩ := addOperation_cases o.1 o.2 ss
  · have hnames : (Document.addOperation o.1 o.2 (before ++ s :: after)).map Service.name =
        (before ++ s :: after).map Service.name := by
      rw [hadd, List.map_append, List.map_append]
      rfl
    have hdistinct := h.distinct
    rw [List.map_append, List.map_cons, List.nodup_middle, List.nodup_cons, ← List.map_append]
      at hdistinct
    refine ⟨hnames ▸ h.distinct, ?_, fun t ht => ?_⟩
    · rw [hnames, List.forall_mem_append, List.forall_mem_singleton, ← hname]
      exact ⟨h.covers, List.mem_map_of_mem (List.mem_append_right _ List.mem_cons_self)⟩
    · rw [hadd] at ht
      obtain rfl | ht := List.mem_cons.mp (List.perm_middle.mem_iff.mp ht)
      · -- the service that has the name gets the operation behind its others
        have hs := h.operations s (List.mem_append_right _ List.mem_cons_self)
        simp only [hs, hname, filter_append_own]
      · have hne : o.1 ≠ t.name := fun heq =>
          hdistinct.1 (hname.trans heq ▸ List.mem_map_of_mem ht)
        rw [filter_append_other hne]
        exact h.operations t (List.perm_middle.mem_iff.mpr (List.mem_cons_of_mem s ht))
  · have hnone : os.filter (fun p => p.1 = o.1) = [] := by
      refine List.filter_eq_nil_iff.mpr fun p hp heq => hnew ?_
      exact of_decide_eq_true heq ▸ h.covers p hp
    rw [hadd]
    refine ⟨?_, ?_, fun t ht => ?_⟩
    · rw [List.map_append]
      exact h.distinct.append (List.nodup_singleton _) (List.disjoint_singleton.mpr hnew)
    · rw [List.map_append, List.forall_mem_append, List.forall_mem_singleton]
      exact ⟨fun p hp => List.mem_append_left _ (h.covers p hp),
        List.mem_append_right _ (List.mem_singleton_self o.1)⟩
    · obtain ht | ht := List.mem_append.mp ht
      · rw [filter_append_other fun heq => hnew (heq ▸ List.mem_map_of_mem ht)]
        exact h.operations t ht
      · obtain rfl := List.mem_singleton.mp ht
        rw [filter_append_own, hnone]
        rfl

theorem grouped_foldl (os : List (String × Operation)) :
    Grouped os (os.foldl (fun ss o => addOperation o.1 o.2 ss) []) := by
  induction os using List.reverseRecOn with
  | nil => exact ⟨List.nodup_nil, nofun, nofun⟩
  | append_singleton os o ih =>
    rw [List.foldl_append]
    exact ih.addOperation o

/-- Lists of what has one key each, for distinct keys that are all there are, make up the whole. -/
theorem perm_flatMap_filter {α : Type} (key : α → String) {names : List String} {as : List α}
    (hnames : names.Nodup) (hcovers : ∀ a ∈ as, key a ∈ names) :
    (names.flatMap fun n => as.filter fun a => key a = n).Perm as := by
  induction names generalizing as with
  | nil =>
    cases as with
    | nil => exact .refl []
    | cons a as => cases hcovers a List.mem_cons_self
  | cons n names ih =>
    obtain ⟨hn, hnames⟩ := List.nodup_cons.mp hnames
    -- the other keys find the same in what does not have the first
    have hothers : (names.flatMap fun m => as.filter fun a => key a = m) =
        names.flatMap fun m => (as.filter fun a => ¬ key a = n).filter fun a => key a = m := by
      refine List.flatMap_congr fun m hm => ?_
      rw [List.filter_filter]
      refine List.filter_congr fun a _ => ?_
      have hne : key a = m → key a ≠ n := fun hm' hn' => hn (hn' ▸ hm' ▸ hm)
      simpa using hne
    have hrest : ∀ a ∈ as.filter fun a => ¬ key a = n, key a ∈ names := fun a ha => by
      obtain ⟨ha, hne⟩ := List.mem_filter.mp ha
      exact (List.mem_cons.mp (hcovers a ha)).resolve_left (of_decide_eq_true hne)
    rw [List.flatMap_cons, hothers]
    refine ((ih hnames hrest).append_left _).trans ?_
    simpa using List.filter_append_perm (fun a => decide (key a = n)) as

end Grouping

section Names

theorem nameFor_unique (taken : List String) (derived : String) :
    NameFor (· ∈ taken) derived (unique taken derived) := by
  rw [unique]
  by_cases h : derived ∈ taken
  · obtain ⟨n, hn, he, hfree, hleast⟩ := firstFree_eq taken derived
    rw [if_pos (List.contains_iff_mem.mpr h)]
    exact .inr ⟨h, n, hn, he, he ▸ hfree, hleast⟩
  · rw [if_neg (by simpa using h)]
    exact .inl ⟨h, rfl⟩

theorem NameFor.congr {Used Used' : String → Prop} {derived name : String}
    (h : NameFor Used derived name) (hused : ∀ n, Used n ↔ Used' n) :
    NameFor Used' derived name := by
  obtain rfl : Used = Used' := funext fun n => propext (hused n)
  exact h

theorem distinctNames_cons (taken : List String) (op : Operation) (ops : List Operation) :
    distinctNames taken (op :: ops) =
      { op with name := unique taken op.name } ::
        distinctNames (unique taken op.name :: taken) ops :=
  rfl

theorem forall₂_distinctNames (taken : List String) (ops : List Operation) :
    List.Forall₂ (fun op op' => ∃ name, op' = { op with name }) ops (distinctNames taken ops) := by
  induction ops generalizing taken with
  | nil => exact .nil
  | cons op ops ih => exact .cons ⟨_, rfl⟩ (ih _)

theorem names_distinctNames (taken : List String) (ops : List Operation) :
    (distinctNames taken ops).map Operation.name = uniques taken (ops.map Operation.name) := by
  induction ops generalizing taken with
  | nil => rfl
  | cons op ops ih => exact congrArg (_ :: ·) (ih _)

/-- An operation is renamed and nothing else, by what the earlier ones are called. -/
theorem distinctNames_getElem? (taken : List String) {i : Nat} {op : Operation}
    (h : ops[i]? = some op) : ∃ name, (distinctNames taken ops)[i]? = some { op with name } ∧
      NameFor (fun n => n ∈ taken ∨ n ∈ ((distinctNames taken ops).take i).map Operation.name)
        op.name name := by
  induction ops generalizing taken i with
  | nil => cases h
  | cons o ops ih =>
    rw [distinctNames_cons]
    cases i with
    | zero =>
      obtain rfl := Option.some.inj h
      exact ⟨_, rfl, (nameFor_unique taken o.name).congr fun n => by simp⟩
    | succ i =>
      rw [List.getElem?_cons_succ] at h
      obtain ⟨name, hname, hfor⟩ := ih (unique taken o.name :: taken) h
      refine ⟨name, hname, hfor.congr fun n => ?_⟩
      rw [List.take_succ_cons, List.map_cons, List.mem_cons, List.mem_cons]
      tauto

end Names

theorem exists_document (h : startsWith "3." ((doc.getString? "openapi").getD "") = true) :
    ∃ d, Document.ofJson doc = .ok d := by
  rw [Document.ofJson]
  dsimp only
  rw [if_pos h]
  exact ⟨_, rfl⟩

theorem parts_of_ofJson (h : Document.ofJson doc = .ok d) :
    d.services = readServices doc ∧ d.entities = readEntities doc := by
  rw [Document.ofJson] at h
  dsimp only at h
  split at h
  · cases h
    exact ⟨rfl, rfl⟩
  · cases h

theorem services_eq_readServices (h : Document.ofJson doc = .ok d) :
    d.services = readServices doc :=
  (parts_of_ofJson h).1

theorem exists_grouped (h : Document.ofJson doc = .ok d) :
    ∃ ss, Grouped (allOperations doc) ss ∧
      d.services = ss.map fun s => { s with operations := distinctNames [] s.operations } :=
  ⟨_, grouped_foldl _, services_eq_readServices h⟩

theorem Grouped.operations_eq (h : Grouped (allOperations doc) ss) (hs : s ∈ ss) :
    s.operations = (declarationsFor doc s.name).map Declaration.read := by
  rw [h.operations s hs, allOperations_eq, List.filter_map, List.map_map]
  rfl

/-- The operation at a place of a service is read from the declaration at that place, and only its
name may differ. -/
theorem operation_of_declaration (h : Document.ofJson doc = .ok d) (hs : s ∈ d.services) {i : Nat}
    {c : Declaration} (hc : (declarationsFor doc s.name)[i]? = some c) :
    ∃ name, s.operations[i]? = some { c.read with name } ∧
      NameFor (· ∈ (s.operations.take i).map Operation.name) c.read.name name := by
  obtain ⟨ss, hgrouped, hservices⟩ := exists_grouped h
  rw [hservices] at hs
  obtain ⟨t, ht, rfl⟩ := List.mem_map.mp hs
  have hread : t.operations[i]? = some c.read := by
    rw [hgrouped.operations_eq ht, List.getElem?_map, hc, Option.map_some]
  obtain ⟨name, hname, hfor⟩ := distinctNames_getElem? [] hread
  exact ⟨name, hname, hfor.congr fun n => by simp⟩

/-- A service has an operation for each of its declarations, in their order. -/
theorem forall₂_operations (h : Document.ofJson doc = .ok d) (hs : s ∈ d.services) :
    List.Forall₂ (fun c op => ∃ name, op = { c.read with name }) (declarationsFor doc s.name)
      s.operations := by
  obtain ⟨ss, hgrouped, hservices⟩ := exists_grouped h
  rw [hservices] at hs
  obtain ⟨t, ht, rfl⟩ := List.mem_map.mp hs
  have hrenamed := forall₂_distinctNames [] t.operations
  conv at hrenamed => arg 2; rw [hgrouped.operations_eq ht]
  exact List.forall₂_map_left_iff.mp hrenamed

theorem exists_declaration {op : Operation} (h : Document.ofJson doc = .ok d) (hs : s ∈ d.services)
    (hop : op ∈ s.operations) : ∃ c ∈ declarations doc, ∃ name, op = { c.read with name } := by
  obtain ⟨i, hi, rfl⟩ := List.mem_iff_getElem.mp hop
  have hoperations := forall₂_operations h hs
  have hlength : i < (declarationsFor doc s.name).length := hoperations.length_eq ▸ hi
  exact ⟨_, List.mem_of_mem_filter (List.getElem_mem hlength), hoperations.get hlength hi⟩

/-- Every document of version 3 has services, with distinct names, and their declarations together are
all that the document declares, each once. A service has one operation for each of its declarations, in
the order of the document; its operations have distinct names, and each has the name that is derived for
it unless an earlier one has taken that. -/
theorem services_extracted (hversion : startsWith "3." ((doc.getString? "openapi").getD "") = true) :
    ∃ d, Document.ofJson doc = .ok d ∧ (d.services.map Service.name).Nodup ∧
      (d.services.flatMap fun s => declarationsFor doc s.name).Perm (declarations doc) ∧
      ∀ s ∈ d.services,
        s.operations.length = (declarationsFor doc s.name).length ∧
        (s.operations.map Operation.name).Nodup ∧
        ∀ i c, (declarationsFor doc s.name)[i]? = some c →
          ∃ name, s.operations[i]? = some { c.read with name } ∧
            NameFor (· ∈ (s.operations.take i).map Operation.name) c.read.name name := by
  obtain ⟨d, h⟩ := exists_document hversion
  obtain ⟨ss, hgrouped, hservices⟩ := exists_grouped h
  have hnames : d.services.map Service.name = ss.map Service.name := by
    rw [hservices, List.map_map]
    rfl
  have hdistinct : (d.services.map Service.name).Nodup := hnames ▸ hgrouped.distinct
  have hcovers : ∀ c ∈ declarations doc, c.service ∈ d.services.map Service.name := by
    intro c hc
    rw [hnames]
    refine hgrouped.covers (c.service, c.read) ?_
    rw [allOperations_eq]
    exact List.mem_map_of_mem hc
  refine ⟨d, h, hdistinct, ?_, fun s hs => ⟨?_, ?_, fun i c hc => ?_⟩⟩
  · have hperm := perm_flatMap_filter Declaration.service hdistinct hcovers
    rwa [List.flatMap_map] at hperm
  · exact (forall₂_operations h hs).length_eq.symm
  · rw [hservices] at hs
    obtain ⟨t, ht, rfl⟩ := List.mem_map.mp hs
    rw [names_distinctNames]
    exact (nodup_uniques [] _).1
  · exact operation_of_declaration h hs hc

/-- A document whose path items have a method in two cases, and an operation with a name that is also
made for another. -/
def finds : Json :=
  .object [("openapi", .string "3.1.0"), ("paths", .object
    [("/Orders/find", .object
        [("parameters", .array []), ("GET", .object []), ("get", .object [])]),
      ("/Items/find", .object [("Post", .object [])]),
      ("/Notes/find", .string "no path item"),
      ("/Orders/find_1", .object [("get", .object [])])])]

theorem finds_extracted : startsWith "3." ((finds.getString? "openapi").getD "") = true ∧
    ∃ d, Document.ofJson finds = .ok d ∧
    (d.services.map Service.name).Nodup ∧
    (d.services.flatMap fun s => declarationsFor finds s.name).Perm (declarations finds) ∧
    (declarations finds).map (fun c => (c.path, c.key)) =
      [("/Orders/find", "GET"), ("/Orders/find", "get"), ("/Items/find", "Post"),
        ("/Orders/find_1", "get")] ∧
    d.services.map (fun s => (s.name, s.operations.map Operation.name)) =
      [("Orders", ["find", "find_1", "find_1_1"]), ("Items", ["find"])] := by
  have hversion : startsWith "3." ((finds.getString? "openapi").getD "") = true := by decide +kernel
  obtain ⟨d, hdoc, hdistinct, hcomplete, -⟩ := services_extracted hversion
  refine ⟨hversion, d, hdoc, hdistinct, hcomplete, by decide +kernel, ?_⟩
  rw [services_eq_readServices hdoc]
  decide +kernel

end TypedClient.Proofs.DeclaredOperations
