import TypedClient.Proofs.Module.Contents
import TypedClient.Proofs.Routing.CallReading
import TypedClient.Proofs.Routing.ViewImports
import TypedClient.Routing.Basic

namespace TypedClient.Proofs.RouteModuleReading

open TypedClient.Literal TypedClient.Module TypedClient.Routing TypedClient.Routing.RouteModule
open TypedClient.Text TypedClient.Proofs.CallReading TypedClient.Proofs.Contents
open TypedClient.Proofs.FreshName TypedClient.Proofs.ImportRequests TypedClient.Proofs.ViewImports

mutual

def outline (outputDir : String) : Tree → Outline
  | ⟨segment, page, layout, children⟩ =>
    .node (Segment.toPattern segment) ((page.or layout).map (specifier outputDir))
      (outlines outputDir children)

def outlines (outputDir : String) : List Tree → List Outline
  | [] => []
  | t :: ts => outline outputDir t :: outlines outputDir ts

end

def resolve? (t : ImportTable) (id : String) : Option String :=
  (t.imports.find? fun i => i.binding = id).bind fun i =>
    if i.kind = .everything then some i.path else none

def Resolves (specifierOf : String → Option String) (es : List Event) : Prop :=
  ∀ e ∈ es, ∀ p, e.request.key? = some (p, .everything) →
    ∃ id, e.answer = some id ∧ IsWord id.toList ∧ specifierOf id = some p

variable {outputDir create : String} {specifierOf : String → Option String} {rs : List Request}

theorem Resolves.of_append {ss : List Request} (h : Resolves specifierOf (run (rs ++ ss)).1) :
    Resolves specifierOf (run rs).1 :=
  fun e he => h e ((run_events rs ss).subset he)

theorem isWord_of_isIdentifier {id : String} (h : IsIdentifier id) : IsWord id.toList := by
  obtain ⟨c, cs, hc, -, hp⟩ := h
  refine ⟨by simp [hc], ?_⟩
  rw [hc]
  intro x hx
  have hx := hp x hx
  simp only [Identifier.isPart, isLetterOrDigit, isLetter, isDigit, Bool.or_eq_true] at hx
  simp only [isWordPart, isWordStart, Bool.or_eq_true]
  tauto

theorem resolve?_binding {es : List Event} {t : ImportTable} (h : Consistent es t) {i : Import}
    (hi : i ∈ t.imports) (hkind : i.kind = .everything) :
    resolve? t i.binding = some i.path := by
  have hfind : t.imports.find? (fun j => j.binding = i.binding) = some i := by
    obtain ⟨j, hj⟩ := Option.isSome_iff_exists.mp
      (List.find?_isSome (p := fun j => j.binding = i.binding).mpr ⟨i, hi, by simp⟩)
    have hbinding : j.binding = i.binding := by simpa using List.find?_some hj
    rw [hj, List.inj_on_of_nodup_map h.bindings (List.mem_of_find?_eq_some hj) hi hbinding]
  rw [resolve?, hfind, Option.bind_some, if_pos hkind]

theorem resolves_resolve? {es : List Event} {t : ImportTable} (h : Consistent es t) :
    Resolves (resolve? t) es := by
  intro e he p hkey
  obtain ⟨i, hi, hik, hanswer⟩ := h.recorded e he _ hkey
  obtain ⟨hpath, hkind⟩ := Prod.mk.inj hik
  have hname := (h.names e he i.binding hanswer).1
  refine ⟨i.binding, hanswer, isWord_of_isIdentifier hname, ?_⟩
  rw [resolve?_binding h hi hkind, hpath]

theorem intercalate_cons {α : Type} (sep a : List α) (as : List (List α)) :
    sep.intercalate (a :: as) = a ++ as.flatMap fun u => sep ++ u := by
  induction as generalizing a with
  | nil => simp
  | cons u us ih => rw [List.intercalate_cons_cons, ih, List.flatMap_cons, List.append_assoc,
      List.append_assoc]

theorem isBlank_of_mem_indent {c : Char} (k : Nat) (h : c ∈ '\n' :: (indent k).toList) :
    isBlank c = true := by
  obtain rfl | h := List.mem_cons.mp h
  · decide
  rw [indent, copies, String.toList_join, List.mem_flatMap] at h
  obtain ⟨s, hs, hc⟩ := h
  rw [List.eq_of_mem_replicate hs] at hc
  have hspaces : "  ".toList.all isBlank = true := by decide
  exact List.all_eq_true.mp hspaces c hc

theorem flatMap_childList (k : Nat) (cs : List String) :
    ((childList k cs).flatMap fun u => ", ".toList ++ u.toList) =
      childChars ('\n' :: (indent (k + 1)).toList) ('\n' :: (indent k).toList)
        (cs.map String.toList) := by
  cases cs with
  | nil => rfl
  | cons c cs =>
    have hsep : (",\n" ++ indent (k + 1)).toList = ',' :: '\n' :: (indent (k + 1)).toList := by
      simp
    simp [childList, childChars, listChars, intercalate_cons, hsep, List.flatMap_map]

theorem toList_call (path : String) (view cs : List String) (k : Nat) :
    (create ++ "(" ++ ", ".intercalate (quoted path :: view ++ childList k cs) ++ ")").toList =
      callChars create.toList path.toList view
        (childChars ('\n' :: (indent (k + 1)).toList) ('\n' :: (indent k).toList)
          (cs.map String.toList)) := by
  rw [← flatMap_childList]
  simp [callChars, viewChars, intercalate_cons, quoted, List.flatMap_map]

/-- Work that prints nodes: it asks for their modules in turn, and what it prints has a property
wherever identifiers resolve to what was asked for. -/
def Prints {α : Type} (outputDir : String) (m : Numbering α) (ts : List Tree)
    (P : (String → Option String) → α → Prop) : Prop :=
  ∀ (rs : List Request) (d : Draft) (n : Nat), d.imports = (run rs).2 →
    ∃ a, (m.run n).run d = ((a, n + ts.length),
        { d with imports := (run (rs ++ viewRequests outputDir n ts)).2 }) ∧
      ∀ specifierOf, Resolves specifierOf (run (rs ++ viewRequests outputDir n ts)).1 →
        P specifierOf a

namespace Prints

variable {α β : Type} {m : Numbering α} {f : α → Numbering β} {ts us : List Tree}
  {P : (String → Option String) → α → Prop} {Q : (String → Option String) → β → Prop}

theorem pure {a : α} (h : ∀ specifierOf, P specifierOf a) :
    Prints outputDir (pure a) [] P := by
  intro rs d n hd
  rw [viewRequests, List.append_nil, ← hd]
  exact ⟨a, rfl, fun specifierOf _ => h specifierOf⟩

theorem bind {R : α → (String → Option String) → β → Prop} (hm : Prints outputDir m ts P)
    (hf : ∀ a, Prints outputDir (f a) us (R a))
    (hQ : ∀ specifierOf a b, P specifierOf a → R a specifierOf b → Q specifierOf b) :
    Prints outputDir (m >>= f) (ts ++ us) Q := by
  intro rs d n hd
  obtain ⟨a, ha, hP⟩ := hm rs d n hd
  obtain ⟨b, hb, hR⟩ := hf a (rs ++ viewRequests outputDir n ts) { d with imports := _ }
    (n + ts.length) rfl
  have hbind : ((m >>= f).run n).run d =
      ((f ((m.run n).run d).1.1).run ((m.run n).run d).1.2).run ((m.run n).run d).2 := rfl
  rw [hbind, ha, viewRequests_append, ← List.append_assoc, List.length_append, ← Nat.add_assoc]
  exact ⟨b, hb, fun specifierOf h => hQ specifierOf a b (hP _ h.of_append) (hR _ h)⟩

theorem map (hm : Prints outputDir m ts P) (g : α → β) :
    Prints outputDir (m >>= fun a => Pure.pure (g a)) ts fun specifierOf b =>
      ∃ a, P specifierOf a ∧ b = g a := by
  have h := hm.bind (Q := fun specifierOf b => ∃ a, P specifierOf a ∧ b = g a)
    (fun a => pure (P := fun _ b => b = g a) fun _ => rfl) fun _ a _ hP hb => ⟨a, hP, hb⟩
  rwa [List.append_nil] at h

end Prints

def visit (outputDir : String) (t : Tree) : Numbering (List String) := do
  let n ← modifyGet fun n => (n, n + 1)
  importNode outputDir t.page t.layout n

theorem prints_view {t : Tree} {module kind : String} (hm : t.module? = some module)
    (hkind : label t = kind)
    (hnode : ∀ n, importNode outputDir t.page t.layout n =
      (importView outputDir module kind n >>= fun id => pure [id])) :
    Prints outputDir (visit outputDir t) [t] fun specifierOf view =>
      ViewOf specifierOf view (some (specifier outputDir module)) := by
  intro rs d n hd
  let r := Request.namespaceImport (specifier outputDir module) (kind ++ toString n)
  have hrequests : viewRequests outputDir n [t] = [r] := by
    rw [viewRequests, viewRequests, List.append_nil, viewRequest, hm, hkind]
    rfl
  have hrun : ((visit outputDir t).run n).run d =
      (([(d.imports.namespaceImport (specifier outputDir module) (kind ++ toString n)).1], n + 1),
        { d with imports := (r.apply d.imports).2 }) := by
    rw [visit]
    simp only [hnode]
    rfl
  rw [hrequests, run_append, step, hrun, hd]
  refine ⟨_, rfl, fun specifierOf hresolves => ?_⟩
  obtain ⟨id, hid, hword, hspecifier⟩ :=
    hresolves _ (List.mem_append_right _ List.mem_cons_self) _ rfl
  obtain rfl := Option.some.inj hid
  exact .some hword hspecifier

theorem prints_visit (t : Tree) : Prints outputDir (visit outputDir t) [t] fun specifierOf view =>
    ViewOf specifierOf view (t.module?.map (specifier outputDir)) := by
  obtain ⟨segment, page, layout, children⟩ := t
  cases page with
  | some page => exact prints_view rfl rfl fun _ => rfl
  | none => cases layout with
    | some layout => exact prints_view rfl rfl fun _ => rfl
    | none =>
      intro rs d n hd
      have hnone : viewRequests outputDir n [⟨segment, none, none, children⟩] = [] := rfl
      rw [hnone, List.append_nil, ← hd]
      exact ⟨[], rfl, fun _ _ => .none⟩

mutual

theorem prints_call (hc : IsWord create.toList) (depth : Nat) : ∀ t : Tree,
    Prints outputDir (call outputDir create depth t) (nodesIn t) fun specifierOf text =>
      Reads specifierOf create.toList text.toList (outline outputDir t)
  | ⟨segment, page, layout, children⟩ => by
    -- a node takes its number and its import before those below it do
    have hcall : call outputDir create depth ⟨segment, page, layout, children⟩ =
        visit outputDir ⟨segment, page, layout, children⟩ >>= fun view =>
          calls outputDir create (depth + 1) children >>= fun inner =>
            pure (create ++ "(" ++ ", ".intercalate
              (quoted (Segment.toPattern segment) :: view ++ childList depth inner) ++ ")") := rfl
    rw [hcall]
    refine (prints_visit _).bind
      (fun view => (prints_calls hc (depth + 1) children).map _) ?_
    rintro specifierOf view _ hview ⟨inner, hreads, rfl⟩
    rw [toList_call]
    exact reads_callChars hc hview (fun _ => isBlank_of_mem_indent _)
      (fun _ => isBlank_of_mem_indent _) hreads

theorem prints_calls (hc : IsWord create.toList) (depth : Nat) : ∀ ts : List Tree,
    Prints outputDir (calls outputDir create depth ts) (nodesOf ts) fun specifierOf texts =>
      List.Forall₂ (Reads specifierOf create.toList) (texts.map String.toList)
        (outlines outputDir ts)
  | [] => .pure fun _ => .nil
  | t :: ts => by
    refine (prints_call hc depth t).bind
      (fun text => (prints_calls hc depth ts).map fun texts => text :: texts) ?_
    rintro specifierOf text _ hreads ⟨texts, hall, rfl⟩
    exact .cons hreads hall

end

variable {ε : Type} {load : String → Except ε View}

def Loads (load : String → Except ε View) (ts : List Tree) : Prop :=
  ∀ t ∈ ts, ∀ m, t.module? = some m → ∃ v, load m = .ok v

/-- A route has the path of an outline, a view exactly where that has a specifier, which is that of
the module of the view, and routes below it that the outlines below describe in turn. -/
inductive Describes (load : String → Except ε View) (outputDir : String) : Outline → Route → Prop
  | node {path : String} {s : Option String} {os : List Outline} {r : Route}
      (segment : path = r.segment)
      (view : Option.Rel (fun s v => ∃ m, load m = .ok v ∧ s = specifier outputDir m) s r.view)
      (children : List.Forall₂ (Describes load outputDir) os r.children) :
      Describes load outputDir (.node path s os) r

mutual

theorem ofTree_described (outputDir : String) : ∀ t : Tree, Loads load (nodesIn t) →
    ∃ r, Route.ofTree load t = .ok r ∧ Describes load outputDir (outline outputDir t) r
  | ⟨segment, page, layout, children⟩, h => by
    rw [nodesIn] at h
    obtain ⟨hown, hbelow⟩ := List.forall_mem_cons.mp h
    obtain ⟨rs, hrs, hchildren⟩ := ofTrees_described outputDir children hbelow
    rw [Route.ofTree, hrs, outline]
    cases hm : page.or layout with
    | none => exact ⟨_, rfl, .node rfl .none hchildren⟩
    | some m =>
      obtain ⟨v, hv⟩ := hown m hm
      refine ⟨Route.create (Segment.toPattern segment) (some v) rs, ?_, ?_⟩
      · simp only [hv]
        rfl
      · exact .node rfl (.some ⟨m, hv, rfl⟩) hchildren

theorem ofTrees_described (outputDir : String) : ∀ ts : List Tree, Loads load (nodesOf ts) →
    ∃ rs, Route.ofTrees load ts = .ok rs ∧
      List.Forall₂ (Describes load outputDir) (outlines outputDir ts) rs
  | [], _ => ⟨[], rfl, .nil⟩
  | t :: ts, h => by
    rw [nodesOf] at h
    obtain ⟨hfirst, hrest⟩ := List.forall_mem_append.mp h
    obtain ⟨r, hr, hdescribes⟩ := ofTree_described outputDir t hfirst
    obtain ⟨rs, hrs, hall⟩ := ofTrees_described outputDir ts hrest
    refine ⟨r :: rs, ?_, .cons hdescribes hall⟩
    rw [Route.ofTrees, hr, hrs]
    rfl

end

theorem contents_of_declarations {d : Draft} {text : String}
    (h : d.declarations = ["const routes = " ++ text ++ ";", "export default routes;"]) :
    d.contents = d.header ++ String.join (d.imports.statements.map ("\n" ++ ·)) ++
      ("\n\nconst routes = " ++ text ++ ";\n\nexport default routes;\n") := by
  have hconst : "\n\n" ++ ("const routes = " ++ text ++ ";") =
      "\n\nconst routes = " ++ text ++ ";" := by
    rw [← String.append_assoc, ← String.append_assoc]
    rfl
  have hlast : d.declarations =
      ["const routes = " ++ text ++ ";"] ++ ["export default routes" ++ ";"] := h
  rw [contents_eq hlast, h, List.map_cons, List.map_cons, hconst]
  simp [String.append_assoc]

/-- The draft of the module has the imports of the nodes and declares the calls. -/
theorem draft_eq (tree : Tree) (outputDir : String) (settings : Settings) (source : String) :
    let rs := ownRequests settings.routerModule ++ viewRequests outputDir 0 (nodesIn tree)
    ∃ text, draft tree outputDir settings source =
        { location := Path.withExtension settings.routesFile "", source, imports := (run rs).2,
          declarations := ["const routes = " ++ text ++ ";", "export default routes;"] } ∧
      ∀ specifierOf, Resolves specifierOf (run rs).1 →
        Reads specifierOf "createRoute".toList text.toList (outline outputDir tree) := by
  intro rs
  let create := ImportTable.empty.namedImport settings.routerModule "createRoute" false
  let routes := create.2.reserve "routes"
  have hcreate : create.1 = "createRoute" := rfl
  have hroutes : routes.1 = "routes" := rfl
  have hc : IsWord create.1.toList := by
    rw [hcreate]
    exact ⟨by decide, List.all_eq_true.mp (by decide)⟩
  have hcall : Prints outputDir (call outputDir create.1 0 tree) (nodesIn tree) _ :=
    prints_call hc 0 tree
  obtain ⟨text, hrun, hreads⟩ := hcall (ownRequests settings.routerModule)
    { location := Path.withExtension settings.routesFile "", source, imports := routes.2 } 0 rfl
  refine ⟨text, ?_, hreads⟩
  have hdraft : draft tree outputDir settings source =
      (fun r : (String × Nat) × Draft => { r.2 with declarations := r.2.declarations ++
          ["const " ++ routes.1 ++ " = " ++ r.1.1 ++ ";"] ++
            ["export default " ++ routes.1 ++ ";"] })
        (((call outputDir create.1 0 tree).run 0).run
          { location := Path.withExtension settings.routesFile "", source, imports := routes.2 }) :=
    rfl
  rw [hdraft, hrun, hroutes]
  rfl

theorem statement_of_import {t : ImportTable} {i : Import} (hi : i ∈ t.imports)
    (hkind : i.kind = .everything) :
    "import * as " ++ i.binding ++ " from \"" ++ i.path ++ "\";" ∈ t.statements := by
  have hpath : i.path ∈ t.paths := List.mem_eraseDups.mpr (List.mem_map_of_mem hi)
  refine List.mem_flatMap.mpr ⟨i.path, hpath, ?_⟩
  have hfrom : i ∈ (t.imports.filter fun j => j.path = i.path).filter fun j =>
      j.kind = .everything := by
    simp [List.mem_filter, hi, hkind]
  refine List.mem_append_left _ (List.mem_append_left _ (List.mem_map.mpr ⟨i, hfrom, ?_⟩))
  simp only [ImportTable.fromPath, String.append_assoc]

theorem createRoute_imported (router : String) (rs : List Request) :
    ∃ i ∈ (run (ownRequests router ++ rs)).2.imports,
      i.path = router ∧ i.kind = .named "createRoute" ∧ i.binding = "createRoute" := by
  have hevent : ⟨.namedImport router "createRoute" false, some "createRoute"⟩ ∈
      (run (ownRequests router ++ rs)).1 :=
    (run_events _ _).subset List.mem_cons_self
  obtain ⟨i, hi, hkey, hbinding⟩ := (run_consistent _).recorded _ hevent _ rfl
  obtain ⟨hpath, hkind⟩ := Prod.mk.inj hkey
  exact ⟨i, hi, hpath, hkind, (Option.some.inj hbinding).symm⟩

/-- The route module declares the calls that build the routes of the runtime: read back, they give
the paths, the modules and the order of the routes that the tree is loaded to. The first node that
shows a module has it imported under its own number in pre-order. -/
theorem module_builds_routes (load : String → Except ε View) (tree : Tree) (outputDir : String)
    (settings : Settings) (source : String) (hload : Loads load (nodesIn tree)) :
    let d := draft tree outputDir settings source
    ∃ text r,
      (file tree outputDir settings source).contents =
        d.header ++ String.join (d.imports.statements.map ("\n" ++ ·)) ++
          ("\n\nconst routes = " ++ text ++ ";\n\nexport default routes;\n") ∧
      (∃ i ∈ d.imports.imports, i.path = settings.routerModule ∧
        i.kind = .named "createRoute" ∧ i.binding = "createRoute") ∧
      Outline.read (resolve? d.imports) "createRoute" text = some (outline outputDir tree) ∧
      Route.ofTree load tree = .ok r ∧
      Describes load outputDir (outline outputDir tree) r ∧
      ∀ n s m, (nodesIn tree)[n]? = some s → s.module? = some m →
        (∀ u ∈ (nodesIn tree).take n,
          u.module?.map (specifier outputDir) ≠ some (specifier outputDir m)) →
        resolve? d.imports (label s ++ toString n) = some (specifier outputDir m) ∧
        "import * as " ++ (label s ++ toString n) ++ " from \"" ++ specifier outputDir m ++ "\";" ∈
          d.imports.statements := by
  intro d
  obtain ⟨text, hdraft, hreads⟩ := draft_eq tree outputDir settings source
  obtain ⟨r, hr, hdescribes⟩ := ofTree_described outputDir tree hload
  let rs := ownRequests settings.routerModule ++ viewRequests outputDir 0 (nodesIn tree)
  have himports : d.imports = (run rs).2 := by simp only [d, hdraft, rs]
  have hconsistent : Consistent (run rs).1 d.imports := himports ▸ run_consistent rs
  refine ⟨text, r, ?_, ?_, ?_, hr, hdescribes, ?_⟩
  · have hdeclarations : d.declarations =
        ["const routes = " ++ text ++ ";", "export default routes;"] := by simp only [d, hdraft]
    exact contents_of_declarations hdeclarations
  · rw [himports]
    exact createRoute_imported _ _
  · exact (hreads _ (resolves_resolve? hconsistent)).whole
  · intro n s m hs hm hfirst
    obtain ⟨hn, hs⟩ := List.getElem?_eq_some_iff.mp hs
    have hsplit : nodesIn tree = (nodesIn tree).take n ++ s :: (nodesIn tree).drop (n + 1) := by
      rw [← hs, ← List.drop_eq_getElem_cons hn, List.take_append_drop]
    obtain ⟨i, hi, hpath, hkind, hbinding⟩ :=
      import_of_first settings.routerModule hm hfirst ((nodesIn tree).drop (n + 1))
    rw [← hsplit] at hi
    rw [List.length_take_of_le hn.le] at hbinding
    have hmem : i ∈ d.imports.imports := by
      rw [himports]
      exact hi
    rw [← hbinding, ← hpath]
    exact ⟨resolve?_binding hconsistent hmem hkind, statement_of_import hmem hkind⟩

/-- Pages in a layout: one page is shown in two places, and the node of the users shows nothing. -/
def shop : Tree :=
  { segment := "", layout := some "/shop/views/@layout.tsx",
    children := [.leaf "" "/shop/views/index.tsx",
      { segment := "users", children := [.leaf "{id}" "/shop/views/users/{id}.tsx"] },
      .leaf "home" "/shop/views/index.tsx"] }

theorem shop_module_builds_routes :
    let load : String → Except Unit View := fun url => .ok ⟨url, none, none⟩
    let t := (draft shop "/shop/out" {} "views").imports
    Loads load (nodesIn shop) ∧
    ∃ text r,
      Outline.read (resolve? t) "createRoute" text = some (.node "" (some "../views/@layout.js")
        [.node "" (some "../views/index.js") [],
         .node "users" none [.node ":id" (some "../views/users/{id}.js") []],
         .node "home" (some "../views/index.js") []]) ∧
      Route.ofTree load shop = .ok r ∧
      resolve? t "Page3" = some "../views/users/{id}.js" := by
  intro load t
  have hload : Loads load (nodesIn shop) := fun _ _ m _ => ⟨⟨m, none, none⟩, rfl⟩
  obtain ⟨text, r, -, -, hread, hr, -, hfirst⟩ :=
    module_builds_routes load shop "/shop/out" {} "views" hload
  have huser := hfirst 3 _ _ rfl rfl (by decide)
  exact ⟨hload, text, r, hread, hr, huser.1⟩

end TypedClient.Proofs.RouteModuleReading
