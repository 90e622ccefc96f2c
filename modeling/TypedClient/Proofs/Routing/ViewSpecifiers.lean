import TypedClient.Proofs.Path.Extension
import TypedClient.Proofs.Path.Specifier
import TypedClient.Proofs.Routing.RouteModuleReading

namespace TypedClient.Proofs.ViewSpecifiers

open TypedClient.Module TypedClient.Path TypedClient.Routing TypedClient.Routing.RouteModule
open TypedClient.Text TypedClient.Proofs.ImportRequests TypedClient.Proofs.Joining
open TypedClient.Proofs.Parent TypedClient.Proofs.Pieces TypedClient.Proofs.RouteModuleReading
open TypedClient.Proofs.Specifier TypedClient.Proofs.ViewImports

/-- Where an absolute path leads: its names from the root on, with `..` taken back. -/
def place (p : String) : List String :=
  (stepNames p).foldl follow []

variable {dir goal here : List String} {p q outputDir m : String} {tree : Tree} {settings : Settings}
  {source : String}

/-- A specifier read in any directory: up from there as far as from the directory that it was made
for, and down again. -/
theorem resolve_ascend_from (here dir : List String) (hgoal : ∀ n ∈ goal, '/' ∉ n.toList) :
    resolve here (ascend dir goal) = (goal.drop (common dir goal)).foldl follow
      (here.take (here.length - (dir.length - common dir goal))) := by
  have hpieces := pieces_ascend dir goal ""
  rw [String.append_empty, String.append_empty] at hpieces
  rw [resolve, hpieces, List.foldl_append, foldl_climb,
    foldl_follow_down fun n hn => hgoal n (List.mem_of_mem_drop hn)]

theorem resolve_ascend_eq (hdir : Plain dir) (hgoal : ∀ n ∈ goal, '/' ∉ n.toList) :
    resolve dir (ascend dir goal) = goal.foldl follow [] := by
  have hle := common_le_left dir goal
  have hshared : dir.length - (dir.length - common dir goal) = common dir goal := by omega
  have hplain : Plain (goal.take (common dir goal)) := by
    rw [← take_common]
    exact fun n hn => hdir n (List.mem_of_mem_take hn)
  have htake : (goal.take (common dir goal)).foldl follow [] = goal.take (common dir goal) :=
    foldl_follow_plain hplain
  rw [resolve_ascend_from _ _ hgoal, hshared, take_common, ← htake, ← List.foldl_append,
    List.take_append_drop]

theorem resolve_ascend_ne {extra : List String} (hextra : extra ≠ []) (hgoal : Plain goal)
    (hslash : ∀ n ∈ goal, '/' ∉ n.toList) :
    resolve (dir ++ extra) (ascend dir goal) ≠ goal := by
  intro h
  have hlen := congrArg List.length h
  have hdrop : Plain (goal.drop (common dir goal)) := fun n hn => hgoal n (List.mem_of_mem_drop hn)
  have hle := common_le_left dir goal
  have hgle : common dir goal ≤ goal.length := by
    rw [← List.length_take_of_le hle, take_common]
    exact List.length_take_le' _ _
  have hpos := List.length_pos_of_ne_nil hextra
  rw [resolve_ascend_from _ _ hslash, foldl_follow_plain hdrop, List.length_append, List.length_take,
    List.length_append, List.length_drop] at hlen
  omega

/-- A specifier in a module of the directory `dir` names the path `target`. -/
def Leads (dir specifier target : String) : Prop :=
  resolve (place dir) specifier = place target

theorem plain_stepNames (h : .up ∉ components p) : Plain (stepNames p) := by
  intro n hn
  obtain ⟨hempty, hhere, -, hup⟩ := mem_stepNames hn
  exact ⟨hempty, hhere, fun heq => h (hup heq)⟩

theorem place_eq (h : .up ∉ components p) : place p = stepNames p := by
  rw [place, foldl_follow_plain (plain_stepNames h), List.nil_append]

theorem place_parent {file dir : String} (hup : .up ∉ components outputDir)
    (hfile : isAbsolute file = false) (hplain : .up ∉ components file) (hname : stepNames file ≠ [])
    (h : parent? (join outputDir file) = some dir) :
    place dir = stepNames outputDir ++ (stepNames file).dropLast := by
  have hsteps : stepNames dir = stepNames outputDir ++ (stepNames file).dropLast := by
    rw [stepNames_parent? h, stepNames_join hfile, List.dropLast_append_of_ne_nil hname]
  have hboth : Plain (stepNames dir) := by
    rw [hsteps]
    exact List.forall_mem_append.mpr ⟨plain_stepNames hup,
      fun n hn => plain_stepNames hplain n ((List.dropLast_sublist _).subset hn)⟩
  rw [place, foldl_follow_plain hboth, List.nil_append, hsteps]

theorem exists_mem_viewRequests {ts : List Tree} {n : Nat} {t : Tree} (ht : t ∈ ts)
    (hm : t.module? = some m) :
    ∃ r ∈ viewRequests outputDir n ts, r.key? = some (specifier outputDir m, .everything) := by
  induction ts generalizing n with
  | nil => cases ht
  | cons u ts ih =>
    rw [viewRequests]
    obtain rfl | ht := List.mem_cons.mp ht
    · refine ⟨.namespaceImport (specifier outputDir m) (label t ++ toString n),
        List.mem_append_left _ ?_, rfl⟩
      rw [viewRequest, hm]
      exact List.mem_singleton_self _
    · obtain ⟨r, hr, hkey⟩ := ih (n := n + 1) ht
      exact ⟨r, List.mem_append_right _ hr, hkey⟩

theorem view_imports (tree : Tree) (outputDir : String) (settings : Settings) (source p : String) :
    (∃ i ∈ (draft tree outputDir settings source).imports.imports,
        i.kind = .everything ∧ i.path = p) ↔
      ∃ t ∈ nodesIn tree, ∃ m, t.module? = some m ∧ p = specifier outputDir m := by
  obtain ⟨text, hdraft, -⟩ := draft_eq tree outputDir settings source
  rw [hdraft]
  have hconsistent := run_consistent
    (ownRequests settings.routerModule ++ viewRequests outputDir 0 (nodesIn tree))
  have hrequests := requests_run
    (ownRequests settings.routerModule ++ viewRequests outputDir 0 (nodesIn tree))
  constructor
  · rintro ⟨i, hi, hkind, rfl⟩
    obtain ⟨e, he, hkey, -⟩ := hconsistent.requested i hi
    have hmem := List.mem_map_of_mem (f := Event.request) he
    rw [hrequests, List.mem_append] at hmem
    rw [hkind] at hkey
    obtain hown | hview := hmem
    · -- the import of `createRoute` and the reserved name are no imports of all exports
      rw [ownRequests, List.mem_pair] at hown
      obtain hown | hown := hown <;> simp [hown, Request.key?] at hkey
    · obtain ⟨t, ht, hkey'⟩ := mem_viewRequests hview
      obtain ⟨m, hm, hpair⟩ := Option.map_eq_some_iff.mp (hkey'.symm.trans hkey)
      exact ⟨t, ht, m, hm, (Prod.mk.inj hpair).1.symm⟩
  · rintro ⟨t, ht, m, hm, rfl⟩
    have hrequest : ∃ r ∈ viewRequests outputDir 0 (nodesIn tree),
        r.key? = some (specifier outputDir m, .everything) := exists_mem_viewRequests ht hm
    obtain ⟨r, hr, hkey⟩ := hrequest
    have hmem := hrequests ▸ List.mem_append_right (ownRequests settings.routerModule) hr
    obtain ⟨e, he, rfl⟩ := List.mem_map.mp hmem
    obtain ⟨i, hi, hik, -⟩ := hconsistent.recorded e he _ hkey
    obtain ⟨hpath, hkind⟩ := Prod.mk.inj hik
    exact ⟨i, hi, hkind, hpath⟩

/-- The route module imports the views that nodes show. In the output directory itself its specifiers
lead to the views, with the extension `js`; in a directory below none of them does, save by `..` in
the path of the view. -/
theorem specifiers_lead (tree : Tree) (outputDir source : String) (settings : Settings)
    (hout : isAbsolute outputDir = true)
    (hup : .up ∉ components outputDir) (hfile : isAbsolute settings.routesFile = false)
    (hplain : .up ∉ components settings.routesFile) (hname : stepNames settings.routesFile ≠ [])
    (hviews : ∀ t ∈ nodesIn tree, ∀ m, t.module? = some m → isAbsolute m = true) :
    let f := file tree outputDir settings source
    let d := draft tree outputDir settings source
    f.contents = d.contents ∧
    ∃ dir, parent? (join outputDir f.path) = some dir ∧ isAbsolute dir = true ∧
      (∀ p, (∃ i ∈ d.imports.imports, i.kind = .everything ∧ i.path = p ∧
          "import * as " ++ i.binding ++ " from \"" ++ p ++ "\";" ∈ d.imports.statements) ↔
        ∃ t ∈ nodesIn tree, ∃ m, t.module? = some m ∧ p = specifier outputDir m) ∧
      ∀ t ∈ nodesIn tree, ∀ m, t.module? = some m →
        isAbsolute (withExtension m "js") = true ∧
        ((stepNames f.path).length = 1 → Leads dir (specifier outputDir m) (withExtension m "js")) ∧
        (1 < (stepNames f.path).length → .up ∉ components (withExtension m "js") →
          ¬ Leads dir (specifier outputDir m) (withExtension m "js")) := by
  intro f d
  have hinner : inner (pieces '/' (join outputDir settings.routesFile)) ≠ [] := by
    rw [inner_join hfile]
    intro hnil
    rw [stepNames_eq, (List.append_eq_nil_iff.mp hnil).2] at hname
    exact hname rfl
  obtain ⟨dir, hdir⟩ := exists_parent? hinner
  have hplace := place_parent hup hfile hplain hname hdir
  refine ⟨rfl, dir, hdir, isAbsolute_parent? (isAbsolute_join hout _) hdir, fun p => ?_,
    fun t ht m hm => ⟨Extension.isAbsolute_withExtension (hviews t ht m hm) "js", fun hone => ?_,
      fun hmore hplainView hleads => ?_⟩⟩
  · rw [← view_imports tree outputDir settings source p]
    constructor
    · rintro ⟨i, hi, hkind, hpath, -⟩
      exact ⟨i, hi, hkind, hpath⟩
    · rintro ⟨i, hi, hkind, rfl⟩
      exact ⟨i, hi, hkind, rfl, statement_of_import hi hkind⟩
  · have hnone : (stepNames settings.routesFile).dropLast = [] := by
      apply List.eq_nil_of_length_eq_zero
      rw [List.length_dropLast]
      exact Nat.sub_eq_zero_of_le hone.le
    rw [Leads, hplace, hnone, List.append_nil]
    exact resolve_ascend_eq (plain_stepNames hup) fun n hn => (mem_stepNames hn).2.2.1
  · have hextra : (stepNames settings.routesFile).dropLast ≠ [] := by
      rw [← List.length_pos_iff, List.length_dropLast]
      exact Nat.sub_pos_of_lt hmore
    rw [Leads, hplace, place_eq hplainView] at hleads
    exact resolve_ascend_ne hextra (plain_stepNames hplainView)
      (fun n hn => (mem_stepNames hn).2.2.1) hleads

/-- A page of a project. -/
def project : Tree :=
  .leaf "" "/project/views/index.tsx"

theorem project_specifiers_lead :
    isAbsolute "/project/generated" = true ∧ .up ∉ components "/project/generated" ∧
    isAbsolute "views.ts" = false ∧ .up ∉ components "views.ts" ∧ stepNames "views.ts" ≠ [] ∧
    (∀ t ∈ nodesIn project, ∀ m, t.module? = some m → isAbsolute m = true) ∧
    ∃ dir, parent? "/project/generated/views.ts" = some dir ∧
      Leads dir (specifier "/project/generated" "/project/views/index.tsx")
        (withExtension "/project/views/index.tsx" "js") := by
  have hviews : ∀ t ∈ nodesIn project, ∀ m, t.module? = some m → isAbsolute m = true := by
    intro t ht m hm
    obtain rfl := List.mem_singleton.mp ht
    obtain rfl := Option.some.inj hm
    decide
  obtain ⟨-, dir, hdir, -, -, hleads⟩ := specifiers_lead project "/project/generated" "views" {}
    (by decide) (by decide) (by decide) (by decide) (by decide) hviews
  have hview := hleads project (List.mem_singleton_self _) _ rfl
  exact ⟨by decide, by decide, by decide, by decide, by decide, hviews, dir, hdir,
    hview.2.1 (by decide)⟩

/-- From a route module in a directory below the output directory the page is not found. -/
theorem specifier_does_not_lead :
    let d := draft project "/project/generated" { routesFile := "gen/views.ts" } "views"
    (∃ i ∈ d.imports.imports, i.kind = .everything ∧ i.path = "../views/index.js") ∧
    parent? (join "/project/generated" "gen/views.ts") = some "/project/generated/gen" ∧
    ¬ Leads "/project/generated/gen" "../views/index.js"
      (withExtension "/project/views/index.tsx" "js") := by
  intro d
  refine ⟨?_, by decide, ?_⟩
  · have hspecifier : "../views/index.js" =
        specifier "/project/generated" "/project/views/index.tsx" := by decide
    exact (view_imports _ _ _ _ _).mpr ⟨project, List.mem_singleton_self _, _, rfl, hspecifier⟩
  · rw [Leads]
    decide

end TypedClient.Proofs.ViewSpecifiers
