import TypedClient.Proofs.Routing.GuardedMatching
import TypedClient.Proofs.Routing.Parameters

namespace TypedClient.Proofs.ManifestAgreement

open TypedClient.Routing TypedClient.Proofs.BestHit TypedClient.Proofs.GuardedRendering
open TypedClient.Proofs.GuardedMatching TypedClient.Proofs.Parameters

mutual

def routesIn : Route → List Route
  | ⟨segment, view, element, config, children⟩ =>
    ⟨segment, view, element, config, children⟩ :: routesOf children

def routesOf : List Route → List Route
  | [] => []
  | r :: rs => routesIn r ++ routesOf rs

end

mutual

def entriesIn : ManifestEntry → List ManifestEntry
  | ⟨route, title, params, loginRequired, rolesAllowed, children⟩ =>
    ⟨route, title, params, loginRequired, rolesAllowed, children⟩ :: entriesOf children

def entriesOf : List ManifestEntry → List ManifestEntry
  | [] => []
  | e :: es => entriesIn e ++ entriesOf es

end

def beneath : ManifestEntry → List Nat → Option ManifestEntry
  | e, [] => some e
  | e, n :: ns => e.children[n]?.bind fun c => beneath c ns

def entryAt (es : List ManifestEntry) : List Nat → Option ManifestEntry
  | [] => none
  | n :: ns => es[n]?.bind fun e => beneath e ns

def DemandsAccess (e : ManifestEntry) : Prop :=
  e.loginRequired = true ∨ e.rolesAllowed ≠ []

def Wrapped (redirect : String) (r : Route) : Prop :=
  ∃ access, (Route.protect redirect r).element = some (.guarded redirect access r.element)

variable (redirect location : String)

theorem routesIn_eq (r : Route) : routesIn r = r :: routesOf r.children := by
  cases r
  rfl

theorem entriesIn_ofRoute (parent : String) (r : Route) :
    entriesIn (ManifestEntry.ofRoute parent r) = ManifestEntry.ofRoute parent r ::
      entriesOf (ManifestEntry.ofRoutes (Pattern.join parent r.segment) r.children) := by
  cases r
  rfl

mutual

theorem routesIn_protect :
    ∀ r : Route, routesIn (Route.protect redirect r) = (routesIn r).map (Route.protect redirect)
  | ⟨_, _, _, _, children⟩ => congrArg (List.cons _) (routesOf_protectAll children)

theorem routesOf_protectAll : ∀ rs : List Route,
    routesOf (Route.protectAll redirect rs) = (routesOf rs).map (Route.protect redirect)
  | [] => rfl
  | r :: rs => by
    rw [Route.protectAll, routesOf, routesOf, routesIn_protect r, routesOf_protectAll rs,
      List.map_append]

end

mutual

theorem ofRoute_protect (parent : String) : ∀ r : Route,
    ManifestEntry.ofRoute parent (Route.protect redirect r) = ManifestEntry.ofRoute parent r
  | ⟨segment, view, element, config, children⟩ => by
    rw [Route.protect, ManifestEntry.ofRoute, ManifestEntry.ofRoute,
      ofRoutes_protectAll (Pattern.join parent segment) children]

theorem ofRoutes_protectAll (parent : String) : ∀ rs : List Route,
    ManifestEntry.ofRoutes parent (Route.protectAll redirect rs) = ManifestEntry.ofRoutes parent rs
  | [] => rfl
  | r :: rs => by
    rw [Route.protectAll, ManifestEntry.ofRoutes, ManifestEntry.ofRoutes, ofRoute_protect parent r,
      ofRoutes_protectAll parent rs]

end

section PreOrder

variable {R : ManifestEntry → Route → Prop}

mutual

theorem forall₂_entriesIn (h : ∀ parent r, Created r → R (ManifestEntry.ofRoute parent r) r)
    (parent : String) : ∀ r : Route, Created r →
      List.Forall₂ R (entriesIn (ManifestEntry.ofRoute parent r)) (routesIn r)
  | ⟨segment, _, _, _, children⟩, hr =>
    .cons (h parent _ hr)
      (forall₂_entriesOf h (Pattern.join parent segment) children (created_children hr))

theorem forall₂_entriesOf (h : ∀ parent r, Created r → R (ManifestEntry.ofRoute parent r) r)
    (parent : String) : ∀ rs : List Route, (∀ r ∈ rs, Created r) →
      List.Forall₂ R (entriesOf (ManifestEntry.ofRoutes parent rs)) (routesOf rs)
  | [], _ => .nil
  | r :: rs, hrs => by
    obtain ⟨hr, hrs⟩ := List.forall_mem_cons.mp hrs
    exact List.rel_append (forall₂_entriesIn h parent r hr) (forall₂_entriesOf h parent rs hrs)

end

end PreOrder

def matchable (p : ManifestEntry × Route) : Bool :=
  p.2.element.isSome || p.2.children.isEmpty

mutual

theorem length_entriesIn (parent : String) : ∀ r : Route,
    (entriesIn (ManifestEntry.ofRoute parent r)).length = (routesIn r).length
  | ⟨segment, _, _, _, children⟩ =>
    congrArg (· + 1) (length_entriesOf (Pattern.join parent segment) children)

theorem length_entriesOf (parent : String) : ∀ rs : List Route,
    (entriesOf (ManifestEntry.ofRoutes parent rs)).length = (routesOf rs).length
  | [] => rfl
  | r :: rs => by
    rw [ManifestEntry.ofRoutes, entriesOf, routesOf, List.length_append, List.length_append,
      length_entriesIn parent r, length_entriesOf parent rs]

end

mutual

theorem patterns_routeEntries (parent : String) : ∀ (r : Route) (position : List Nat),
    (((entriesIn (ManifestEntry.ofRoute parent r)).zip (routesIn r)).filter matchable).map
        (fun p => p.1.route) =
      (Table.routeEntries parent position r).map Entry.pattern
  | ⟨segment, view, element, config, children⟩, position => by
    have hbelow := patterns_entriesFrom (Pattern.join parent segment) children position 0
    rw [routeEntries_eq, entriesIn_ofRoute, routesIn_eq, List.zip_cons_cons, List.filter_cons,
      List.map_append, ← hbelow, Table.isMatchable, matchable]
    cases element.isSome || children.isEmpty <;> rfl

theorem patterns_entriesFrom (parent : String) : ∀ (rs : List Route) (position : List Nat) (n : Nat),
    (((entriesOf (ManifestEntry.ofRoutes parent rs)).zip (routesOf rs)).filter matchable).map
        (fun p => p.1.route) =
      (Table.entriesFrom parent position n rs).map Entry.pattern
  | [], _, _ => rfl
  | r :: rs, position, n => by
    rw [ManifestEntry.ofRoutes, entriesOf, routesOf, Table.entriesFrom,
      List.zip_append (length_entriesIn parent r), List.filter_append, List.map_append,
      List.map_append, patterns_routeEntries parent r (position ++ [n]),
      patterns_entriesFrom parent rs position (n + 1)]

end

theorem ofRoute_route (parent : String) (r : Route) :
    (ManifestEntry.ofRoute parent r).route = Pattern.join parent r.segment := by
  cases r
  rfl

theorem ofRoute_params (parent : String) (r : Route) :
    (ManifestEntry.ofRoute parent r).params =
      ManifestEntry.sortedParams (ManifestEntry.ofRoute parent r).route := by
  cases r
  rfl

structure IsFor (me : ManifestEntry) (e : Entry) : Prop where
  route : me.route = e.pattern
  params : me.params = ManifestEntry.sortedParams e.pattern

mutual

theorem beneath_of_mem_routeEntries {e : Entry} (parent : String) :
    ∀ (r : Route) (position : List Nat), e ∈ Table.routeEntries parent position r →
      ∃ ns me, e.position = position ++ ns ∧
        beneath (ManifestEntry.ofRoute parent r) ns = some me ∧ IsFor me e
  | ⟨segment, view, element, config, children⟩, position, he => by
    rw [routeEntries_eq, List.mem_append, List.mem_ite_nil_right, List.mem_singleton] at he
    obtain ⟨-, rfl⟩ | he := he
    · exact ⟨[], _, by simp [Table.entry], rfl, ofRoute_route parent _, ofRoute_params parent _⟩
    · obtain ⟨i, ns, me, hposition, hme, hfor⟩ :=
        beneath_of_mem_entriesFrom (Pattern.join parent segment) children position 0 he
      exact ⟨i :: ns, me, by simpa using hposition, hme, hfor⟩

theorem beneath_of_mem_entriesFrom {e : Entry} (parent : String) :
    ∀ (rs : List Route) (position : List Nat) (n : Nat),
      e ∈ Table.entriesFrom parent position n rs →
      ∃ i ns me, e.position = position ++ (n + i) :: ns ∧
        ((ManifestEntry.ofRoutes parent rs)[i]?.bind fun c => beneath c ns) = some me ∧ IsFor me e
  | [], _, _, he => by simp [Table.entriesFrom] at he
  | r :: rs, position, n, he => by
    rw [Table.entriesFrom, List.mem_append] at he
    obtain he | he := he
    · obtain ⟨ns, me, hposition, hme, hfor⟩ :=
        beneath_of_mem_routeEntries parent r (position ++ [n]) he
      exact ⟨0, ns, me, by simpa using hposition, hme, hfor⟩
    · obtain ⟨i, ns, me, hposition, hme, hfor⟩ :=
        beneath_of_mem_entriesFrom parent rs position (n + 1) he
      have hnext : n + 1 + i = n + (i + 1) := by omega
      exact ⟨i + 1, ns, me, hnext ▸ hposition, hme, hfor⟩

end

/-- The entry of a manifest at the position of an entry of the table is for that entry. -/
theorem entryAt_of_mem {forest : List Route} {e : Entry} (he : e ∈ (Table.ofRoutes forest).entries) :
    ∃ me, entryAt (manifest forest) e.position = some me ∧ IsFor me e := by
  obtain ⟨i, ns, me, hposition, hme, hfor⟩ := beneath_of_mem_entriesFrom "" forest [] 0 he
  rw [List.nil_append, Nat.zero_add] at hposition
  exact ⟨me, by rw [hposition]; exact hme, hfor⟩

/-- A manifest's entry gives notice of what a match gives: it lists every parameter of the match, and
those that it lists as required are given one segment. -/
structure Announces (me : ManifestEntry) (m : Match) : Prop where
  route : me.route = m.entry.pattern
  names : (m.params.map Prod.fst).Nodup
  listed : ∀ p ∈ m.params, ∃ kind, (p.1, kind) ∈ me.params
  required : ∀ name, (name, .required) ∈ me.params →
    ∃ v, (name, v) ∈ m.params ∧ v ≠ "" ∧ '/' ∉ v.toList

theorem announces_of_match? {forest : List Route} {m : Match}
    (h : (Table.ofRoutes forest).match? location = some m) :
    ∃ me, entryAt (manifest forest) m.entry.position = some me ∧ Announces me m := by
  obtain ⟨hit, hbest, rfl⟩ := (match?_eq_some_iff location _ m).mp h
  obtain ⟨e, he, hhit⟩ := List.mem_filterMap.mp (best_spec hbest).1
  obtain ⟨captures, hcaptures, rfl⟩ := Option.map_eq_some_iff.mp hhit
  obtain ⟨me, hme, hroute, hparams⟩ := entryAt_of_mem he
  obtain ⟨hnames, hlisted, hrequired⟩ := paramValues_sortedParams hcaptures
  rw [← hparams] at hlisted hrequired
  exact ⟨me, hme, hroute, hnames, hlisted, hrequired⟩

theorem demandsAccess_iff (parent : String) (r : Route) :
    DemandsAccess (ManifestEntry.ofRoute parent r) ↔ ∃ a, Demands r a := by
  obtain ⟨segment, view, element, config, children⟩ := r
  cases config with
  | none => simp [DemandsAccess, Demands, ManifestEntry.ofRoute]
  | some c => simp [DemandsAccess, Demands, ManifestEntry.ofRoute, or_assoc]

theorem wrapped_iff {r : Route} (hr : Created r) : Wrapped redirect r ↔ ∃ a, Demands r a := by
  simp only [Wrapped, demands_iff, protect_element, Route.guardElement]
  rw [element_eq hr]
  cases Route.restriction? r.config with
  | none => cases component? r <;> simp
  | some a => cases component? r <;> simp [Element.isGuarded]

/-- The manifest, the guard and the table of a forest agree. In pre-order the manifest has an entry for
each route. The entries of routes that show something or have nothing below them have the patterns of
the table; an entry has demands exactly if the guard wraps its route; and the parameters of a match are
those of the entry for the route that is matched, guarded or not. -/
theorem manifest_agrees (forest : List Route) (hf : ∀ r ∈ forest, Created r) :
    (((entriesOf (manifest forest)).zip (routesOf forest)).filter fun p =>
        p.2.element.isSome || p.2.children.isEmpty).map (fun p => p.1.route) =
      (Table.ofRoutes forest).patterns ∧
    List.Forall₂ (fun e r => DemandsAccess e ↔ Wrapped redirect r)
      (entriesOf (manifest forest)) (routesOf forest) ∧
    routesOf (Route.protectAll redirect forest) = (routesOf forest).map (Route.protect redirect) ∧
    ∀ routes ∈ [forest, Route.protectAll redirect forest], ∀ m,
      (Table.ofRoutes routes).match? location = some m →
        ∃ me, entryAt (manifest forest) m.entry.position = some me ∧ Announces me m := by
  refine ⟨patterns_entriesFrom "" forest [] 0, ?_, routesOf_protectAll redirect forest, ?_⟩
  · refine forall₂_entriesOf (fun parent r hr => ?_) "" forest hf
    rw [demandsAccess_iff, wrapped_iff redirect hr]
  · intro routes hroutes m hm
    have hmanifest : manifest routes = manifest forest := by
      obtain rfl | hroutes := List.mem_cons.mp hroutes
      · rfl
      · rw [List.mem_singleton.mp hroutes]
        exact ofRoutes_protectAll redirect "" forest
    rw [← hmanifest]
    exact announces_of_match? location hm

/-- Pages of a user: one for the user, in its place, and one for each of its tabs. -/
def pages : List Route :=
  [Route.create "users" none
    [Route.create ":id"
      (some ⟨"user.tsx", some "User", some { access := { rolesAllowed := ["ADMIN"] } }⟩)
      [Route.create "" (some ⟨"index.tsx", some "Index", none⟩) [],
        Route.create ":tab?" (some ⟨"tab.tsx", some "Tab", none⟩) []]]]

theorem created_pages : ∀ r ∈ pages, Created r := by
  have hleaf : ∀ segment view, Created (Route.create segment view []) := fun segment view =>
    .create segment view [] (by simp)
  simp only [pages, List.mem_singleton, forall_eq]
  refine .create _ _ _ ?_
  simp only [List.mem_singleton, forall_eq]
  refine .create _ _ _ ?_
  simp only [List.mem_cons, List.not_mem_nil, or_false, forall_eq_or_imp, forall_eq]
  exact ⟨hleaf _ _, hleaf _ _⟩

/-- The table has no pattern for the directory of users, which has an entry of its own in the manifest;
the tab of a user is not required. -/
theorem pages_agree :
    (∀ r ∈ pages, Created r) ∧
      (entriesOf (manifest pages)).map ManifestEntry.route =
        ["/users", "/users/:id", "/users/:id", "/users/:id/:tab?"] ∧
      (Table.ofRoutes pages).patterns = ["/users/:id", "/users/:id", "/users/:id/:tab?"] ∧
      (∃ r ∈ routesOf pages, Wrapped "/login" r) ∧
      ∃ m me, (Table.ofRoutes pages).match? "/users/7/" = some m ∧ m.entry.position = [0, 0, 0] ∧
        entryAt (manifest pages) [0, 0, 0] = some me ∧ me.params = [("id", .required)] ∧
        Announces me m := by
  obtain ⟨hpatterns, hwrapped, -, hmatch⟩ := manifest_agrees "/login" "/users/7/" pages created_pages
  have hfound : ((Table.ofRoutes pages).match? "/users/7/").map Match.entry =
      some ⟨"/users/:id", [0, 0, 0], 15⟩ := by rfl
  obtain ⟨m, hm, hentry⟩ := Option.map_eq_some_iff.mp hfound
  obtain ⟨me, hme, hannounces⟩ := hmatch pages List.mem_cons_self m hm
  rw [hentry] at hme
  have hparams : me.params = [("id", .required)] := by
    obtain rfl := Option.some.inj hme
    rfl
  have hadmin : ∃ r ∈ routesOf pages, Wrapped "/login" r := by
    obtain _ | ⟨-, _ | ⟨hiff, -⟩⟩ := hwrapped
    exact ⟨_, List.mem_cons_of_mem _ List.mem_cons_self,
      hiff.mp (.inr (List.cons_ne_nil "ADMIN" []))⟩
  exact ⟨created_pages, rfl, hpatterns.symm, hadmin, m, me, hm, by rw [hentry], hme, hparams,
    hannounces⟩

end TypedClient.Proofs.ManifestAgreement
