import TypedClient.Routing.Guard
import TypedClient.Routing.Table

namespace TypedClient.Proofs.GuardedRendering

open TypedClient.Routing

variable (redirect location : String) (state : AuthState)

inductive Created : Route → Prop
  | create (segment : String) (view : Option View) (children : List Route)
      (below : ∀ r ∈ children, Created r) : Created (Route.create segment view children)

def component? (r : Route) : Option (String × String) :=
  match r.element with
  | some (.component name module) => some (name, module)
  | _ => none

def Demands (r : Route) (a : Access) : Prop :=
  r.config.map ViewConfig.access = some a ∧
    (a.loginRequired = true ∨ a.requiresLogin = true ∨ a.rolesAllowed ≠ [])

def Meets (state : AuthState) (a : Access) : Prop :=
  ∃ user, state = .signedIn user ∧
    (a.rolesAllowed = [] ∨ ∃ role ∈ a.rolesAllowed, role ∈ user.roles)

def Bars (state : AuthState) (r : Route) : Prop :=
  ∃ a, Demands r a ∧ (state.isPending = true ∨ ¬ Meets state a)

/-- Components around each other, the first outermost, with `inner` in the last. -/
def nest (components : List (String × String)) (inner : Option Content) : Option Content :=
  components.foldr (fun c outlet => some (.component c.1 c.2 outlet)) inner

def barrier : Content :=
  if state.isPending then .placeholder else .redirect redirect location

def components : Content → List (String × String)
  | .component name module (some outlet) => (name, module) :: components outlet
  | .component name module none => [(name, module)]
  | _ => []

theorem components_nest (cs : List (String × String)) (inner : Option Content) :
    ((nest cs inner).map components).getD [] = cs ++ (inner.map components).getD [] := by
  induction cs with
  | nil => rfl
  | cons c cs ih =>
    change components (.component c.1 c.2 (nest cs inner)) = _
    rw [List.cons_append, ← ih]
    cases nest cs inner <;> rfl

theorem components_barrier : components (barrier redirect location state) = [] := by
  unfold barrier
  split <;> rfl

theorem isRestricted_iff (a : Access) :
    a.isRestricted = true ↔
      a.loginRequired = true ∨ a.requiresLogin = true ∨ a.rolesAllowed ≠ [] := by
  simp [Access.isRestricted, or_assoc]

theorem demands_iff (r : Route) (a : Access) :
    Demands r a ↔ Route.restriction? r.config = some a := by
  simp only [Demands, Route.restriction?, Option.filter_eq_some_iff, isRestricted_iff]

theorem admits_iff {a : Access} (h : a.isRestricted = true) :
    a.admits state = true ↔ Meets state a := by
  cases state with
  | signedIn user => simp [Access.admits, h, Meets, User.hasRole]
  | initializing | loading | anonymous | failed _ => simp [Access.admits, h, Meets]

theorem bars_iff (r : Route) :
    Bars state r ↔ ∃ a, Route.restriction? r.config = some a ∧
      (state.isPending = true ∨ a.admits state = false) := by
  unfold Bars
  refine exists_congr fun a => ?_
  rw [demands_iff]
  refine and_congr_right fun h => ?_
  have hr : a.isRestricted = true := (Option.filter_eq_some_iff.mp h).2
  rw [← admits_iff state hr, Bool.not_eq_true]

theorem element_eq {r : Route} (h : Created r) :
    r.element = (component? r).map fun c => .component c.1 c.2 := by
  obtain ⟨segment, view, children, below⟩ := h
  cases view with
  | none => rfl
  | some v => cases hv : v.component <;> simp [Route.create, Route.elementOf, component?, hv]

theorem protect_element (r : Route) :
    (Route.protect redirect r).element = Route.guardElement redirect r.config r.element := by
  cases r
  rfl

theorem protect_children (r : Route) :
    (Route.protect redirect r).children = Route.protectAll redirect r.children := by
  cases r
  rfl

theorem protectAll_eq_map (routes : List Route) :
    Route.protectAll redirect routes = routes.map (Route.protect redirect) := by
  induction routes with
  | nil => rfl
  | cons r rs ih => rw [Route.protectAll, ih, List.map_cons]

/-- A guarded route hides all below it from those it bars. -/
theorem render_of_bars {r : Route} (hr : Created r) (h : Bars state r) (outlet : Option Content) :
    renderOptional location state outlet (Route.protect redirect r).element =
      some (barrier redirect location state) := by
  obtain ⟨a, ha, hd⟩ := (bars_iff state r).mp h
  have hg : (Route.protect redirect r).element = some (.guarded redirect a r.element) := by
    rw [protect_element, Route.guardElement, ha, element_eq hr]
    cases component? r <;> rfl
  rw [hg]
  cases hp : state.isPending with
  | true => simp [renderOptional, Element.render, barrier, hp]
  | false =>
    have had : a.admits state = false := hd.resolve_left (by simp [hp])
    simp [renderOptional, Element.render, barrier, hp, had]

/-- To all others it shows its component around what is below it, or that alone. -/
theorem render_of_not_bars {r : Route} (hr : Created r) (h : ¬ Bars state r)
    (outlet : Option Content) :
    renderOptional location state outlet (Route.protect redirect r).element =
      nest (component? r).toList outlet := by
  have plain : renderOptional location state outlet r.element =
      nest (component? r).toList outlet := by
    rw [element_eq hr]
    cases component? r <;> rfl
  cases hc : Route.restriction? r.config with
  | none => rwa [protect_element, Route.guardElement, hc]
  | some a =>
    have hg : (Route.protect redirect r).element = some (.guarded redirect a r.element) := by
      rw [protect_element, Route.guardElement, hc, element_eq hr]
      cases component? r <;> rfl
    have hn : ¬ (state.isPending = true ∨ a.admits state = false) :=
      fun hd => h ((bars_iff state r).mpr ⟨a, hc, hd⟩)
    rw [not_or, Bool.not_eq_true, Bool.not_eq_false] at hn
    rw [hg]
    simpa [renderOptional, Element.render, hn.1, hn.2] using plain

theorem renderChain_cons (r : Route) (chain : List Route) :
    renderChain location state (r :: chain) =
      renderOptional location state (renderChain location state chain) r.element := rfl

theorem nest_append (cs ds : List (String × String)) (inner : Option Content) :
    nest (cs ++ ds) inner = nest cs (nest ds inner) := by
  unfold nest
  rw [List.foldr_append]

/-- Routes that bar nobody wrap their components around whatever is below them. -/
theorem renderChain_append (above below : List Route) (hc : ∀ r ∈ above, Created r)
    (hb : ∀ r ∈ above, ¬ Bars state r) :
    renderChain location state ((above ++ below).map (Route.protect redirect)) =
      nest (above.filterMap component?)
        (renderChain location state (below.map (Route.protect redirect))) := by
  induction above with
  | nil => rfl
  | cons r rs ih =>
    have hrs := ih (fun s hs => hc s (List.mem_cons_of_mem r hs))
      (fun s hs => hb s (List.mem_cons_of_mem r hs))
    have hr := hc r List.mem_cons_self
    rw [List.cons_append, List.map_cons, renderChain_cons,
      render_of_not_bars redirect location state hr (hb r List.mem_cons_self), hrs, ← nest_append]
    rw [List.filterMap_cons]
    cases component? r <;> rfl

theorem chainAt_protectAll (routes : List Route) (position : List Nat) :
    Table.chainAt (Route.protectAll redirect routes) position =
      (Table.chainAt routes position).map (Route.protect redirect) := by
  induction position generalizing routes with
  | nil => rfl
  | cons n ns ih =>
    rw [protectAll_eq_map, Table.chainAt, Table.chainAt, List.getElem?_map]
    cases routes[n]? with
    | none => rfl
    | some r => simp [protect_children, ih]

theorem created_children {r : Route} (h : Created r) : ∀ s ∈ r.children, Created s := by
  obtain ⟨segment, view, children, below⟩ := h
  exact below

theorem created_of_mem_chainAt {routes : List Route} (h : ∀ r ∈ routes, Created r)
    (position : List Nat) : ∀ r ∈ Table.chainAt routes position, Created r := by
  induction position generalizing routes with
  | nil => simp [Table.chainAt]
  | cons n ns ih =>
    rw [Table.chainAt]
    split
    · rename_i s hs
      have hm := h s (List.mem_of_getElem? hs)
      exact List.forall_mem_cons.mpr ⟨hm, ih (created_children hm)⟩
    · simp

/-- At every location the outermost route that bars the visitor decides: above it the components of
the matched chain are shown, in its place neutral content or the redirection. Where no route of the
chain bars the visitor, all its components are shown. -/
theorem render_protectAll (forest : List Route) (hf : ∀ r ∈ forest, Created r) :
    let table := Table.ofRoutes (Route.protectAll redirect forest)
    (table.match? location = none → table.render location state = none) ∧
    ∀ m, table.match? location = some m →
      let chain := Table.chainAt forest m.entry.position
      m.chain = chain.map (Route.protect redirect) ∧
      (∀ above B below, chain = above ++ B :: below → Bars state B →
        (∀ r ∈ above, ¬ Bars state r) →
        table.render location state =
            nest (above.filterMap component?) (some (barrier redirect location state)) ∧
          ((table.render location state).map components).getD [] =
            above.filterMap component?) ∧
      ((∀ r ∈ chain, ¬ Bars state r) →
        table.render location state = nest (chain.filterMap component?) none) := by
  intro table
  refine ⟨fun h => by simp [Table.render, h], fun m hm => ?_⟩
  intro chain
  have hchain : m.chain = chain.map (Route.protect redirect) := by
    rw [← chainAt_protectAll]
    obtain ⟨hit, -, rfl⟩ := Option.map_eq_some_iff.mp hm
    rfl
  have hrender : table.render location state =
      renderChain location state (chain.map (Route.protect redirect)) := by
    rw [Table.render, hm, Option.bind_some, hchain]
  have hc : ∀ r ∈ chain, Created r := created_of_mem_chainAt hf m.entry.position
  refine ⟨hchain, fun above B below he hB ha => ?_, fun hn => ?_⟩
  · rw [he] at hc hrender
    have hshown : table.render location state =
        nest (above.filterMap component?) (some (barrier redirect location state)) := by
      rw [hrender, renderChain_append redirect location state above (B :: below)
        (fun r hr => hc r (List.mem_append_left _ hr)) ha, List.map_cons, renderChain_cons,
        render_of_bars redirect location state (hc B (by simp)) hB]
    refine ⟨hshown, ?_⟩
    rw [hshown, components_nest, Option.map_some, components_barrier, Option.getD_some,
      List.append_nil]
  · have h := renderChain_append redirect location state chain [] hc hn
    rwa [List.append_nil, ← hrender] at h

def users : Route :=
  Route.create "users" (some ⟨"users.tsx", some "Users", none⟩) []

def admin : Route :=
  Route.create "admin"
    (some ⟨"admin.tsx", some "Admin", some { access := { rolesAllowed := ["ADMIN"] } }⟩) [users]

def home : Route :=
  Route.create "" (some ⟨"main.tsx", some "Main", none⟩) [admin]

theorem created_home : Created home :=
  .create _ _ _ (by
    simp only [List.mem_singleton, forall_eq]
    exact .create _ _ _ (by
      simp only [List.mem_singleton, forall_eq]
      exact .create _ _ _ (by simp)))

/-- The page of users lies below one for administrators; another user is sent away from it, inside
the layout. -/
theorem render_users_for_bob :
    ∃ m, (Table.ofRoutes (Route.protectAll "/login" [home])).match? "/admin/users/" = some m ∧
      Table.chainAt [home] m.entry.position = [home] ++ admin :: [users] ∧
      Bars (.signedIn ⟨"bob", ["USER"]⟩) admin ∧ ¬ Bars (.signedIn ⟨"bob", ["USER"]⟩) home ∧
      (Table.ofRoutes (Route.protectAll "/login" [home])).render "/admin/users/"
          (.signedIn ⟨"bob", ["USER"]⟩) =
        some (.component "Main" "main.tsx" (some (.redirect "/login" "/admin/users/"))) := by
  have he : ((Table.ofRoutes (Route.protectAll "/login" [home])).match? "/admin/users/").map
      Match.entry = some ⟨"/admin/users", [0, 0, 0], 20⟩ := by rfl
  obtain ⟨m, hm, hp⟩ := Option.map_eq_some_iff.mp he
  have hchain : Table.chainAt [home] m.entry.position = [home] ++ admin :: [users] := by
    rw [hp]
    rfl
  have hadmin : Bars (.signedIn ⟨"bob", ["USER"]⟩) admin :=
    (bars_iff _ admin).mpr ⟨{ rolesAllowed := ["ADMIN"] }, rfl, .inr rfl⟩
  have hhome : ¬ Bars (.signedIn ⟨"bob", ["USER"]⟩) home := by
    rw [bars_iff]
    rintro ⟨a, ha, -⟩
    cases ha
  have h := (render_protectAll "/login" "/admin/users/" (.signedIn ⟨"bob", ["USER"]⟩) [home]
    (by simpa using created_home)).2 m hm
  exact ⟨m, hm, hchain, hadmin, hhome,
    (h.2.1 [home] admin [users] hchain hadmin (by simpa using hhome)).1⟩

end TypedClient.Proofs.GuardedRendering
