import TypedClient.Proofs.Routing.ManifestAgreement
import TypedClient.Proofs.Routing.RoutePrecedence

namespace TypedClient.Proofs.MatchedChains

open TypedClient.Routing TypedClient.Proofs.GuardedMatching TypedClient.Proofs.ManifestAgreement
open TypedClient.Proofs.PlacedRoutes

/-- The routes that are found at the places of a position, each among the children of the one before. -/
inductive Leads : List Route → List Nat → List Route → Prop
  | nil {rs : List Route} : Leads rs [] []
  | cons {rs chain : List Route} {r : Route} {n : Nat} {ns : List Nat} (hr : rs[n]? = some r)
      (hbelow : Leads r.children ns chain) : Leads rs (n :: ns) (r :: chain)

/-- A way down a forest: from the top to a route that may be matched, a child in each step. -/
structure WayDown (forest chain : List Route) : Prop where
  top : ∃ r ∈ forest, chain.head? = some r
  below : chain.IsChain fun r c => c ∈ r.children
  last : ∃ r, chain.getLast? = some r ∧ (r.element ≠ none ∨ r.children = [])

variable {forest rs chain : List Route} {r : Route} {position ns : List Nat}

theorem leads_chainAt (hr : routeAt forest position = some r) :
    Leads forest position (Table.chainAt forest position) := by
  induction position generalizing forest with
  | nil => cases hr
  | cons n ns ih =>
    obtain ⟨top, htop, hbelow⟩ := Option.bind_eq_some_iff.mp hr
    rw [chainAt_cons htop]
    cases ns with
    | nil => exact .cons htop .nil
    | cons i ns => exact .cons htop (ih hbelow)

theorem Leads.head_mem (h : Leads rs ns chain) : ∀ r ∈ chain.head?, r ∈ rs := by
  cases h with
  | nil => exact nofun
  | cons hr _ =>
    rintro _ ⟨⟩
    exact List.mem_of_getElem? hr

theorem Leads.isChain (h : Leads rs ns chain) : chain.IsChain fun r c => c ∈ r.children := by
  induction h with
  | nil => exact .nil
  | cons _ hbelow ih =>
    cases hbelow with
    | nil => exact .singleton _
    | cons hc _ => exact .cons_cons (List.mem_of_getElem? hc) ih

mutual

theorem found_routeEntries (find : List Nat → Option Route) (parent : String) :
    ∀ (r : Route) (position : List Nat), (∀ ns, find (position ++ ns) = descend r ns) →
      (Table.routeEntries parent position r).map (fun e => find e.position) =
        ((routesIn r).filter fun r => r.element.isSome || r.children.isEmpty).map some
  | ⟨segment, view, element, config, children⟩, position, h => by
    have hown : find position = some ⟨segment, view, element, config, children⟩ := by
      simpa [descend] using h []
    have hbelow := found_entriesFrom find (Pattern.join parent segment) children position 0
      fun i ns => by simpa [descend] using h (i :: ns)
    rw [routeEntries_eq, routesIn_eq, List.map_append, hbelow, List.filter_cons, Table.isMatchable]
    split
    · simp [Table.entry, hown]
    · rfl

/-- Where positions lead to routes, the entries lead to those that may be matched, in pre-order. -/
theorem found_entriesFrom (find : List Nat → Option Route) (parent : String) :
    ∀ (rs : List Route) (position : List Nat) (n : Nat),
      (∀ i ns, find (position ++ (n + i) :: ns) = rs[i]?.bind fun r => descend r ns) →
      (Table.entriesFrom parent position n rs).map (fun e => find e.position) =
        ((routesOf rs).filter fun r => r.element.isSome || r.children.isEmpty).map some
  | [], _, _, _ => rfl
  | r :: rs, position, n, h => by
    have hr := found_routeEntries find parent r (position ++ [n]) fun ns => by simpa using h 0 ns
    have hrs := found_entriesFrom find parent rs position (n + 1) fun i ns => by
      simpa [Nat.add_assoc, Nat.add_comm 1 i] using h (i + 1) ns
    rw [Table.entriesFrom, routesOf, List.map_append, hr, hrs, List.filter_append, List.map_append]

end

theorem wayDown_chainAt (hr : Matchable forest position r) :
    WayDown forest (Table.chainAt forest position) := by
  have hleads := leads_chainAt hr.found
  have hlast := getLast?_chainAt hr.found
  obtain ⟨top, htop⟩ : ∃ top, (Table.chainAt forest position).head? = some top := by
    cases hchain : Table.chainAt forest position with
    | nil => simp [hchain] at hlast
    | cons top chain => exact ⟨top, rfl⟩
  exact ⟨⟨top, hleads.head_mem top htop, htop⟩, hleads.isChain, r, hlast, hr.shown⟩

/-- The entries of a table are the routes of its forest that show something or have nothing below them,
each once and in pre-order, and their positions stay inside the forest. The chain of a match is a way
down the forest, and its pattern is made of the segments on this way. -/
theorem match?_wayDown (forest : List Route) (location : String) :
    (Table.ofRoutes forest).entries.map (fun e => routeAt forest e.position) =
      ((routesOf forest).filter fun r => r.element.isSome || r.children.isEmpty).map some ∧
    Ordered (Table.ofRoutes forest).entries ∧
    (∀ e ∈ (Table.ofRoutes forest).entries,
      Leads forest e.position (Table.chainAt forest e.position)) ∧
    ∀ m, (Table.ofRoutes forest).match? location = some m →
      m.entry ∈ (Table.ofRoutes forest).entries ∧
      m.chain = Table.chainAt forest m.entry.position ∧ WayDown forest m.chain ∧
      m.entry.pattern = (m.chain.map Route.segment).foldl Pattern.join "" := by
  refine ⟨found_entriesFrom (routeAt forest) "" forest [] 0 fun i ns => by simp [routeAt],
    ordered_entriesFrom "" forest [] 0, fun e he => ?_, fun m hm => ?_⟩
  · obtain ⟨position, r, hr, rfl⟩ := mem_entries_iff.mp he
    exact leads_chainAt hr.found
  · obtain ⟨r, hr, hentry, hchain, -⟩ := match?_found hm
    have hmem : m.entry ∈ (Table.ofRoutes forest).entries :=
      mem_entries_iff.mpr ⟨m.entry.position, r, hr, hentry⟩
    have hpattern : m.entry.pattern = patternAt forest m.entry.position :=
      congrArg Entry.pattern hentry
    rw [hchain]
    exact ⟨hmem, rfl, wayDown_chainAt hr, hpattern⟩

/-- The way to a page leads through a directory that shows nothing. -/
theorem match?_wayDown_documents : ∃ m,
    (Table.ofRoutes RoutePrecedence.documents).match? "/docs/intro/" = some m ∧
      m.chain.map Route.segment = ["docs", ":page", ""] ∧
      WayDown RoutePrecedence.documents m.chain ∧ m.entry.pattern = "/docs/:page" := by
  obtain ⟨-, -, -, hmatch⟩ := match?_wayDown RoutePrecedence.documents "/docs/intro/"
  have hfound : ((Table.ofRoutes RoutePrecedence.documents).match? "/docs/intro/").map
      (fun m => m.chain.map Route.segment) = some ["docs", ":page", ""] := by rfl
  obtain ⟨m, hm, hsegments⟩ := Option.map_eq_some_iff.mp hfound
  obtain ⟨-, -, hway, hpattern⟩ := hmatch m hm
  exact ⟨m, hm, hsegments, hway, by rw [hpattern, hsegments]; rfl⟩

end TypedClient.Proofs.MatchedChains
