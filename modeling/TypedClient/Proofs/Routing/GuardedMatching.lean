import TypedClient.Proofs.Routing.BestHit
import TypedClient.Proofs.Routing.GuardedRendering

namespace TypedClient.Proofs.GuardedMatching

open TypedClient.Routing TypedClient.Proofs.BestHit TypedClient.Proofs.GuardedRendering

def descend : Route → List Nat → Option Route
  | r, [] => some r
  | r, n :: ns => r.children[n]?.bind fun c => descend c ns

def routeAt (forest : List Route) : List Nat → Option Route
  | [] => none
  | n :: ns => forest[n]?.bind fun r => descend r ns

/-- A route that demands something, shows nothing and has routes below it. -/
def Hollow (r : Route) : Prop :=
  r.element = none ∧ r.children ≠ [] ∧ ∃ a, Demands r a

def isHollow (r : Route) : Bool :=
  r.element.isNone && !r.children.isEmpty && (Route.restriction? r.config).isSome

theorem isHollow_iff (r : Route) : isHollow r = true ↔ Hollow r := by
  simp only [isHollow, Hollow, Bool.and_eq_true, Option.isNone_iff_eq_none, Bool.not_eq_true',
    List.isEmpty_eq_false_iff, Option.isSome_iff_exists, demands_iff, and_assoc]

variable (redirect location : String)

theorem isSome_guardElement (config : Option ViewConfig) (element : Option Element) :
    (Route.guardElement redirect config element).isSome =
      (element.isSome || (Route.restriction? config).isSome) := by
  rw [Route.guardElement]
  cases Route.restriction? config with
  | none => simp
  | some a =>
    dsimp only
    split
    · rename_i h
      cases element with
      | none => cases h
      | some x => rfl
    · simp

theorem protect_segment (r : Route) : (Route.protect redirect r).segment = r.segment := by
  cases r
  rfl

theorem isMatchable_protect (r : Route) :
    Table.isMatchable (Route.protect redirect r).element (Route.protect redirect r).children =
      (Table.isMatchable r.element r.children || isHollow r) := by
  rw [protect_element, protect_children, protectAll_eq_map]
  simp only [Table.isMatchable, isHollow, isSome_guardElement, List.isEmpty_map]
  cases r.element <;> cases r.children.isEmpty <;> simp

theorem not_isMatchable_of_isHollow {r : Route} (h : isHollow r = true) :
    Table.isMatchable r.element r.children = false := by
  obtain ⟨he, hc, -⟩ := (isHollow_iff r).mp h
  simp [Table.isMatchable, he, hc]

theorem routeEntries_eq (parent : String) (position : List Nat) (r : Route) :
    Table.routeEntries parent position r =
      (if Table.isMatchable r.element r.children then
        [Table.entry r.segment (Pattern.join parent r.segment) position] else []) ++
      Table.entriesFrom (Pattern.join parent r.segment) position 0 r.children := by
  cases r
  rfl

/-- Of the entries of a route those stay that are not `marked`, where just the hollow routes are. -/
theorem own_entry_protect {marked : List Nat → Bool} {position : List Nat} {r : Route}
    (h : marked position = isHollow r) {e : Entry} (he : e.position = position) :
    (if Table.isMatchable r.element r.children then [e] else []) =
      (if Table.isMatchable (Route.protect redirect r).element (Route.protect redirect r).children
        then [e] else []).filter fun e => !marked e.position := by
  rw [isMatchable_protect]
  cases hh : isHollow r with
  | true =>
    rw [hh] at h
    rw [not_isMatchable_of_isHollow hh]
    simp [he, h]
  | false =>
    rw [hh] at h
    rw [Bool.or_false]
    split <;> simp [he, h]

mutual

theorem routeEntries_protect (marked : List Nat → Bool) (parent : String) :
    ∀ (r : Route) (position : List Nat),
      (∀ ns, marked (position ++ ns) = (descend r ns).any isHollow) →
      Table.routeEntries parent position r =
        (Table.routeEntries parent position (Route.protect redirect r)).filter
          fun e => !marked e.position
  | ⟨segment, view, element, config, children⟩, position, h => by
    have hown : marked position = isHollow ⟨segment, view, element, config, children⟩ := by
      simpa [descend] using h []
    have hbelow := entriesFrom_protect marked (Pattern.join parent segment) children position 0
      fun i ns => by simpa [descend] using h (i :: ns)
    rw [routeEntries_eq, routeEntries_eq, protect_segment, protect_children, List.filter_append]
    exact congrArg₂ (· ++ ·) (own_entry_protect redirect hown rfl) hbelow

theorem entriesFrom_protect (marked : List Nat → Bool) (parent : String) :
    ∀ (rs : List Route) (position : List Nat) (n : Nat),
      (∀ i ns, marked (position ++ (n + i) :: ns) =
        (rs[i]?.bind fun r => descend r ns).any isHollow) →
      Table.entriesFrom parent position n rs =
        (Table.entriesFrom parent position n (Route.protectAll redirect rs)).filter
          fun e => !marked e.position
  | [], _, _, _ => rfl
  | r :: rs, position, n, h => by
    have hr := routeEntries_protect marked parent r (position ++ [n]) fun ns => by
      simpa using h 0 ns
    have hrs := entriesFrom_protect marked parent rs position (n + 1) fun i ns => by
      simpa [Nat.add_assoc, Nat.add_comm 1 i] using h (i + 1) ns
    rw [Route.protectAll, Table.entriesFrom, Table.entriesFrom, List.filter_append, ← hr, ← hrs]

end

/-- Whether a route that is matched only when it is guarded stands at the position of a hit. -/
def fromGuard (forest : List Route) (hit : Entry × Captures) : Bool :=
  (routeAt forest hit.1.position).any isHollow

theorem hits_protectAll (forest : List Route) :
    (Table.ofRoutes forest).hits location =
      ((Table.ofRoutes (Route.protectAll redirect forest)).hits location).filter
        fun hit => !fromGuard forest hit := by
  have hentries : (Table.ofRoutes forest).entries =
      (Table.ofRoutes (Route.protectAll redirect forest)).entries.filter
        fun e => !(routeAt forest e.position).any isHollow :=
    entriesFrom_protect redirect (fun ns => (routeAt forest ns).any isHollow) "" forest [] 0
      fun i ns => by simp [routeAt]
  rw [Table.hits, Table.hits, hentries]
  generalize (Table.ofRoutes (Route.protectAll redirect forest)).entries = es
  induction es with
  | nil => rfl
  | cons e es ih =>
    rw [List.filter_cons, List.filterMap_cons]
    cases hc : Pattern.captures? e.pattern location with
    | none =>
      rw [Option.map_none, ← ih]
      split
      · rw [List.filterMap_cons, hc, Option.map_none]
      · rfl
    | some cs =>
      rw [Option.map_some, List.filter_cons, ← ih]
      split
      · rename_i h
        rw [List.filterMap_cons, hc, Option.map_some, if_pos (by exact h)]
      · rename_i h
        rw [if_neg (by exact h)]

def found (m : Match) : Entry × List (String × String) :=
  (m.entry, m.params)

theorem found_match? (t : Table) :
    (t.match? location).map found = (best (t.hits (Table.normalize location))).map fun hit =>
      (hit.1, Table.paramValues hit.1.pattern hit.2) := by
  rw [Table.match?, Option.map_map]
  rfl

theorem match?_eq_some_iff (t : Table) (m : Match) :
    t.match? location = some m ↔ ∃ hit, best (t.hits (Table.normalize location)) = some hit ∧
      m = ⟨hit.1, Table.chainAt t.routes hit.1.position, Table.paramValues hit.1.pattern hit.2⟩ := by
  rw [Table.match?, Option.map_eq_some_iff]
  simp only [eq_comm (b := m)]
  rfl

theorem fromGuard_iff (forest : List Route) (hit : Entry × Captures) :
    fromGuard forest hit = true ↔ ∃ r, routeAt forest hit.1.position = some r ∧ Hollow r := by
  simp only [fromGuard, Option.any_eq_true, isHollow_iff]

/-- A guarded forest matches a location as the forest itself does, except where it chooses a route
that demands something, shows nothing and has routes below it; that route is matched by no location
before. -/
theorem match?_protectAll_iff (forest : List Route) :
    ((Table.ofRoutes (Route.protectAll redirect forest)).match? location).map found =
        ((Table.ofRoutes forest).match? location).map found ↔
      ∀ m, (Table.ofRoutes (Route.protectAll redirect forest)).match? location = some m →
        ¬ ∃ r, routeAt forest m.entry.position = some r ∧ Hollow r := by
  have hhits := hits_protectAll redirect (Table.normalize location) forest
  simp only [found_match?, match?_eq_some_iff, hhits]
  generalize (Table.ofRoutes (Route.protectAll redirect forest)).hits (Table.normalize location) =
    hits
  cases hb : best hits with
  | none =>
    obtain rfl := best_eq_none_iff.mp hb
    simp [best]
  | some hit =>
    have hright : (∀ m : Match, (∃ h, some hit = some h ∧
        m = ⟨h.1, Table.chainAt (Table.ofRoutes (Route.protectAll redirect forest)).routes h.1.position,
          Table.paramValues h.1.pattern h.2⟩) →
        ¬ ∃ r, routeAt forest m.entry.position = some r ∧ Hollow r) ↔ fromGuard forest hit = false := by
      rw [← Bool.not_eq_true, fromGuard_iff]
      simp
    rw [hright]
    constructor
    · intro h
      cases hf : best (hits.filter fun hit => !fromGuard forest hit) with
      | none =>
        rw [hf] at h
        cases h
      | some other =>
        rw [hf] at h
        have hentry : hit.1 = other.1 := (Prod.mk.inj (Option.some.inj h)).1
        have hkept := (List.mem_filter.mp (best_spec hf).1).2
        rw [fromGuard, hentry]
        simpa [fromGuard] using hkept
    · intro h
      rw [best_filter hb (by rw [h]; rfl)]

/-- A page lies below a view without a component that asks for a visitor who is signed in. -/
def gated : List Route :=
  [Route.create "admin" (some ⟨"admin.tsx", none, some { access := { loginRequired := true } }⟩)
    [Route.create "users" (some ⟨"users.tsx", some "Users", none⟩) []]]

/-- Only the guard makes the view itself a route that a location can have. -/
theorem guarding_adds_route :
    (∀ r ∈ gated, Created r) ∧
      ((Table.ofRoutes gated).match? "/admin").map found = none ∧
      ((Table.ofRoutes (Route.protectAll "/login" gated)).match? "/admin").map found =
        some (⟨"/admin", [0], 10⟩, []) := by
  refine ⟨?_, by rfl, by rfl⟩
  simp only [gated, List.mem_singleton, forall_eq]
  refine .create _ _ _ ?_
  simp only [List.mem_singleton, forall_eq]
  exact .create _ _ _ (by simp)

end TypedClient.Proofs.GuardedMatching
