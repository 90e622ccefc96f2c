import TypedClient.Proofs.Routing.ManifestAgreement

namespace TypedClient.Proofs.GuardedForests

open TypedClient.Routing TypedClient.Proofs.GuardedRendering TypedClient.Proofs.GuardedMatching
open TypedClient.Proofs.ManifestAgreement

def HasGuard (r : Route) : Prop :=
  ∃ redirect access inner, r.element = some (.guarded redirect access inner)

def Open (r : Route) : Prop :=
  (∃ access, Demands r access) ∧ ¬ HasGuard r

inductive Receives (redirect : String) (r : Route) : Option Element → Prop
  | wrapped {access : Access} (hdemands : Demands r access) (hguard : ¬ HasGuard r) :
      Receives redirect r (some (.guarded redirect access r.element))
  | kept (h : ¬ Open r) : Receives redirect r r.element

/-- A route and the same one after guarding: it keeps all but its element, and its children are guarded
in their order. -/
inductive Guards (redirect : String) : Route → Route → Prop
  | route {r : Route} {element : Option Element} {children : List Route}
      (helement : Receives redirect r element)
      (hchildren : List.Forall₂ (Guards redirect) r.children children) :
      Guards redirect r { r with element, children }

def isOpen (r : Route) : Bool :=
  (Route.restriction? r.config).isSome && !r.element.any Element.isGuarded

variable (redirect redirect' : String) {r : Route}

theorem hasGuard_iff : HasGuard r ↔ r.element.any Element.isGuarded = true := by
  rw [HasGuard]
  cases r.element with
  | none => simp
  | some e => cases e <;> simp [Element.isGuarded]

theorem isOpen_iff : isOpen r = true ↔ Open r := by
  simp only [isOpen, Open, Bool.and_eq_true, Option.isSome_iff_exists, demands_iff, hasGuard_iff,
    Bool.not_eq_true']
  simp

theorem receives_guardElement (r : Route) :
    Receives redirect r (Route.guardElement redirect r.config r.element) := by
  rw [Route.guardElement]
  cases ha : Route.restriction? r.config with
  | none =>
    refine .kept fun hopen => ?_
    obtain ⟨access, hdemands⟩ := hopen.1
    rw [demands_iff, ha] at hdemands
    cases hdemands
  | some access =>
    dsimp only
    split
    · rename_i hguard
      exact .kept fun hopen => hopen.2 (hasGuard_iff.mpr hguard)
    · rename_i hguard
      exact .wrapped ((demands_iff r access).mpr ha) fun h => hguard (hasGuard_iff.mp h)

theorem guardElement_of_not_isOpen (h : isOpen r = false) :
    Route.guardElement redirect r.config r.element = r.element := by
  have hreceives := receives_guardElement redirect r
  generalize Route.guardElement redirect r.config r.element = element at hreceives
  cases hreceives with
  | wrapped hdemands hguard => exact absurd (isOpen_iff.mpr ⟨⟨_, hdemands⟩, hguard⟩) (by simp [h])
  | kept _ => rfl

theorem protect_config (r : Route) : (Route.protect redirect r).config = r.config := by
  cases r
  rfl

theorem isOpen_protect (r : Route) : isOpen (Route.protect redirect r) = false := by
  have hreceives := receives_guardElement redirect r
  rw [isOpen, protect_config, protect_element]
  generalize Route.guardElement redirect r.config r.element = element at hreceives
  cases hreceives with
  | wrapped _ _ => simp [Element.isGuarded]
  | kept hclosed => exact Bool.eq_false_iff.mpr (mt isOpen_iff.mp hclosed)

mutual

theorem exchanged_eq : ∀ r : Route, Route.exchanged r = (routesIn r).map isOpen
  | ⟨_, _, _, _, children⟩ => congrArg (List.cons _) (exchangedAll_eq children)

theorem exchangedAll_eq : ∀ rs : List Route, Route.exchangedAll rs = (routesOf rs).map isOpen
  | [] => rfl
  | r :: rs => by
    rw [Route.exchangedAll, routesOf, exchanged_eq r, exchangedAll_eq rs, List.map_append]

end

mutual

theorem protect_of_settled : ∀ r : Route, (∀ s ∈ routesIn r, isOpen s = false) →
    Route.protect redirect r = r
  | ⟨segment, view, element, config, children⟩, h => by
    obtain ⟨hr, hchildren⟩ := List.forall_mem_cons.mp h
    have helement : Route.guardElement redirect config element = element :=
      guardElement_of_not_isOpen redirect hr
    rw [Route.protect, helement, protectAll_of_settled children hchildren]

theorem protectAll_of_settled : ∀ rs : List Route, (∀ s ∈ routesOf rs, isOpen s = false) →
    Route.protectAll redirect rs = rs
  | [], _ => rfl
  | r :: rs, h => by
    obtain ⟨hr, hrs⟩ := List.forall_mem_append.mp h
    rw [Route.protectAll, protect_of_settled r hr, protectAll_of_settled rs hrs]

end

theorem settled_protectAll (forest : List Route) :
    ∀ s ∈ routesOf (Route.protectAll redirect forest), isOpen s = false := by
  rw [routesOf_protectAll, List.forall_mem_map]
  exact fun r _ => isOpen_protect redirect r

mutual

theorem guards_protect : ∀ r : Route, Guards redirect r (Route.protect redirect r)
  | ⟨segment, view, element, config, children⟩ =>
    .route (receives_guardElement redirect ⟨segment, view, element, config, children⟩)
      (guards_protectAll children)

theorem guards_protectAll : ∀ rs : List Route,
    List.Forall₂ (Guards redirect) rs (Route.protectAll redirect rs)
  | [] => .nil
  | r :: rs => .cons (guards_protect r) (guards_protectAll rs)

end

/-- Guarding puts a guard around the elements of just the open routes, at every depth, and leaves all
else as it is; and guarding once more, for any redirection, changes nothing. -/
theorem protectAll_exact (forest : List Route) :
    List.Forall₂ (Guards redirect) forest (Route.protectAll redirect forest) ∧
    List.Forall₂ (fun exchanged r => exchanged = true ↔ Open r)
      (Route.exchangedAll forest) (routesOf forest) ∧
    Route.protectAll redirect' (Route.protectAll redirect forest) =
      Route.protectAll redirect forest ∧
    true ∉ Route.exchangedAll (Route.protectAll redirect forest) := by
  refine ⟨guards_protectAll redirect forest, ?_,
    protectAll_of_settled redirect' _ (settled_protectAll redirect forest), ?_⟩
  · rw [exchangedAll_eq, List.forall₂_map_left_iff, List.forall₂_same]
    exact fun r _ => isOpen_iff
  · rw [exchangedAll_eq, List.mem_map]
    rintro ⟨s, hs, hopen⟩
    exact absurd hopen (by simp [settled_protectAll redirect forest s hs])

end TypedClient.Proofs.GuardedForests
