import Mathlib.Data.List.Lex
import TypedClient.Proofs.Routing.GuardedMatching

namespace TypedClient.Routing

/-- The full pattern at a position of a forest: the segments of the routes that lead there, joined. -/
def patternAt (forest : List Route) (position : List Nat) : String :=
  ((Table.chainAt forest position).map Route.segment).foldl Pattern.join ""

end TypedClient.Routing

namespace TypedClient.Proofs.PlacedRoutes

open TypedClient.Routing TypedClient.Proofs.BestHit TypedClient.Proofs.GuardedMatching

/-- A location may be matched to the route at a position: the route shows something or has nothing
below it. -/
structure Matchable (forest : List Route) (position : List Nat) (r : Route) : Prop where
  found : routeAt forest position = some r
  shown : r.element ≠ none ∨ r.children = []

def entryOf (forest : List Route) (position : List Nat) (r : Route) : Entry :=
  Table.entry r.segment (patternAt forest position) position

def Accepted (pattern location : String) : Prop :=
  (Pattern.captures? pattern location).isSome

/-- Of two entries that match a location the first is preferred: it weighs more, or as much and lies
deeper, or as deep and stands in front. -/
def Preferred (a b : Entry) : Prop :=
  BestHit.rank b < BestHit.rank a ∨
    (BestHit.rank b = BestHit.rank a ∧ List.Lex (· < ·) a.position b.position)

variable {forest rs : List Route} {r top c : Route} {parent location pattern : String}
  {position ns : List Nat} {n i : Nat} {e a b : Entry} {m : Match}

theorem descend_append (r : Route) (ns : List Nat) (n : Nat) :
    descend r (ns ++ [n]) = (descend r ns).bind fun c => c.children[n]? := by
  induction ns generalizing r with
  | nil => simp [descend, Option.bind_some]
  | cons i ns ih =>
    rw [List.cons_append, descend, descend]
    cases r.children[i]? with
    | none => rfl
    | some c => exact ih c

theorem routeAt_append (hr : routeAt forest position = some r) (n : Nat) :
    routeAt forest (position ++ [n]) = r.children[n]? := by
  cases position with
  | nil => cases hr
  | cons i ns =>
    obtain ⟨top, htop, hbelow⟩ := Option.bind_eq_some_iff.mp hr
    rw [List.cons_append, routeAt, htop, Option.bind_some, descend_append, hbelow, Option.bind_some]

theorem chainAt_cons (htop : forest[i]? = some top) (ns : List Nat) :
    Table.chainAt forest (i :: ns) = top :: Table.chainAt top.children ns := by
  rw [Table.chainAt, htop]

theorem chainAt_append (hr : routeAt forest position = some r) (ns : List Nat) :
    Table.chainAt forest (position ++ ns) =
      Table.chainAt forest position ++ Table.chainAt r.children ns := by
  induction position generalizing forest with
  | nil => cases hr
  | cons i ms ih =>
    obtain ⟨top, htop, hbelow⟩ := Option.bind_eq_some_iff.mp hr
    rw [List.cons_append, chainAt_cons htop, chainAt_cons htop, List.cons_append]
    cases ms with
    | nil =>
      obtain rfl := Option.some.inj hbelow
      rfl
    | cons j ms => exact congrArg (top :: ·) (ih hbelow)

theorem getLast?_chainAt (hr : routeAt forest position = some r) :
    (Table.chainAt forest position).getLast? = some r := by
  induction position generalizing forest with
  | nil => cases hr
  | cons i ms ih =>
    obtain ⟨top, htop, hbelow⟩ := Option.bind_eq_some_iff.mp hr
    rw [chainAt_cons htop]
    cases ms with
    | nil =>
      obtain rfl := Option.some.inj hbelow
      rfl
    | cons j ms => rw [List.getLast?_cons, ih hbelow, Option.getD_some]

theorem patternAt_append (hr : routeAt forest position = some r) (hc : r.children[n]? = some c) :
    patternAt forest (position ++ [n]) = Pattern.join (patternAt forest position) c.segment := by
  rw [patternAt, chainAt_append hr, chainAt_cons hc, List.map_append, List.foldl_append]
  rfl

theorem isMatchable_iff : Table.isMatchable r.element r.children = true ↔
    r.element ≠ none ∨ r.children = [] := by
  simp [Table.isMatchable, Option.isSome_iff_ne_none]

mutual

theorem mem_routeEntries_iff (parent : String) : ∀ (r : Route) (position : List Nat),
    e ∈ Table.routeEntries parent position r ↔ ∃ ns r', descend r ns = some r' ∧
      Table.isMatchable r'.element r'.children = true ∧
      e = Table.entry r'.segment (((r :: Table.chainAt r.children ns).map Route.segment).foldl
        Pattern.join parent) (position ++ ns)
  | ⟨segment, view, element, config, children⟩, position => by
    have hbelow := mem_entriesFrom_iff (Pattern.join parent segment) children position 0
    rw [routeEntries_eq, List.mem_append, List.mem_ite_nil_right, List.mem_singleton, hbelow]
    constructor
    · rintro (⟨hshown, rfl⟩ | ⟨i, ns, r', hr', hshown, rfl⟩)
      · exact ⟨[], _, rfl, hshown, by simp [Table.chainAt]⟩
      · exact ⟨i :: ns, r', hr', hshown, by simp⟩
    · rintro ⟨ns, r', hr', hshown, rfl⟩
      cases ns with
      | nil =>
        obtain rfl := Option.some.inj hr'
        exact .inl ⟨hshown, by simp [Table.chainAt]⟩
      | cons i ns => exact .inr ⟨i, ns, r', hr', hshown, by simp⟩

theorem mem_entriesFrom_iff (parent : String) : ∀ (rs : List Route) (position : List Nat) (n : Nat),
    e ∈ Table.entriesFrom parent position n rs ↔ ∃ i ns r',
      (rs[i]?.bind fun r => descend r ns) = some r' ∧
      Table.isMatchable r'.element r'.children = true ∧
      e = Table.entry r'.segment (((Table.chainAt rs (i :: ns)).map Route.segment).foldl
        Pattern.join parent) (position ++ (n + i) :: ns)
  | [], position, n => by simp [Table.entriesFrom]
  | r :: rs, position, n => by
    have hr := mem_routeEntries_iff parent r (position ++ [n])
    have hrs := mem_entriesFrom_iff parent rs position (n + 1)
    rw [Table.entriesFrom, List.mem_append, hr, hrs]
    constructor
    · rintro (⟨ns, r', hr', hshown, rfl⟩ | ⟨i, ns, r', hr', hshown, rfl⟩)
      · exact ⟨0, ns, r', hr', hshown, by simp [Table.chainAt]⟩
      · have hnext : n + 1 + i = n + (i + 1) := by omega
        exact ⟨i + 1, ns, r', hr', hshown, by simp [Table.chainAt, hnext]⟩
    · rintro ⟨i, ns, r', hr', hshown, rfl⟩
      cases i with
      | zero => exact .inl ⟨ns, r', hr', hshown, by simp [Table.chainAt]⟩
      | succ i =>
        have hnext : n + 1 + i = n + (i + 1) := by omega
        exact .inr ⟨i, ns, r', hr', hshown, by simp [Table.chainAt, hnext]⟩

end

theorem mem_entries_iff : e ∈ (Table.ofRoutes forest).entries ↔
    ∃ position r, Matchable forest position r ∧ e = entryOf forest position r := by
  rw [Table.ofRoutes, mem_entriesFrom_iff]
  constructor
  · rintro ⟨i, ns, r, hr, hshown, rfl⟩
    refine ⟨i :: ns, r, ⟨hr, isMatchable_iff.mp hshown⟩, ?_⟩
    rw [entryOf, patternAt, List.nil_append, Nat.zero_add]
  · rintro ⟨position, r, ⟨hr, hshown⟩, rfl⟩
    cases position with
    | nil => cases hr
    | cons i ns =>
      refine ⟨i, ns, r, hr, isMatchable_iff.mpr hshown, ?_⟩
      rw [entryOf, patternAt, List.nil_append, Nat.zero_add]

/-- The positions of entries, each in front of those below and behind it. -/
def Ordered (es : List Entry) : Prop :=
  es.Pairwise fun a b => List.Lex (· < ·) a.position b.position

theorem lex_append_cons (position ns : List Nat) (n : Nat) :
    List.Lex (· < ·) position (position ++ n :: ns) := by
  simpa using List.Lex.append_left (· < ·) (List.Lex.nil (a := n) (l := ns)) position

mutual

theorem ordered_routeEntries (parent : String) : ∀ (r : Route) (position : List Nat),
    Ordered (Table.routeEntries parent position r)
  | ⟨segment, view, element, config, children⟩, position => by
    rw [routeEntries_eq, Ordered, List.pairwise_append]
    refine ⟨?_, ordered_entriesFrom _ children position 0, fun a ha b hb => ?_⟩
    · split
      · exact List.pairwise_singleton _ _
      · exact .nil
    · rw [List.mem_ite_nil_right, List.mem_singleton] at ha
      obtain ⟨-, rfl⟩ := ha
      obtain ⟨i, ns, -, -, -, rfl⟩ := (mem_entriesFrom_iff _ children position 0).mp hb
      exact lex_append_cons position ns (0 + i)

theorem ordered_entriesFrom (parent : String) : ∀ (rs : List Route) (position : List Nat) (n : Nat),
    Ordered (Table.entriesFrom parent position n rs)
  | [], _, _ => .nil
  | r :: rs, position, n => by
    rw [Table.entriesFrom, Ordered, List.pairwise_append]
    refine ⟨ordered_routeEntries parent r _, ordered_entriesFrom parent rs position (n + 1),
      fun a ha b hb => ?_⟩
    obtain ⟨ns, -, -, -, rfl⟩ := (mem_routeEntries_iff parent r _).mp ha
    obtain ⟨i, ms, -, -, -, rfl⟩ := (mem_entriesFrom_iff parent rs position (n + 1)).mp hb
    have hlex : List.Lex (· < ·) (n :: ns) ((n + 1 + i) :: ms) := .rel (by omega)
    simpa [Table.entry] using List.Lex.append_left (· < ·) hlex position

end

theorem mem_hits_iff {t : Table} {hit : Entry × Captures} : hit ∈ t.hits location ↔
    hit.1 ∈ t.entries ∧ Pattern.captures? hit.1.pattern location = some hit.2 := by
  obtain ⟨e, cs⟩ := hit
  simp [Table.hits, Prod.ext_iff]

theorem accepted_iff : Accepted pattern location ↔
    ∃ cs, Pattern.captures? pattern location = some cs :=
  Option.isSome_iff_exists

theorem ordered_hits (forest : List Route) (location : String) :
    ((Table.ofRoutes forest).hits location).Pairwise
      fun a b => List.Lex (· < ·) a.1.position b.1.position := by
  refine (ordered_entriesFrom "" forest [] 0).filterMap _ fun a b hab => ?_
  rintro x hx y hy
  obtain ⟨_, -, rfl⟩ := Option.map_eq_some_iff.mp hx
  obtain ⟨_, -, rfl⟩ := Option.map_eq_some_iff.mp hy
  exact hab

theorem match?_found (h : (Table.ofRoutes forest).match? location = some m) :
    ∃ r, Matchable forest m.entry.position r ∧ m.entry = entryOf forest m.entry.position r ∧
      m.chain = Table.chainAt forest m.entry.position ∧
      Accepted (patternAt forest m.entry.position) (Table.normalize location) := by
  obtain ⟨hit, hbest, rfl⟩ := (match?_eq_some_iff location _ m).mp h
  obtain ⟨hmem, hcaptures⟩ := mem_hits_iff.mp (best_spec hbest).1
  obtain ⟨position, r, hr, hentry⟩ := mem_entries_iff.mp hmem
  have hposition : hit.1.position = position := by
    rw [hentry]
    rfl
  subst hposition
  have hpattern : hit.1.pattern = patternAt forest hit.1.position := congrArg Entry.pattern hentry
  rw [hpattern] at hcaptures
  exact ⟨r, hr, hentry, rfl, accepted_iff.mpr ⟨_, hcaptures⟩⟩

theorem match?_preferred (h : (Table.ofRoutes forest).match? location = some m)
    (hr : Matchable forest position r)
    (haccepted : Accepted (patternAt forest position) (Table.normalize location)) :
    m.entry = entryOf forest position r ∨ Preferred m.entry (entryOf forest position r) := by
  obtain ⟨hit, hbest, rfl⟩ := (match?_eq_some_iff location _ m).mp h
  obtain ⟨cs, hcs⟩ := accepted_iff.mp haccepted
  have hmem : (entryOf forest position r, cs) ∈ (Table.ofRoutes forest).hits (Table.normalize location) :=
    mem_hits_iff.mpr ⟨mem_entries_iff.mpr ⟨position, r, hr, rfl⟩, hcs⟩
  obtain ⟨before, after, hsplit, hbefore⟩ := best_first hbest
  have hordered := ordered_hits forest (Table.normalize location)
  have hmax := (best_spec hbest).2 _ hmem
  rw [hsplit] at hmem hordered
  obtain hmem | hmem := List.mem_append.mp hmem
  · exact .inr (.inl (hbefore _ hmem))
  · obtain heq | hmem := List.mem_cons.mp hmem
    · exact .inl (congrArg Prod.fst heq).symm
    · have hlex := (List.pairwise_cons.mp (List.pairwise_append.mp hordered).2.1).1 _ hmem
      exact .inr (hmax.lt_or_eq.imp id fun heq => ⟨heq, hlex⟩)

theorem match?_eq_none_iff : (Table.ofRoutes forest).match? location = none ↔
    ∀ position r, Matchable forest position r →
      ¬ Accepted (patternAt forest position) (Table.normalize location) := by
  rw [Table.match?, Option.map_eq_none_iff]
  change best _ = none ↔ _
  rw [best_eq_none_iff, List.eq_nil_iff_forall_not_mem]
  constructor
  · intro h position r hr haccepted
    obtain ⟨cs, hcs⟩ := accepted_iff.mp haccepted
    exact h (entryOf forest position r, cs)
      (mem_hits_iff.mpr ⟨mem_entries_iff.mpr ⟨position, r, hr, rfl⟩, hcs⟩)
  · intro h hit hmem
    obtain ⟨hentry, hcs⟩ := mem_hits_iff.mp hmem
    obtain ⟨position, r, hr, hentry⟩ := mem_entries_iff.mp hentry
    rw [hentry] at hcs
    exact h position r hr (accepted_iff.mpr ⟨_, hcs⟩)

theorem Preferred.asymm (h : Preferred a b) : ¬ Preferred b a := by
  rintro (h' | ⟨h', hlex'⟩)
  · obtain h | ⟨h, -⟩ := h
    · exact lt_asymm h h'
    · exact h.not_gt h'
  · obtain h | ⟨-, hlex⟩ := h
    · exact h'.not_gt h
    · exact List.lex_asymm (fun h h' => Nat.lt_asymm h h') hlex hlex'

theorem Preferred.rank_le (h : Preferred a b) : BestHit.rank b ≤ BestHit.rank a :=
  h.elim le_of_lt fun h => h.1.le

/-- A location is matched to a route of some kind exactly if one of these is preferred to all routes of
other kinds that match it. -/
theorem match?_iff (kind : Entry → Prop) :
    (∃ m, (Table.ofRoutes forest).match? location = some m ∧ kind m.entry) ↔
      ∃ position r, Matchable forest position r ∧ kind (entryOf forest position r) ∧
        Accepted (patternAt forest position) (Table.normalize location) ∧
        ∀ position' r', Matchable forest position' r' →
          Accepted (patternAt forest position') (Table.normalize location) →
          ¬ kind (entryOf forest position' r') →
          Preferred (entryOf forest position r) (entryOf forest position' r') := by
  constructor
  · rintro ⟨m, hm, hkind⟩
    obtain ⟨r, hr, hentry, -, haccepted⟩ := match?_found hm
    refine ⟨_, r, hr, hentry ▸ hkind, haccepted, fun position' r' hr' haccepted' hother => ?_⟩
    obtain heq | hpreferred := match?_preferred hm hr' haccepted'
    · exact absurd (heq ▸ hkind) hother
    · exact hentry ▸ hpreferred
  · rintro ⟨position, r, hr, hkind, haccepted, hall⟩
    cases hm : (Table.ofRoutes forest).match? location with
    | none => exact absurd haccepted (match?_eq_none_iff.mp hm position r hr)
    | some m =>
      refine ⟨m, rfl, by_contra fun hother => ?_⟩
      obtain ⟨r', hr', hentry, -, haccepted'⟩ := match?_found hm
      have hpreferred := hall _ r' hr' haccepted' (hentry ▸ hother)
      rw [← hentry] at hpreferred
      obtain heq | hpreferred' := match?_preferred hm hr haccepted
      · exact hother (heq ▸ hkind)
      · exact hpreferred.asymm hpreferred'

end TypedClient.Proofs.PlacedRoutes
