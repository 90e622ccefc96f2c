import Mathlib.Algebra.Order.Group.Int
import TypedClient.Proofs.Routing.PlacedRoutes
import TypedClient.Proofs.Text.Pieces

namespace TypedClient.Routing

def Token.specificity : Token → Nat
  | literal _ => 3
  | param _ => 2
  | optional _ => 1
  | rest => 0

/-- A static segment outdoes all others, and all others outdo the catch-all. -/
def Token.Outdoes (a b : Token) : Prop :=
  (∃ s, a = literal s) ∧ (∀ s, b ≠ literal s) ∨ a ≠ rest ∧ b = rest

end TypedClient.Routing

namespace TypedClient.Proofs.RoutePrecedence

open TypedClient.Routing TypedClient.Text TypedClient.Proofs.BestHit TypedClient.Proofs.Pieces
open TypedClient.Proofs.GuardedMatching TypedClient.Proofs.PlacedRoutes

variable {forest : List Route} {r c : Route} {location pattern pattern' : String}
  {position position' ns : List Nat} {n : Nat} {s t : Token} {ss ts : List Token}

theorem weight_mono (h : t.specificity ≤ s.specificity) : t.weight ≤ s.weight := by
  cases s <;> cases t <;> simp_all [Token.specificity, Token.weight]

theorem weight_gap (h : s.Outdoes t) : t.weight + 4 ≤ s.weight := by
  cases s <;> cases t <;> simp_all [Token.Outdoes, Token.weight]

def total (ts : List Token) : Int :=
  ts.foldr (fun t w => t.weight + w) 0

theorem total_cons : total (t :: ts) = t.weight + total ts := rfl

theorem total_mono (h : List.Forall₂ (fun s t => t.specificity ≤ s.specificity) ss ts) :
    total ts ≤ total ss := by
  induction h with
  | nil => exact le_rfl
  | cons hst _ ih => exact add_le_add (weight_mono hst) ih

/-- One segment that outdoes its counterpart makes up for more than the weight of an index route. -/
theorem total_gap (h : List.Forall₂ (fun s t => t.specificity ≤ s.specificity) ss ts)
    (hgap : ∃ x ∈ ss.zip ts, x.1.Outdoes x.2) : total ts + 4 ≤ total ss := by
  induction h with
  | nil => simp at hgap
  | @cons s t ss ts hst hrest ih =>
    rw [List.zip_cons_cons, List.exists_mem_cons_iff] at hgap
    rw [total_cons, total_cons]
    obtain hgap | hgap := hgap
    · have hhere : t.weight + 4 ≤ s.weight := weight_gap hgap
      have hbehind : total ts ≤ total ss := total_mono hrest
      omega
    · have hhere : t.weight ≤ s.weight := weight_mono hst
      have hbehind : total ts + 4 ≤ total ss := ih hgap
      omega

theorem weight_entryOf (forest : List Route) (position : List Nat) (r : Route) :
    (entryOf forest position r).weight = total (Pattern.tokens (patternAt forest position)) +
      if r.segment = "" ∧ 1 < position.length then 2 else 0 := by
  simp [entryOf, Table.entry, Pattern.weight, total]

/-- Of two routes that match a location the less specific one is not chosen. -/
theorem match?_specific (hr : Matchable forest position r)
    (haccepted : Accepted (patternAt forest position) (Table.normalize location))
    (hspecific : List.Forall₂ (fun s t => t.specificity ≤ s.specificity)
      (Pattern.tokens (patternAt forest position)) (Pattern.tokens (patternAt forest position')))
    (hgap : ∃ x ∈ (Pattern.tokens (patternAt forest position)).zip
      (Pattern.tokens (patternAt forest position')), x.1.Outdoes x.2) :
    ∃ m, (Table.ofRoutes forest).match? location = some m ∧ m.entry.position ≠ position' := by
  cases hm : (Table.ofRoutes forest).match? location with
  | none => exact absurd haccepted (match?_eq_none_iff.mp hm position r hr)
  | some m =>
    refine ⟨m, rfl, ?_⟩
    rintro rfl
    obtain ⟨r', -, hentry, -, -⟩ := match?_found hm
    have hle : BestHit.rank (entryOf forest position r) ≤ BestHit.rank m.entry :=
      (match?_preferred hm hr haccepted).elim (fun h => h ▸ le_rfl) Preferred.rank_le
    have hweight : (entryOf forest position r).weight ≤ m.entry.weight :=
      (Prod.Lex.toLex_le_toLex.mp hle).elim le_of_lt fun h => h.1.le
    have hless := total_gap hspecific hgap
    rw [hentry, weight_entryOf, weight_entryOf] at hweight
    split_ifs at hweight <;> omega

/-- A page of its own beside pages of any name, which have an index route. -/
def documents : List Route :=
  [Route.create "docs/new" (some ⟨"new.tsx", some "New", none⟩) [],
    Route.create "docs" none [Route.create ":page" (some ⟨"page.tsx", some "Page", none⟩)
      [Route.create "" (some ⟨"index.tsx", some "Index", none⟩) []]]]

theorem match?_specific_documents : ∃ m,
    (Table.ofRoutes documents).match? "/docs/new/" = some m ∧ m.entry.position ≠ [1, 0, 0] := by
  have hr : Matchable documents [0] _ := ⟨rfl, .inr rfl⟩
  have hnew : Pattern.tokens (patternAt documents [0]) = [.literal "docs", .literal "new"] := by rfl
  have hpage : Pattern.tokens (patternAt documents [1, 0, 0]) = [.literal "docs", .param "page"] := by
    rfl
  refine match?_specific hr (by rfl) ?_ ?_
  · rw [hnew, hpage]
    exact .cons le_rfl (.cons (by decide) .nil)
  · rw [hnew, hpage]
    exact ⟨(.literal "new", .param "page"), by simp, .inl ⟨⟨_, rfl⟩, by simp⟩⟩

theorem tokens_append_slash (s : String) : Pattern.tokens (s ++ "/") = Pattern.tokens s := by
  rw [Pattern.tokens, pieces_append_slash, List.filter_append]
  simp [Pattern.tokens]

theorem tokens_trimEnd (cs : List Char) :
    Pattern.tokens (String.ofList (trimEnd (· == '/') cs)) = Pattern.tokens (String.ofList cs) := by
  induction cs using List.reverseRecOn with
  | nil => rfl
  | append_singleton cs c ih =>
    by_cases hc : c = '/'
    · subst hc
      have hdrop : trimEnd (· == '/') (cs ++ ['/']) = trimEnd (· == '/') cs := by
        simp [trimEnd]
      rw [hdrop, ih, String.ofList_append]
      exact (tokens_append_slash _).symm
    · have hkeep : trimEnd (· == '/') (cs ++ [c]) = cs ++ [c] := by
        simp [trimEnd, hc]
      rw [hkeep]

theorem tokens_join_empty (pattern : String) :
    Pattern.tokens (Pattern.join pattern "") = Pattern.tokens pattern := by
  have htrim := tokens_trimEnd pattern.toList
  rw [String.ofList_toList] at htrim
  rw [← htrim, Pattern.join, if_pos rfl]
  split
  · rename_i hempty
    rw [List.isEmpty_iff.mp hempty]
    decide
  · rfl

theorem accepted_of_tokens_eq (h : Pattern.tokens pattern = Pattern.tokens pattern') :
    Accepted pattern location ↔ Accepted pattern' location := by
  rw [Accepted, Accepted, Pattern.captures?, Pattern.captures?, h]

theorem tokens_patternAt_index (hr : routeAt forest position = some r)
    (hc : r.children[n]? = some c) (hsegment : c.segment = "") :
    Pattern.tokens (patternAt forest (position ++ [n])) =
      Pattern.tokens (patternAt forest position) := by
  rw [patternAt_append hr hc, hsegment, tokens_join_empty]

theorem rank_lt_index (hr : routeAt forest position = some r) (hc : r.children[n]? = some c)
    (hsegment : c.segment = "") :
    BestHit.rank (entryOf forest position r) < BestHit.rank (entryOf forest (position ++ [n]) c) := by
  have hdeep : 1 < (position ++ [n]).length := by
    cases position with
    | nil => cases hr
    | cons i ns => simp
  have hindex : (entryOf forest (position ++ [n]) c).weight =
      total (Pattern.tokens (patternAt forest position)) + 2 := by
    rw [weight_entryOf, tokens_patternAt_index hr hc hsegment, if_pos ⟨hsegment, hdeep⟩]
  rw [BestHit.rank, BestHit.rank, Prod.Lex.toLex_lt_toLex, hindex, weight_entryOf]
  split_ifs
  · exact .inr ⟨rfl, by simp [entryOf, Table.entry]⟩
  · exact .inl (by omega)

/-- A route is not chosen for a location if an index route below it may be; and no route is chosen only
if none that may be matches. -/
theorem match?_index (forest : List Route) (location : String) :
    (∀ m, (Table.ofRoutes forest).match? location = some m → ∃ r,
      routeAt forest m.entry.position = some r ∧ m.chain.getLast? = some r ∧
      ¬ ∃ c ∈ r.children, c.segment = "" ∧ (c.element ≠ none ∨ c.children = [])) ∧
    ((Table.ofRoutes forest).match? location = none ↔ ∀ position r, Matchable forest position r →
      ¬ Accepted (patternAt forest position) (Table.normalize location)) := by
  refine ⟨fun m hm => ?_, match?_eq_none_iff⟩
  obtain ⟨r, hr, hentry, hchain, haccepted⟩ := match?_found hm
  refine ⟨r, hr.found, by rw [hchain, getLast?_chainAt hr.found], ?_⟩
  rintro ⟨c, hc, hsegment, hshown⟩
  obtain ⟨n, hn⟩ := List.mem_iff_getElem?.mp hc
  have hindex : Matchable forest (m.entry.position ++ [n]) c :=
    ⟨(routeAt_append hr.found n).trans hn, hshown⟩
  have htokens := tokens_patternAt_index hr.found hn hsegment
  have hless : BestHit.rank m.entry < BestHit.rank (entryOf forest (m.entry.position ++ [n]) c) :=
    (congrArg BestHit.rank hentry).trans_lt (rank_lt_index hr.found hn hsegment)
  obtain heq | hpreferred :=
    match?_preferred hm hindex ((accepted_of_tokens_eq htokens).mpr haccepted)
  · exact hless.ne (congrArg BestHit.rank heq)
  · exact hpreferred.rank_le.not_gt hless

def framed : List Route :=
  [Route.create "" (some ⟨"layout.tsx", some "Frame", none⟩)
    [Route.create "" (some ⟨"index.tsx", some "Home", none⟩) []]]

theorem match?_index_framed : ∃ m r, (Table.ofRoutes framed).match? "/" = some m ∧
    routeAt framed m.entry.position = some r ∧ m.chain.getLast? = some r ∧
      ¬ ∃ c ∈ r.children, c.segment = "" ∧ (c.element ≠ none ∨ c.children = []) := by
  obtain ⟨hindex, hnone⟩ := match?_index framed "/"
  cases hm : (Table.ofRoutes framed).match? "/" with
  | none => exact absurd (by rfl) (hnone.mp hm [0, 0] _ ⟨rfl, .inr rfl⟩)
  | some m =>
    obtain ⟨r, hr⟩ := hindex m hm
    exact ⟨m, r, rfl, hr⟩

end TypedClient.Proofs.RoutePrecedence
