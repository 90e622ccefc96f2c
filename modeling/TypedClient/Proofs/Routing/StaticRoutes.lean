import Mathlib.Algebra.GroupWithZero.Nat
import Mathlib.Algebra.Order.BigOperators.Group.List
import TypedClient.Proofs.Routing.AcceptedLocations
import TypedClient.Proofs.Routing.PatternMatching
import TypedClient.Proofs.Routing.RoutePrecedence

namespace TypedClient.Proofs.StaticRoutes

open TypedClient.Routing TypedClient.Text TypedClient.Proofs.BestHit TypedClient.Proofs.Pieces
open TypedClient.Proofs.PatternMatching TypedClient.Proofs.AcceptedLocations
open TypedClient.Proofs.PlacedRoutes TypedClient.Proofs.RoutePrecedence

def IsStatic (pattern : String) : Prop :=
  ∀ t ∈ Pattern.tokens pattern, ∃ s, t = .literal s

/-- A pattern that is nothing but its segments, each behind one slash. -/
def IsTight (pattern : String) : Prop :=
  pattern = "/" ++ "/".intercalate (segments pattern)

inductive Rival (pattern location : String) (r : Route) : Prop
  | optional (name : String) (h : .optional name ∈ Pattern.tokens pattern)
  | index (h : r.segment = "") (hrest : .rest ∈ Pattern.tokens pattern)
  | respelled (h : Pattern.tokens pattern = Pattern.tokens location)

def begun : List Char → Nat
  | [] => 0
  | c :: cs => (if c = '/' ∧ cs.head?.any (· ≠ '/') then 1 else 0) + begun cs

def deficit : Token → Nat
  | .literal _ => 0
  | .param _ => 7
  | .optional _ => 0
  | .rest => 2

def IsSegment (s : String) : Prop :=
  s ≠ "" ∧ '/' ∉ s.toList

variable {forest : List Route} {r r' : Route} {pattern location : String} {position : List Nat}
  {cs w : List Char} {segs : List String} {t : Token} {ts : List Token}

theorem begun_le (w cs : List Char) : begun cs ≤ begun (w ++ cs) := by
  induction w with
  | nil => exact le_rfl
  | cons c w ih => exact ih.trans (Nat.le_add_left _ _)

theorem begun_inside (hslash : '/' ∉ w) (cs : List Char) : begun (w ++ cs) = begun cs := by
  induction w with
  | nil => rfl
  | cons c w ih =>
    rw [List.mem_cons, not_or] at hslash
    rw [List.cons_append, begun, ih hslash.2, if_neg fun h => hslash.1 h.1.symm, Nat.zero_add]

theorem begun_segment (hne : w ≠ []) (hslash : '/' ∉ w) (cs : List Char) :
    begun ('/' :: (w ++ cs)) = begun cs + 1 := by
  obtain ⟨c, w, rfl⟩ := List.exists_cons_of_ne_nil hne
  have hc : c ≠ '/' := fun h => hslash (h ▸ List.mem_cons_self)
  rw [begun, begun_inside hslash, if_pos ⟨rfl, by simpa using hc⟩, Nat.add_comm]

theorem begun_spell (h : ∀ s ∈ segs, IsSegment s) : begun (spell segs) = segs.length := by
  induction segs with
  | nil => rfl
  | cons s segs ih =>
    rw [List.forall_mem_cons] at h
    have hne : s.toList ≠ [] := mt String.toList_eq_nil_iff.mp h.1.1
    rw [spell_cons, begun_segment hne h.1.2, ih h.2, List.length_cons]

theorem isSegment_of_mem {s : String} (h : s ∈ segments pattern) : IsSegment s := by
  obtain ⟨hmem, hne⟩ := List.mem_filter.mp h
  exact ⟨by simpa using hne, not_mem_of_mem_pieces hmem⟩

theorem literal_mem_tokens {s : String} (h : .literal s ∈ Pattern.tokens pattern) :
    s ∈ segments pattern := by
  obtain ⟨p, hp, heq⟩ := List.mem_map.mp h
  have hspelled := SegmentCuts.spelled_ofSegment p
  rw [heq] at hspelled
  cases hspelled
  exact hp

theorem tokens_of_isStatic (h : IsStatic pattern) :
    Pattern.tokens pattern = (segments pattern).map .literal := by
  refine List.map_congr_left fun p hp => ?_
  obtain ⟨s, hs⟩ := h _ (List.mem_map_of_mem hp)
  have hspelled := SegmentCuts.spelled_ofSegment p
  rw [hs] at hspelled ⊢
  cases hspelled
  rfl

theorem accepts_literals_iff : Accepts (segs.map .literal) cs ↔ cs = spell segs := by
  induction segs generalizing cs with
  | nil =>
    constructor
    · rintro ⟨⟩
      rfl
    · rintro rfl
      exact .nil
  | cons s segs ih =>
    rw [List.map_cons, spell_cons]
    constructor
    · rintro (_ | ⟨⟨⟩, hts⟩ | ⟨ht, -⟩)
      · rw [ih.mp hts]
      · cases ht
    · rintro rfl
      exact .taken (.literal s) (ih.mpr rfl)

/-- Each segment that begins in a text gives ten at most to the tokens that accept it. -/
theorem total_le (h : Accepts ts cs) (hsegments : ∀ s, .literal s ∈ ts → IsSegment s)
    (hoptional : ∀ name, .optional name ∉ ts) :
    total ts + (ts.map deficit).sum ≤ 10 * begun cs := by
  induction h with
  | nil => simp [total, begun]
  | @taken t ts w cs ht hts ih =>
    simp only [List.mem_cons, not_or, forall_and, or_imp] at hsegments hoptional
    have hbehind := ih hsegments.2 hoptional.2
    have hle := begun_le ('/' :: w) cs
    rw [total_cons, List.map_cons, List.sum_cons]
    cases ht with
    | literal s =>
      have hs := hsegments.1 s rfl
      rw [begun_segment (mt String.toList_eq_nil_iff.mp hs.1) hs.2]
      simp only [Token.weight, deficit]
      omega
    | param name hne hslash =>
      rw [begun_segment hne hslash]
      simp only [Token.weight, deficit]
      omega
    | optional name => exact absurd rfl (hoptional.1 name)
    | rest hline =>
      simp only [Token.weight, deficit, List.cons_append] at hle ⊢
      omega
  | @skipped t ts cs ht hts ih =>
    simp only [List.mem_cons, not_or, forall_and, or_imp] at hsegments hoptional
    have hbehind := ih hsegments.2 hoptional.2
    rw [total_cons, List.map_cons, List.sum_cons]
    cases t with
    | literal s | param name => cases ht
    | optional name => exact absurd rfl (hoptional.1 name)
    | rest =>
      simp only [Token.weight, deficit]
      omega

theorem pieces_slash (s : String) : pieces '/' ("/" ++ s) = "" :: pieces '/' s := by
  have hslash : "/" ++ s = "" ++ String.singleton '/' ++ s := by rw [String.empty_append]; rfl
  rw [hslash, pieces_append_separator (by simp)]

theorem segments_of_spell (hne : segs ≠ []) (h : ∀ s ∈ segs, IsSegment s) :
    segments ("/" ++ "/".intercalate segs) = segs := by
  have hjoined : pieces '/' ("/".intercalate segs) = segs :=
    pieces_intercalate (d := '/') (fun s hs => (h s hs).2) hne
  rw [segments, pieces_slash, hjoined, List.filter_cons_of_neg (by simp), List.filter_eq_self]
  exact fun s hs => by simpa using (h s hs).1

theorem toList_eq_spell_iff (hne : segs ≠ []) :
    location.toList = spell segs ↔ location = "/" ++ "/".intercalate segs := by
  obtain ⟨t, ts, rfl⟩ := List.exists_cons_of_ne_nil hne
  rw [← append_spell, ← String.toList_inj]
  simp

theorem accepted_of_isStatic (h : IsStatic pattern) :
    Accepted pattern location ↔ location = "/" ++ "/".intercalate (segments pattern) := by
  rw [Accepted, isSome_captures?_iff, tokens_of_isStatic h, accepts_literals_iff]
  by_cases hne : segments pattern = []
  · simp [hne]
  · simp [hne, toList_eq_spell_iff]

theorem tokens_of_accepted (h : IsStatic pattern) (haccepted : Accepted pattern location) :
    Pattern.tokens pattern = Pattern.tokens location := by
  have hlocation := (accepted_of_isStatic h).mp haccepted
  have hsegments : segments location = segments pattern := by
    by_cases hne : segments pattern = []
    · rw [hlocation, hne]
      rfl
    · rw [hlocation, segments_of_spell hne fun s hs => isSegment_of_mem hs]
  exact congrArg (List.map Token.ofSegment) hsegments.symm

theorem total_literals (segs : List String) :
    total (segs.map .literal) = 10 * (segs.length : Int) := by
  induction segs with
  | nil => rfl
  | cons s segs ih =>
    rw [List.map_cons, total_cons, ih, List.length_cons, Token.weight]
    omega

theorem begun_of_isTight (h : IsTight location) :
    begun location.toList = (segments location).length := by
  by_cases hne : segments location = []
  · rw [h, hne]
    rfl
  · rw [(toList_eq_spell_iff hne).mpr h, begun_spell fun s hs => isSegment_of_mem hs]

/-- A route that is no rival weighs less than any static one that matches the same location. -/
theorem weight_lt_of_not_rival (hlocation : IsStatic location) (htight : IsTight location)
    (haccepted : Accepted (patternAt forest position) location)
    (hrival : ¬ Rival (patternAt forest position) location r) :
    (entryOf forest position r).weight < total (Pattern.tokens location) := by
  rw [weight_entryOf, tokens_of_isStatic hlocation, total_literals, ← begun_of_isTight htight]
  generalize patternAt forest position = pattern at haccepted hrival ⊢
  have hoptional : ∀ name, .optional name ∉ Pattern.tokens pattern :=
    fun name h => hrival (.optional name h)
  have hmoving : ∃ t ∈ Pattern.tokens pattern, ∀ s, t ≠ .literal s := by
    by_contra hall
    push Not at hall
    exact hrival (.respelled (tokens_of_accepted hall haccepted))
  obtain ⟨t, ht, hliteral⟩ := hmoving
  have haccepts : Accepts (Pattern.tokens pattern) location.toList := by
    rw [Accepted, isSome_captures?_iff] at haccepted
    exact (haccepted.resolve_left fun h => by rw [h.1] at ht; cases ht).2
  have hle := total_le haccepts (fun s hs => isSegment_of_mem (literal_mem_tokens hs)) hoptional
  have hdeficit := List.le_sum_of_mem (List.mem_map_of_mem (f := deficit) ht)
  cases t with
  | literal s => exact absurd rfl (hliteral s)
  | optional name => exact absurd ht (hoptional name)
  | param name =>
    simp only [deficit] at hdeficit
    split_ifs <;> omega
  | rest =>
    have hindex : r.segment ≠ "" := fun h => hrival (.index h ht)
    simp only [deficit] at hdeficit
    rw [if_neg fun h => hindex h.1]
    omega

/-- A location of static segments is matched to the route that has it for its pattern just when the
location is tight and no rival that matches it is preferred to that route. -/
theorem match?_static_iff (hstatic : IsStatic (Table.normalize location)) :
    (∃ m, (Table.ofRoutes forest).match? location = some m ∧
        m.entry.pattern = Table.normalize location) ↔
      IsTight (Table.normalize location) ∧ ∃ position r, Matchable forest position r ∧
        patternAt forest position = Table.normalize location ∧
        ∀ position' r', Matchable forest position' r' →
          Accepted (patternAt forest position') (Table.normalize location) →
          patternAt forest position' ≠ Table.normalize location →
          Rival (patternAt forest position') (Table.normalize location) r' →
          Preferred (entryOf forest position r) (entryOf forest position' r') := by
  have hself : Accepted (Table.normalize location) (Table.normalize location) ↔
      IsTight (Table.normalize location) := accepted_of_isStatic hstatic
  rw [match?_iff fun e => e.pattern = Table.normalize location]
  constructor
  · rintro ⟨position, r, hr, hpattern, haccepted, hall⟩
    have hpattern : patternAt forest position = Table.normalize location := hpattern
    rw [hpattern, hself] at haccepted
    exact ⟨haccepted, position, r, hr, hpattern, fun position' r' hr' haccepted' hne _ =>
      hall position' r' hr' haccepted' hne⟩
  · rintro ⟨htight, position, r, hr, hpattern, hall⟩
    refine ⟨position, r, hr, hpattern, ?_, fun position' r' hr' haccepted' hne => ?_⟩
    · rw [hpattern]
      exact hself.mpr htight
    · by_cases hrival : Rival (patternAt forest position') (Table.normalize location) r'
      · exact hall position' r' hr' haccepted' hne hrival
      · have hlt := weight_lt_of_not_rival hstatic htight haccepted' hrival
        have hle : total (Pattern.tokens (Table.normalize location)) ≤
            (entryOf forest position r).weight := by
          rw [weight_entryOf, hpattern]
          split_ifs <;> omega
        exact .inl (Prod.Lex.toLex_lt_toLex.mpr (.inl (hlt.trans_le hle)))

def named : List Route :=
  [Route.create "about" (some ⟨"about.tsx", some "About", none⟩) [],
    Route.create ":slug" (some ⟨"slug.tsx", some "Slug", none⟩) []]

theorem match?_static_named : IsStatic (Table.normalize "/about/") ∧
    ∃ m, (Table.ofRoutes named).match? "/about/" = some m ∧ m.entry.pattern = "/about" := by
  have hnormal : Table.normalize "/about/" = "/about" := by rfl
  have hlocation : Pattern.tokens "/about" = [.literal "about"] := by rfl
  have hslug : Pattern.tokens (patternAt named [1]) = [.param "slug"] := by rfl
  have hstatic : IsStatic (Table.normalize "/about/") := by simp [IsStatic, hnormal, hlocation]
  have hiff := @match?_static_iff named _ hstatic
  rw [hnormal] at hiff
  refine ⟨hstatic, hiff.mpr ⟨by rfl, [0], _, ⟨rfl, .inr rfl⟩, by rfl, ?_⟩⟩
  rintro position r hr - hne hrival
  match position, hr.found with
  | [0], _ => exact absurd (by rfl) hne
  | [1], _ =>
    cases hrival with
    | optional name h => simp [hslug] at h
    | index _ h => simp [hslug] at h
    | respelled h => simp [hslug, hlocation] at h

/-- A page and the same page for each language, where the language may be left out. -/
def localized : List Route :=
  [Route.create "about" (some ⟨"about.tsx", some "About", none⟩) [],
    Route.create ":lang?" none
      [Route.create "about" (some ⟨"lang/about.tsx", some "LangAbout", none⟩) []]]

/-- An optional parameter that takes nothing counts for its route all the same. -/
theorem optional_outranks_static : ∃ r, Matchable localized [0] r ∧
    IsStatic (patternAt localized [0]) ∧ patternAt localized [0] = Table.normalize "/about" ∧
      ((Table.ofRoutes localized).match? "/about").map (fun m => m.entry.pattern) =
        some "/:lang?/about" := by
  refine ⟨_, ⟨rfl, .inr rfl⟩, ?_, by rfl, by rfl⟩
  simp [IsStatic, show Pattern.tokens (patternAt localized [0]) = [.literal "about"] by rfl]

end TypedClient.Proofs.StaticRoutes
