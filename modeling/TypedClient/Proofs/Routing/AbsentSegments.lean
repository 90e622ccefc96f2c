import Mathlib.Data.List.TakeWhile
import TypedClient.Proofs.Routing.StaticRoutes

namespace TypedClient.Proofs.AbsentSegments

open TypedClient.Routing TypedClient.Text TypedClient.Proofs.PatternMatching
open TypedClient.Proofs.AcceptedLocations TypedClient.Proofs.PlacedRoutes
open TypedClient.Proofs.StaticRoutes

/-- A pattern without one of its segments; the root where no other is left. -/
def withoutSegment (pattern : String) (n : Nat) : String :=
  "/" ++ "/".intercalate ((segments pattern).eraseIdx n)

variable {forest : List Route} {r : Route} {position : List Nat} {pattern location name : String}
  {t : Token} {ts : List Token} {cs : List Char} {n : Nat}

theorem tokens_eq (pattern : String) :
    Pattern.tokens pattern = (segments pattern).map Token.ofSegment := rfl

theorem segments_withoutSegment (pattern : String) (n : Nat) :
    segments (withoutSegment pattern n) = (segments pattern).eraseIdx n := by
  rw [withoutSegment]
  by_cases hleft : (segments pattern).eraseIdx n = []
  · rw [hleft]
    decide
  · exact segments_of_spell hleft fun s hs => isSegment_of_mem (List.mem_of_mem_eraseIdx hs)

theorem tokens_withoutSegment (pattern : String) (n : Nat) :
    Pattern.tokens (withoutSegment pattern n) = (Pattern.tokens pattern).eraseIdx n := by
  rw [tokens_eq, tokens_eq, segments_withoutSegment, List.eraseIdx_map]

theorem accepts_of_eraseIdx (ht : ts[n]? = some t) (hoptional : t.isOptional = true)
    (h : Accepts (ts.eraseIdx n) cs) : Accepts ts cs := by
  induction ts generalizing n cs with
  | nil => cases ht
  | cons s ts ih =>
    cases n with
    | zero =>
      obtain rfl := Option.some.inj ht
      exact .skipped hoptional h
    | succ n =>
      cases h with
      | taken hs hrest => exact .taken hs (ih ht hrest)
      | skipped hs hrest => exact .skipped hs (ih ht hrest)

theorem accepts_singleton_iff :
    Accepts [t] cs ↔ (∃ w, cs = '/' :: w ∧ Takes t w) ∨ (t.isOptional = true ∧ cs = []) := by
  constructor
  · rintro (_ | ⟨ht, ⟨⟩⟩ | ⟨ht, ⟨⟩⟩)
    · exact .inl ⟨_, by rw [List.append_nil], ht⟩
    · exact .inr ⟨ht, rfl⟩
  · rintro (⟨w, rfl, ht⟩ | ⟨ht, rfl⟩)
    · simpa using Accepts.taken ht .nil
    · exact .skipped ht .nil

theorem accepted_iff_of_tokens (hne : Pattern.tokens pattern ≠ []) :
    Accepted pattern location ↔ Accepts (Pattern.tokens pattern) location.toList := by
  rw [Accepted, isSome_captures?_iff]
  simp [hne]

theorem accepted_root_iff (h : Pattern.tokens pattern = []) :
    Accepted pattern location ↔ location = "/" := by
  rw [Accepted, isSome_captures?_iff]
  simp [h]

/-- An optional segment alone takes a slash with something behind it or nothing at all; the root is a bare
slash. -/
theorem not_accepted_root (h : Pattern.tokens pattern = [.optional name]) :
    ¬ Accepted pattern "/" := by
  rw [accepted_iff_of_tokens (by simp [h]), h, accepts_singleton_iff]
  rintro (⟨w, hw, ⟨⟩⟩ | ⟨-, hnil⟩)
  · obtain rfl : w = [] := by simpa using hw.symm
    contradiction
  · simp at hnil

theorem eq_singleton_of_eraseIdx {ps : List String} {p : String} (hp : ps[n]? = some p)
    (h : ps.eraseIdx n = []) : ps = [p] := by
  obtain rfl | ⟨hone, rfl⟩ := List.eraseIdx_eq_nil_iff.mp h
  · cases hp
  · obtain ⟨q, rfl⟩ := List.length_eq_one_iff.mp hone
    exact congrArg (fun q => [q]) (Option.some.inj hp)

/-- Where a pattern matches a location without one of its optional segments, the whole pattern matches it
too, except for the root and a pattern that has no other segment. -/
theorem accepted_withoutSegment_iff (hn : (segments pattern)[n]? = some (":" ++ (name ++ "?"))) :
    (Accepted (withoutSegment pattern n) location → Accepted pattern location) ↔
      ¬ (segments pattern = [":" ++ (name ++ "?")] ∧ location = "/") := by
  have hwithout := tokens_withoutSegment pattern n
  have htoken : (Pattern.tokens pattern)[n]? = some (.optional name) := by
    rw [tokens_eq, List.getElem?_map, hn, Option.map_some, SegmentCuts.ofSegment_optional]
  constructor
  · rintro h ⟨halone, rfl⟩
    have htokens : Pattern.tokens pattern = [.optional name] := by
      rw [tokens_eq, halone, List.map_singleton, SegmentCuts.ofSegment_optional]
    obtain rfl : n = 0 := by
      rw [htokens] at htoken
      simpa using (List.getElem?_eq_some_iff.mp htoken).1
    rw [htokens] at hwithout
    exact not_accepted_root htokens (h ((accepted_root_iff hwithout).mpr rfl))
  · intro h haccepted
    by_cases hleft : (segments pattern).eraseIdx n = []
    · have hroot : Pattern.tokens (withoutSegment pattern n) = [] := by
        rw [tokens_eq, segments_withoutSegment, hleft, List.map_nil]
      exact absurd ⟨eq_singleton_of_eraseIdx hn hleft, (accepted_root_iff hroot).mp haccepted⟩ h
    · have hothers : Pattern.tokens (withoutSegment pattern n) ≠ [] := by
        rw [tokens_eq, segments_withoutSegment]
        exact mt List.map_eq_nil_iff.mp hleft
      have hne : Pattern.tokens pattern ≠ [] := List.ne_nil_of_mem (List.mem_of_getElem? htoken)
      rw [accepted_iff_of_tokens hothers, hwithout] at haccepted
      exact (accepted_iff_of_tokens hne).mpr (accepts_of_eraseIdx htoken rfl haccepted)

/-- A home page has a language in front of it or none. -/
theorem accepted_withoutSegment_home :
    (segments "/:lang?/home/:page?")[0]? = some (":" ++ ("lang" ++ "?")) ∧
      withoutSegment "/:lang?/home/:page?" 0 = "/home/:page?" ∧
      Accepted "/:lang?/home/:page?" "/home/news" := by
  have hn : (segments "/:lang?/home/:page?")[0]? = some (":" ++ ("lang" ++ "?")) := by rfl
  have hwithout : withoutSegment "/:lang?/home/:page?" 0 = "/home/:page?" := by rfl
  have hothers : ¬ (segments "/:lang?/home/:page?" = [":" ++ ("lang" ++ "?")] ∧
      "/home/news" = "/") := by
    rintro ⟨-, hroot⟩
    exact absurd hroot (by decide)
  refine ⟨hn, hwithout, (accepted_withoutSegment_iff hn).mpr hothers ?_⟩
  rw [hwithout]
  rfl

/-- An optional segment that stands alone is not absent from the root. -/
theorem optional_alone_not_absent :
    (segments "/:lang?")[0]? = some (":" ++ ("lang" ++ "?")) ∧ withoutSegment "/:lang?" 0 = "/" ∧
      Table.normalize "/" = "/" ∧ Accepted "/" "/" ∧ ¬ Accepted "/:lang?" "/" := by
  have htokens : Pattern.tokens "/:lang?" = [.optional "lang"] := by rfl
  exact ⟨by rfl, by rfl, by rfl, by rfl, not_accepted_root htokens⟩

theorem exists_trimEnd_append (p : Char → Bool) (cs : List Char) :
    ∃ tail, cs = trimEnd p cs ++ tail ∧ ∀ c ∈ tail, p c = true := by
  refine ⟨(cs.reverse.takeWhile p).reverse, ?_, fun c hc => ?_⟩
  · rw [trimEnd, ← List.reverse_append, List.takeWhile_append_dropWhile, List.reverse_reverse]
  · exact List.mem_takeWhile_imp (List.mem_reverse.mp hc)

theorem exists_normalize_eq (s : String) : ∃ w, (Table.normalize ("/" ++ s)).toList = '/' :: w ∧
    ('\n' ∈ w ↔ '\n' ∈ s.toList) := by
  obtain ⟨tail, htail, hslash⟩ := exists_trimEnd_append (· == '/') ("/" ++ s).toList
  have hline : '\n' ∉ tail := fun h => absurd (hslash _ h) (by decide)
  rw [Table.normalize]
  cases htrim : trimEnd (· == '/') ("/" ++ s).toList with
  | nil =>
    -- the location is nothing but slashes, and the root stands for it
    rw [htrim, String.toList_append, List.nil_append] at htail
    have hs : '\n' ∉ s.toList := fun h => hline (by rw [← htail]; exact List.mem_append_right _ h)
    exact ⟨[], rfl, by simp [hs]⟩
  | cons d w =>
    rw [htrim, String.toList_append, List.cons_append] at htail
    obtain ⟨rfl, hs⟩ := List.cons.inj htail
    exact ⟨w, String.toList_ofList, by simp [show s.toList = w ++ tail from hs, hline]⟩

theorem accepted_catchAll_iff (s : String) :
    Accepted "/*" (Table.normalize ("/" ++ s)) ↔ '\n' ∉ s.toList := by
  obtain ⟨w, hw, hline⟩ := exists_normalize_eq s
  have htokens : Pattern.tokens "/*" = [.rest] := by rfl
  rw [accepted_iff_of_tokens (by simp [htokens]), htokens, hw, accepts_singleton_iff, ← hline]
  constructor
  · rintro (⟨v, hv, ⟨⟩⟩ | ⟨-, hnil⟩)
    · obtain rfl := (List.cons.inj hv).2
      assumption
    · cases hnil
  · exact fun h => .inl ⟨w, rfl, .rest h⟩

/-- Where a catch-all at the root may be matched, a location behind a slash is matched to some route
exactly if it has no line feed or a route of another pattern matches it. -/
theorem match?_catchAll_iff (hr : Matchable forest position r)
    (hpattern : patternAt forest position = "/*") (s : String) :
    (∃ m, (Table.ofRoutes forest).match? ("/" ++ s) = some m) ↔
      '\n' ∉ s.toList ∨ ∃ position' r', Matchable forest position' r' ∧
        patternAt forest position' ≠ "/*" ∧
        Accepted (patternAt forest position') (Table.normalize ("/" ++ s)) := by
  constructor
  · rintro ⟨m, hm⟩
    obtain ⟨r', hr', -, -, haccepted⟩ := match?_found hm
    by_cases hother : patternAt forest m.entry.position = "/*"
    · rw [hother, accepted_catchAll_iff] at haccepted
      exact .inl haccepted
    · exact .inr ⟨m.entry.position, r', hr', hother, haccepted⟩
  · intro h
    obtain ⟨position', r', hr', haccepted⟩ : ∃ position' r', Matchable forest position' r' ∧
        Accepted (patternAt forest position') (Table.normalize ("/" ++ s)) := by
      obtain hline | ⟨position', r', hr', -, haccepted⟩ := h
      · exact ⟨position, r, hr, by rw [hpattern]; exact (accepted_catchAll_iff s).mpr hline⟩
      · exact ⟨position', r', hr', haccepted⟩
    cases hm : (Table.ofRoutes forest).match? ("/" ++ s) with
    | none => exact absurd haccepted (match?_eq_none_iff.mp hm position' r' hr')
    | some m => exact ⟨m, rfl⟩

def fallback : List Route :=
  [Route.create "*" (some ⟨"missing.tsx", some "Missing", none⟩) []]

theorem matchable_fallback : ∃ r, Matchable fallback [0] r :=
  ⟨_, rfl, .inr rfl⟩

theorem match?_catchAll_fallback : ∃ r, Matchable fallback [0] r ∧ patternAt fallback [0] = "/*" ∧
    ∃ m, (Table.ofRoutes fallback).match? ("/" ++ "no//such/page//") = some m := by
  obtain ⟨r, hr⟩ := matchable_fallback
  have hpattern : patternAt fallback [0] = "/*" := by rfl
  exact ⟨r, hr, hpattern, (match?_catchAll_iff hr hpattern "no//such/page//").mpr (.inl (by decide))⟩

/-- A line feed is nothing that a catch-all takes. -/
theorem catchAll_not_total : ∃ r, Matchable fallback [0] r ∧ patternAt fallback [0] = "/*" ∧
    (Table.ofRoutes fallback).match? ("/" ++ "a\nb") = none := by
  obtain ⟨r, hr⟩ := matchable_fallback
  exact ⟨r, hr, by rfl, by rfl⟩

end TypedClient.Proofs.AbsentSegments
