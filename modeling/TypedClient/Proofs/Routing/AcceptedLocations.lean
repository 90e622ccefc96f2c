import TypedClient.Proofs.Routing.Parameters

namespace TypedClient.Proofs.AcceptedLocations

open TypedClient.Routing TypedClient.Proofs.Parameters

inductive Takes : Token → List Char → Prop
  | literal (s : String) : Takes (.literal s) s.toList
  | param (name : String) {w : List Char} (hne : w ≠ []) (hslash : '/' ∉ w) : Takes (.param name) w
  | optional (name : String) {w : List Char} (hne : w ≠ []) (hslash : '/' ∉ w) :
      Takes (.optional name) w
  | rest {w : List Char} (hline : '\n' ∉ w) : Takes .rest w

inductive Accepts : List Token → List Char → Prop
  | nil : Accepts [] []
  | taken {t : Token} {ts : List Token} {w cs : List Char} (ht : Takes t w) (hts : Accepts ts cs) :
      Accepts (t :: ts) ('/' :: (w ++ cs))
  | skipped {t : Token} {ts : List Token} {cs : List Char} (ht : t.isOptional = true)
      (hts : Accepts ts cs) : Accepts (t :: ts) cs

variable {p : Char → Bool} {c : Char} {cs w : List Char} {t : Token} {ts : List Token}
  {pattern location : String}

def Succeeds (ts : List Token) (cs : List Char) : Prop :=
  ((answers ts cs).first?).isSome

theorem isSome_longest?_iff : (longest? p cs (answers ts cs)).isSome ↔
    ∃ w rest, cs = w ++ rest ∧ (∀ c ∈ w, p c = true) ∧ Succeeds ts rest := by
  constructor
  · intro h
    obtain ⟨⟨w, r⟩, hw⟩ := Option.isSome_iff_exists.mp h
    obtain ⟨rest, hcs, hall, hrest⟩ := longest?_eq_some hw
    exact ⟨w, rest, hcs, hall, Option.isSome_iff_exists.mpr ⟨r, hrest⟩⟩
  · rintro ⟨w, rest, rfl, hall, hrest⟩
    induction w with
    | nil => cases rest <;> simp_all [longest?, Succeeds]
    | cons c w ih =>
      rw [List.forall_mem_cons] at hall
      rw [List.cons_append, longest?, if_pos hall.1, answers_tail]
      simp [ih hall.2]

theorem isSome_segment?_iff : (Token.segment? cs (answers ts cs)).isSome ↔
    ∃ w rest, cs = w ++ rest ∧ w ≠ [] ∧ '/' ∉ w ∧ Succeeds ts rest := by
  constructor
  · intro h
    obtain ⟨⟨w, r⟩, hw⟩ := Option.isSome_iff_exists.mp h
    obtain ⟨rest, hcs, hne, hslash, hrest⟩ := segment?_eq_some hw
    exact ⟨w, rest, hcs, hne, hslash, Option.isSome_iff_exists.mpr ⟨r, hrest⟩⟩
  · rintro ⟨w, rest, rfl, hne, hslash, hrest⟩
    obtain ⟨c, w, rfl⟩ := List.exists_cons_of_ne_nil hne
    have hin : ∀ x ∈ c :: w, Token.inSegment x = true := by
      intro x hx
      simpa [Token.inSegment] using fun h : x = '/' => hslash (h ▸ hx)
    rw [List.forall_mem_cons] at hin
    have hlongest := isSome_longest?_iff.mpr ⟨w, rest, rfl, hin.2, hrest⟩
    rw [List.cons_append, Token.segment?, if_pos hin.1, answers_tail, Option.isSome_map]
    exact hlongest

theorem isSome_behindSlash?_iff : (t.behindSlash? cs (answers ts cs)).isSome ↔
    ∃ w rest, cs = w ++ rest ∧ Takes t w ∧ Succeeds ts rest := by
  cases t with
  | literal s =>
    rw [Token.behindSlash?]
    constructor
    · intro h
      split at h
      · rename_i hprefix
        obtain ⟨rest, rfl⟩ := List.isPrefixOf_iff_prefix.mp hprefix
        rw [← String.length_toList, answers_drop] at h
        exact ⟨_, rest, rfl, .literal s, h⟩
      · cases h
    · rintro ⟨_, rest, rfl, ⟨⟩, hrest⟩
      rw [if_pos (by simp), ← String.length_toList, answers_drop]
      exact hrest
  | param name =>
    rw [Token.behindSlash?, Option.isSome_map, isSome_segment?_iff]
    constructor
    · rintro ⟨w, rest, hcs, hne, hslash, hrest⟩
      exact ⟨w, rest, hcs, .param name hne hslash, hrest⟩
    · rintro ⟨w, rest, hcs, ⟨⟩, hrest⟩
      exact ⟨w, rest, hcs, ‹_›, ‹_›, hrest⟩
  | optional name =>
    rw [Token.behindSlash?, Option.isSome_map, isSome_segment?_iff]
    constructor
    · rintro ⟨w, rest, hcs, hne, hslash, hrest⟩
      exact ⟨w, rest, hcs, .optional name hne hslash, hrest⟩
    · rintro ⟨w, rest, hcs, ⟨⟩, hrest⟩
      exact ⟨w, rest, hcs, ‹_›, ‹_›, hrest⟩
  | rest =>
    have hline : ∀ w : List Char, (∀ c ∈ w, Token.inRest c = true) ↔ '\n' ∉ w := by
      intro w
      simp only [Token.inRest, decide_eq_true_eq]
      exact ⟨fun h hmem => h _ hmem rfl, fun h c hc heq => h (heq ▸ hc)⟩
    rw [Token.behindSlash?, Option.isSome_map, isSome_longest?_iff]
    simp only [hline]
    constructor
    · rintro ⟨w, rest, hcs, hw, hrest⟩
      exact ⟨w, rest, hcs, .rest hw, hrest⟩
    · rintro ⟨w, rest, hcs, ⟨⟩, hrest⟩
      exact ⟨w, rest, hcs, ‹_›, hrest⟩

theorem succeeds_cons_iff : Succeeds (t :: ts) cs ↔
    (∃ w rest, cs = '/' :: (w ++ rest) ∧ Takes t w ∧ Succeeds ts rest) ∨
      (t.isOptional = true ∧ Succeeds ts cs) := by
  have habsent : (t.absent? (answers ts cs)).isSome ↔ t.isOptional = true ∧ Succeeds ts cs := by
    rw [Token.absent?, Succeeds]
    split <;> simp_all
  have hpresent : (t.present? cs (answers ts cs)).isSome ↔
      ∃ w rest, cs = '/' :: (w ++ rest) ∧ Takes t w ∧ Succeeds ts rest := by
    cases cs with
    | nil => simp [Token.present?]
    | cons c cs =>
      by_cases hc : c = '/'
      · subst hc
        rw [Token.present?, answers_tail, isSome_behindSlash?_iff]
        simp
      · rw [Token.present?]
        · simp [hc]
        · exact fun _ h => hc (List.cons.inj h).1
  rw [Succeeds, first?_answers_cons, Token.answer?, Option.orElse_eq_orElse, Option.orElse_eq_or,
    Option.isSome_or, Bool.or_eq_true, hpresent, habsent]

theorem succeeds_iff_accepts : Succeeds ts cs ↔ Accepts ts cs := by
  induction ts generalizing cs with
  | nil =>
    constructor
    · intro h
      cases cs with
      | nil => exact .nil
      | cons => cases h
    · rintro ⟨⟩
      rfl
  | cons t ts ih =>
    rw [succeeds_cons_iff]
    constructor
    · rintro (⟨w, rest, rfl, ht, hts⟩ | ⟨ht, hts⟩)
      · exact .taken ht (ih.mp hts)
      · exact .skipped ht (ih.mp hts)
    · rintro (_ | ⟨ht, hts⟩ | ⟨ht, hts⟩)
      · exact .inl ⟨_, _, rfl, ht, ih.mpr hts⟩
      · exact .inr ⟨ht, ih.mpr hts⟩

/-- A pattern with tokens matches what these accept, one without them the root alone. -/
theorem isSome_captures?_iff : (Pattern.captures? pattern location).isSome ↔
    (Pattern.tokens pattern = [] ∧ location = "/") ∨
      (Pattern.tokens pattern ≠ [] ∧ Accepts (Pattern.tokens pattern) location.toList) := by
  rw [Pattern.captures?, ← succeeds_iff_accepts]
  cases Pattern.tokens pattern with
  | nil =>
    by_cases h : location = "/" <;> simp [h]
  | cons t ts => simp [Succeeds]

end TypedClient.Proofs.AcceptedLocations
