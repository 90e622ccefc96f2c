import TypedClient.Proofs.Routing.SegmentCuts
import TypedClient.Proofs.Routing.PatternExpression

namespace TypedClient.Proofs.PatternMatching

open TypedClient.Routing TypedClient.Text Pieces SegmentCuts PatternExpression

variable {c : Char} {cs w : List Char} {p t : String} {ts segs : List String}
  {token : Token} {tokens : List Token}

def spell (segs : List String) : List Char :=
  segs.flatMap fun t => '/' :: t.toList

@[simp] theorem spell_nil : spell [] = [] := rfl

@[simp] theorem spell_cons : spell (t :: ts) = '/' :: (t.toList ++ spell ts) := by
  simp [spell]

theorem append_spell (t : String) (ts : List String) :
    t ++ String.ofList (spell ts) = "/".intercalate (t :: ts) := by
  induction ts generalizing t with
  | nil => simp
  | cons u us ih =>
    rw [String.intercalate_cons_of_ne_nil (List.cons_ne_nil u us), ← ih]
    simp [← String.toList_inj]

theorem spell_pieces (s : String) : spell (pieces '/' s) = '/' :: s.toList := by
  obtain ⟨t, ts, h⟩ := List.exists_cons_of_ne_nil (pieces_ne_nil '/' s)
  have hs : "/".intercalate (t :: ts) = s := h ▸ intercalate_pieces '/' s
  rw [h, spell_cons, ← hs, ← append_spell, String.toList_append, String.toList_ofList]

def answer (tokens : List Token) (segs : List String) : Option Captures :=
  (answers tokens (spell segs)).first?

theorem first?_answers_inside (hc : c ≠ '/') (tokens : List Token) (cs : List Char) :
    (answers tokens (c :: cs)).first? = none := by
  induction tokens with
  | nil => rfl
  | cons token tokens ih =>
    rw [first?_answers_cons, Token.answer?, Token.absent?, ih, Token.present?]
    · simp
    · exact fun _ h => hc (List.cons.inj h).1

theorem longest?_append {q : Char → Bool} (hw : ∀ c ∈ w, q c ∧ c ≠ '/') (cs : List Char) :
    longest? q (w ++ cs) (answers tokens (w ++ cs)) =
      (longest? q cs (answers tokens cs)).map fun r => (w ++ r.1, r.2) := by
  induction w with
  | nil => simp
  | cons c w ih =>
    rw [List.forall_mem_cons] at hw
    rw [List.cons_append, longest?, if_pos hw.1.1, answers_tail, ih hw.2,
      first?_answers_inside hw.1.2, Option.map_map]
    simp [Function.comp_def]

theorem slash_not_inSegment : Token.inSegment '/' = false := by decide

theorem longest?_segment (ht : '/' ∉ t.toList) (ts : List String) :
    longest? Token.inSegment (t.toList ++ spell ts) (answers tokens (t.toList ++ spell ts)) =
      (answer tokens ts).map fun r => (t.toList, r) := by
  have hw : ∀ c ∈ t.toList, Token.inSegment c ∧ c ≠ '/' := by
    intro c hc
    have hne : c ≠ '/' := fun h => ht (h ▸ hc)
    exact ⟨by simpa [Token.inSegment] using hne, hne⟩
  have hend : longest? Token.inSegment (spell ts) (answers tokens (spell ts)) =
      (answer tokens ts).map fun r => ([], r) := by
    cases ts with
    | nil => rfl
    | cons u us => simp [longest?, slash_not_inSegment, answer]
  rw [longest?_append hw, hend, Option.map_map]
  simp [Function.comp_def]

theorem segment?_eq (ht : '/' ∉ t.toList) (ts : List String) :
    Token.segment? (t.toList ++ spell ts) (answers tokens (t.toList ++ spell ts)) =
      if t = "" then none else (answer tokens ts).map fun r => (t.toList, r) := by
  rw [← longest?_segment ht]
  by_cases h : t = ""
  · subst h
    cases ts with
    | nil => rfl
    | cons u us => simp [Token.segment?, slash_not_inSegment]
  · obtain ⟨c, w, hcw⟩ := List.exists_cons_of_ne_nil (mt String.toList_eq_nil_iff.mp h)
    have hc : c ≠ '/' := fun hc => ht (by simp [hcw, hc])
    have hin : Token.inSegment c = true := by simpa [Token.inSegment] using hc
    rw [if_neg h, hcw, List.cons_append, Token.segment?, longest?, first?_answers_inside hc]
    simp [hin]

theorem inRest_of_mem (hline : '\n' ∉ t.toList) (hslash : '/' ∉ t.toList) :
    ∀ c ∈ t.toList, Token.inRest c ∧ c ≠ '/' := by
  intro c hc
  have hn : c ≠ '\n' := fun h => hline (h ▸ hc)
  exact ⟨by simpa [Token.inRest] using hn, fun h => hslash (h ▸ hc)⟩

theorem longest?_rest (hline : ∀ t ∈ segs, '\n' ∉ t.toList) (hslash : ∀ t ∈ segs, '/' ∉ t.toList) :
    longest? Token.inRest (spell segs) (answers tokens (spell segs)) =
      (splits segs).findSome? fun c => (answer tokens c.2).map fun r => (spell c.1, r) := by
  induction segs with
  | nil => simp [splits, longest?, answer]
  | cons t ts ih =>
    rw [List.forall_mem_cons] at hline hslash
    have hw := inRest_of_mem hline.1 hslash.1
    rw [spell_cons, longest?, if_pos (by decide), answers_tail, longest?_append hw,
      ih hline.2 hslash.2, splits, List.findSome?_append, List.findSome?_map]
    simp only [List.map_findSome?, Function.comp_def, Option.map_map, spell_cons, answer,
      List.findSome?_singleton, spell_nil, Option.orElse_eq_orElse, Option.orElse_eq_or]

theorem literal_behindSlash? (hp : '/' ∉ p.toList) (ht : '/' ∉ t.toList) (ts : List String) :
    Token.behindSlash? (t.toList ++ spell ts) (answers tokens (t.toList ++ spell ts)) (.literal p) =
      if t = p then answer tokens ts else none := by
  rw [Token.behindSlash?]
  by_cases h : t = p
  · subst h
    rw [if_pos (by simp), if_pos rfl, ← String.length_toList, answers_drop]
    rfl
  · rw [if_neg h, ite_eq_right_iff]
    intro hprefix
    obtain ⟨w, hw⟩ := List.isPrefixOf_iff_prefix.mp hprefix
    obtain ⟨v, hv, -⟩ | ⟨v, hv, hspell⟩ := List.append_eq_append_iff.mp hw
    · -- the segment goes on behind the static one
      cases v with
      | nil => exact absurd (String.toList_inj.mp (by simpa using hv)) h
      | cons c v =>
        have hc : c ≠ '/' := fun hc => ht (by simp [hv, hc])
        rw [← String.length_toList, hv, List.append_assoc, answers_drop]
        exact first?_answers_inside hc _ _
    · -- the static segment would hold the slash behind the segment
      cases v with
      | nil => exact absurd (String.toList_inj.mp (by simpa using hv.symm)) h
      | cons c v =>
        cases ts with
        | nil => simp at hspell
        | cons u us =>
          obtain ⟨rfl, -⟩ := List.cons.inj hspell
          simp [hv] at hp

theorem answer_cons_nil (token : Token) (tokens : List Token) :
    answer (token :: tokens) [] = token.absent? (answers tokens []) := by
  have hpresent : token.present? [] (answers tokens []) = none := rfl
  rw [answer, spell_nil, first?_answers_cons, Token.answer?, hpresent]
  simp

theorem answer_cons_cons (token : Token) (tokens : List Token) (t : String) (ts : List String) :
    answer (token :: tokens) (t :: ts) =
      (token.behindSlash? (t.toList ++ spell ts) (answers tokens (t.toList ++ spell ts)) <|>
        token.absent? (answers tokens (spell (t :: ts)))) := by
  rw [answer, first?_answers_cons, Token.answer?, spell_cons, Token.present?, answers_tail]

/-- A token takes the first choice behind which the tokens behind it succeed. -/
theorem answer_cons (hp : '/' ∉ p.toList) (hline : ∀ t ∈ segs, '\n' ∉ t.toList)
    (hslash : ∀ t ∈ segs, '/' ∉ t.toList) :
    answer (Token.ofSegment p :: tokens) segs =
      (choices (Token.ofSegment p) segs).findSome? fun c =>
        (answer tokens c.2).map (captured (Token.ofSegment p) c.1 ++ ·) := by
  have hspelled := spelled_ofSegment p
  generalize Token.ofSegment p = token at hspelled
  -- without a segment left only a token that takes nothing goes on
  cases segs with
  | nil =>
    rw [answer_cons_nil]
    cases hspelled <;> simp [Token.absent?, Token.isOptional, choices, captured, splits, answer]
  | cons t ts =>
    rw [List.forall_mem_cons] at hline hslash
    rw [answer_cons_cons]
    cases hspelled with
    | static hrest hparam =>
      rw [literal_behindSlash? hp hslash.1]
      by_cases h : t = p <;> simp [Token.absent?, Token.isOptional, choices, captured, h]
    | param hname =>
      rw [Token.behindSlash?, segment?_eq hslash.1]
      by_cases h : t = "" <;>
        simp [Token.absent?, Token.isOptional, Token.capture, choices, captured, h, Function.comp_def]
    | optional =>
      rw [Token.behindSlash?, segment?_eq hslash.1, choices, List.findSome?_append]
      by_cases h : t = "" <;>
        simp [Token.absent?, Token.isOptional, Token.capture, captured, answer, h,
          Function.comp_def]
    | rest =>
      have hw := inRest_of_mem hline.1 hslash.1
      rw [Token.behindSlash?, longest?_append hw, longest?_rest hline.2 hslash.2, choices, splits,
        List.findSome?_append, List.findSome?_map]
      simp [List.map_findSome?, Token.absent?, Token.isOptional, Token.capture, captured, answer,
        Function.comp_def, append_spell]

theorem reads_answer {ps : List String} (hps : ∀ p ∈ ps, '/' ∉ p.toList)
    (hline : ∀ t ∈ segs, '\n' ∉ t.toList) (hslash : ∀ t ∈ segs, '/' ∉ t.toList) :
    Reads ps segs (answer (ps.map Token.ofSegment) segs) := by
  induction ps generalizing segs with
  | nil =>
    cases segs with
    | nil => exact ⟨[], .nil, fun ms ds h => .inl (cut_nil_iff.mp h).2.1⟩
    | cons t ts =>
      intro ns cs h
      cases (cut_nil_iff.mp h).1
  | cons p ps ih =>
    rw [List.forall_mem_cons] at hps
    rw [List.map_cons, answer_cons hps.1 hline hslash]
    refine reads_cons _ fun c hc => ?_
    have hsegs : segs = c.1 ++ c.2 := (takes_of_mem_choices hc).1
    refine ih hps.2 (fun t ht => hline t ?_) (fun t ht => hslash t ?_)
    · rw [hsegs]
      exact List.mem_append_right _ ht
    · rw [hsegs]
      exact List.mem_append_right _ ht

def segments (pattern : String) : List String :=
  (pieces '/' pattern).filter (· ≠ "")

theorem captures?_eq_answer (pattern : String) {rest : String} (hrest : rest ≠ "") :
    Pattern.captures? pattern ("/" ++ rest) =
      answer ((segments pattern).map Token.ofSegment) (pieces '/' rest) := by
  have hlocation : ("/" ++ rest).toList = spell (pieces '/' rest) := by
    rw [spell_pieces, String.toList_append]
    rfl
  rw [Pattern.captures?, Pattern.tokens, ← segments]
  cases hs : (segments pattern).map Token.ofSegment with
  | nil =>
    have hne : "/" ++ rest ≠ "/" := fun h => hrest (by simpa using congrArg String.toList h)
    rw [if_neg hne, answer, spell_pieces]
    rfl
  | cons token tokens => rw [answer, ← hlocation]

/-- The expression of a pattern, and so the pattern itself, matches a location behind a slash exactly
if its segments can be cut along those of the pattern, and the parameters capture what they take in
the first cut. -/
theorem search?_firstCut (pattern : String) {rest : String} (hrest : rest ≠ "")
    (hline : '\n' ∉ rest.toList) :
    Pattern.captures? pattern ("/" ++ rest) = search? pattern ("/" ++ rest) ∧
    ((search? pattern ("/" ++ rest)).isSome ↔
      ∃ ns cs, Cut (segments pattern) (pieces '/' rest) ns cs) ∧
    ∀ cs, search? pattern ("/" ++ rest) = some cs ↔
      FirstCut (segments pattern) (pieces '/' rest) cs := by
  have hps : ∀ p ∈ segments pattern, '/' ∉ p.toList :=
    fun p hp => not_mem_of_mem_pieces (List.mem_filter.mp hp).1
  have hline' : ∀ t ∈ pieces '/' rest, '\n' ∉ t.toList :=
    fun t ht h => hline (mem_of_mem_pieces ht h)
  have hslash : ∀ t ∈ pieces '/' rest, '/' ∉ t.toList := fun t ht => not_mem_of_mem_pieces ht
  refine ⟨captures?_eq_search? pattern ("/" ++ rest), ?_⟩
  rw [← captures?_eq_search?, captures?_eq_answer pattern hrest]
  exact (reads_answer hps hline' hslash).iff

/-- A catch-all in front leaves nothing to an optional segment behind it. -/
theorem catchAll_before_optional :
    ("docs/a" ≠ "" ∧ '\n' ∉ "docs/a".toList) ∧
      FirstCut (segments "/*/:page?") (pieces '/' "docs/a") [some "docs/a", none] := by
  have hrest : "docs/a" ≠ "" := by decide
  have hline : '\n' ∉ "docs/a".toList := by decide
  exact ⟨⟨hrest, hline⟩, ((search?_firstCut "/*/:page?" hrest hline).2.2 _).mp (by rfl)⟩

end TypedClient.Proofs.PatternMatching
