import Mathlib.Data.List.Basic
import TypedClient.Text.Regex
import TypedClient.Routing.Matching

namespace TypedClient.Proofs.PatternExpression

open TypedClient.Routing TypedClient.Text

variable {p : Char → Bool} {k : Cursor → Option Captures} {cs : List Char} {n : Nat} {token : Token}
  {tokens : List Token} {groups : List (Nat × Span)} {r : Option Captures} {a : Regex}

def behindSlash (n : Nat) (a : Regex) : Regex :=
  .seq (.char '/') (.group n a)

def tokenExpression (n : Nat) : Token → Regex
  | .literal s => .text ('/' :: s.toList)
  | .param _ => behindSlash n (.some Token.inSegment)
  | .optional _ => .opt (behindSlash n (.some Token.inSegment))
  | .rest => .opt (behindSlash n (.many Token.inRest))

def paramCount (tokens : List Token) : Nat :=
  (tokens.filterMap Token.param?).length

def expression : Nat → List Token → Regex
  | _, [] => .empty
  | n, t :: ts => .seq (tokenExpression (n + 1) t) (expression (n + paramCount [t]) ts)

def remembered (n : Nat) (groups : List (Nat × Span)) : Captures :=
  (List.range n).map fun i => (groups.lookup (i + 1)).map fun s => String.ofList s.text

def atEnd (n : Nat) (k : Cursor) : Option Captures :=
  if k.rest = [] then some (remembered n k.groups) else none

/-- What the groups of a pattern's expression remember when it matches a location as a whole; the
expression of a pattern without tokens is a slash. -/
def search? (pattern location : String) : Option Captures :=
  match Pattern.tokens pattern with
  | [] => (Regex.char '/').run (atEnd 0) ⟨location.toList, true, []⟩
  | ts => (expression 0 ts).run (atEnd (paramCount ts)) ⟨location.toList, true, []⟩

theorem remembered_succ : remembered (n + 1) groups =
    remembered n groups ++ [(groups.lookup (n + 1)).map fun s => String.ofList s.text] := by
  simp [remembered, List.range_succ]

theorem remembered_cons (s : Span) : remembered n ((n + 1, s) :: groups) = remembered n groups := by
  refine List.map_congr_left fun i hi => ?_
  have hne : (i + 1 == n + 1) = false := by
    have := List.mem_range.mp hi
    simp only [beq_eq_false_iff_ne]
    omega
  rw [List.lookup_cons, hne]

theorem remembered_new (w rest : List Char) :
    remembered (n + 1) ((n + 1, ⟨w ++ rest, rest⟩) :: groups) =
      remembered n groups ++ [some (String.ofList w)] := by
  rw [remembered_succ, remembered_cons]
  simp [Span.text]

theorem remembered_skipped (hg : ∀ e ∈ groups, e.1 ≤ n) :
    remembered (n + 1) groups = remembered n groups ++ [none] := by
  have hnone : groups.lookup (n + 1) = none := by
    rw [List.lookup_eq_none_iff]
    intro e he
    have := hg e he
    simp only [bne_iff_ne]
    omega
  rw [remembered_succ, hnone]
  rfl

theorem run_char (c d : Char) (start : Bool) : (Regex.char c).run k ⟨d :: cs, start, groups⟩ =
    if d = c then k ⟨cs, d = '\n', groups⟩ else none := by
  simp [Regex.char, Regex.run, Cursor.advance]

theorem text_cons (c : Char) (w : List Char) :
    Regex.text (c :: w) = .seq (.char c) (.text w) := rfl

theorem run_text (w : List Char) (hk : ∀ start, k ⟨cs.drop w.length, start, groups⟩ = r)
    (start : Bool) :
    (Regex.text w).run k ⟨cs, start, groups⟩ = if w.isPrefixOf cs then r else none := by
  induction w generalizing cs start with
  | nil => exact hk start
  | cons c w ih =>
    rw [text_cons, Regex.run]
    cases cs with
    | nil => rfl
    | cons d ds =>
      rw [run_char]
      by_cases hd : d = c
      · rw [if_pos hd, ih hk, hd, List.isPrefixOf_cons_cons_self]
      · rw [if_neg hd, List.isPrefixOf_cons_cons, beq_false_of_ne (Ne.symm hd)]
        rfl

/-- Backtracking over a repetition finds the longest part behind which the tokens succeed. -/
theorem manyThen_eq (f : List Char → Captures → Captures)
    (h : ∀ start w rest, w ++ rest = cs →
      k ⟨rest, start, groups⟩ = (answers tokens rest).first?.map (f w)) (start : Bool) :
    Regex.manyThen p groups k start cs =
      (longest? p cs (answers tokens cs)).map fun r => f r.1 r.2 := by
  -- on the text left, where `f` knows what has been taken of it
  induction cs generalizing start f with
  | nil =>
    rw [Regex.manyThen, longest?, h start [] [] rfl, Option.map_map]
    rfl
  | cons c cs ih =>
    have hstop := h start [] (c :: cs) rfl
    have hgo := ih (fun w => f (c :: w))
      (fun start w rest hw => h start (c :: w) rest (by rw [List.cons_append, hw])) (c = '\n')
    rw [Regex.manyThen, longest?, answers_tail]
    by_cases hc : p c
    · rw [if_pos hc, if_pos hc, hgo, hstop]
      cases longest? p cs (answers tokens cs) <;> simp [Function.comp_def]
    · rw [if_neg hc, if_neg hc, hstop]
      simp [Function.comp_def]

/-- From each place on, with `n` groups before, `k` finds what the tokens take there. -/
def Finds (n : Nat) (tokens : List Token) (k : Cursor → Option Captures) : Prop :=
  ∀ start cs groups, (∀ e ∈ groups, e.1 ≤ n) →
    k ⟨cs, start, groups⟩ = (answers tokens cs).first?.map (remembered n groups ++ ·)

def FindsBehind (n : Nat) (token : Token) (tokens : List Token) (k : Cursor → Option Captures) :
    Prop :=
  ∀ start cs groups, (∀ e ∈ groups, e.1 ≤ n) →
    k ⟨cs, start, groups⟩ =
      (token.behindSlash? cs (answers tokens cs)).map (remembered n groups ++ ·)

theorem finds_atEnd (n : Nat) : Finds n [] (atEnd n) := by
  intro start cs groups _
  cases cs <;> simp [atEnd, answers, endAnswers, Answers.first?]

theorem findsBehind_literal (s : String) (h : Finds n tokens k) :
    FindsBehind n (.literal s) tokens ((Regex.text s.toList).run k) := by
  intro start cs groups hg
  rw [run_text s.toList (fun start => h start _ groups hg), Token.behindSlash?]
  by_cases hs : s.toList.isPrefixOf cs
  · obtain ⟨rest, rfl⟩ := List.isPrefixOf_iff_prefix.mp hs
    rw [if_pos hs, if_pos hs, ← String.length_toList, answers_drop, List.drop_left]
  · rw [if_neg hs, if_neg hs]
    rfl

/-- What stands behind a slash is remembered in front of what the tokens behind it take. -/
theorem remembering (h : Finds (n + 1) tokens k) (hg : ∀ e ∈ groups, e.1 ≤ n)
    (start : Bool) (w rest : List Char) :
    k ⟨rest, start, (n + 1, ⟨w ++ rest, rest⟩) :: groups⟩ =
      (answers tokens rest).first?.map (remembered n groups ++ some (String.ofList w) :: ·) := by
  have hg' : ∀ e ∈ (n + 1, (⟨w ++ rest, rest⟩ : Span)) :: groups, e.1 ≤ n + 1 :=
    List.forall_mem_cons.mpr ⟨Nat.le_refl _, fun e he => Nat.le_succ_of_le (hg e he)⟩
  rw [h start rest _ hg', remembered_new]
  simp

theorem findsBehind_rest (h : Finds (n + 1) tokens k) :
    FindsBehind n .rest tokens ((Regex.group (n + 1) (.many Token.inRest)).run k) := by
  intro start cs groups hg
  rw [Regex.run, Regex.run, Token.behindSlash?, Option.map_map]
  refine manyThen_eq (fun w r => remembered n groups ++ some (String.ofList w) :: r) ?_ start
  rintro start w rest rfl
  exact remembering h hg start w rest

theorem run_segment (h : Finds (n + 1) tokens k) (hg : ∀ e ∈ groups, e.1 ≤ n) (start : Bool) :
    (Regex.group (n + 1) (.some Token.inSegment)).run k ⟨cs, start, groups⟩ =
      ((Token.segment? cs (answers tokens cs)).map Token.capture).map
        (remembered n groups ++ ·) := by
  rw [Regex.run, Regex.some, Regex.run, Regex.run]
  cases cs with
  | nil => rfl
  | cons c cs =>
    rw [Token.segment?, answers_tail]
    by_cases hc : Token.inSegment c
    · simp only [if_pos hc, Option.map_map, Cursor.advance, Regex.run]
      refine manyThen_eq (fun w r => remembered n groups ++ some (String.ofList (c :: w)) :: r) ?_ _
      rintro start w rest rfl
      exact remembering h hg start (c :: w) rest
    · simp only [if_neg hc]
      rfl

theorem run_slash (h : FindsBehind n token tokens (a.run k)) (hg : ∀ e ∈ groups, e.1 ≤ n)
    (start : Bool) (cs : List Char) :
    (Regex.seq (.char '/') a).run k ⟨cs, start, groups⟩ =
      (token.present? cs (answers tokens cs)).map (remembered n groups ++ ·) := by
  rw [Regex.run]
  cases cs with
  | nil => rfl
  | cons c cs =>
    rw [run_char]
    by_cases hc : c = '/'
    · subst hc
      rw [if_pos rfl, h _ cs groups hg, Token.present?, answers_tail]
    · rw [if_neg hc, Token.present?]
      · rfl
      · exact fun _ h => hc (List.cons.inj h).1

theorem finds_required (h : FindsBehind n token tokens (a.run k)) (ht : token.isOptional = false) :
    Finds n (token :: tokens) ((Regex.seq (.char '/') a).run k) := by
  intro start cs groups hg
  rw [run_slash h hg, first?_answers_cons, Token.answer?, Token.absent?, ht]
  simp

theorem finds_optional (h : FindsBehind n token tokens (a.run k)) (ht : token.isOptional = true)
    (hk : Finds (n + 1) tokens k) :
    Finds n (token :: tokens) ((Regex.opt (.seq (.char '/') a)).run k) := by
  intro start cs groups hg
  have hskip := hk start cs groups fun e he => Nat.le_succ_of_le (hg e he)
  rw [Regex.opt, Regex.run, Regex.run, run_slash h hg, hskip, remembered_skipped hg,
    first?_answers_cons, Token.answer?, Token.absent?, ht]
  cases token.present? cs (answers tokens cs) <;> simp [Function.comp_def]

theorem paramCount_cons (token : Token) (tokens : List Token) :
    paramCount (token :: tokens) = paramCount [token] + paramCount tokens := by
  simp only [paramCount, List.filterMap_cons, List.filterMap_nil]
  cases token <;> simp [Token.param?, Nat.add_comm]

theorem finds_token (h : Finds (n + paramCount [token]) tokens k) :
    Finds n (token :: tokens) ((tokenExpression (n + 1) token).run k) := by
  cases token with
  | literal s => exact finds_required (findsBehind_literal s h) rfl
  | param name => exact finds_required (fun start cs groups hg => run_segment h hg start) rfl
  | optional name => exact finds_optional (fun start cs groups hg => run_segment h hg start) rfl h
  | rest => exact finds_optional (findsBehind_rest h) rfl h

theorem finds_expression (n : Nat) (tokens : List Token) :
    Finds n tokens ((expression n tokens).run (atEnd (n + paramCount tokens))) := by
  induction tokens generalizing n with
  | nil => exact finds_atEnd n
  | cons token tokens ih =>
    have hrest := ih (n + paramCount [token])
    rw [Nat.add_assoc, ← paramCount_cons] at hrest
    exact finds_token hrest

/-- The tokens of a pattern take of a location what the groups of its expression remember. -/
theorem captures?_eq_search? (pattern location : String) :
    Pattern.captures? pattern location = search? pattern location := by
  rw [Pattern.captures?, search?]
  cases htokens : Pattern.tokens pattern with
  | nil =>
    have hroot : location = "/" ↔ location.toList = ['/'] := String.toList_inj.symm
    simp only [hroot]
    cases location.toList with
    | nil => rfl
    | cons c cs =>
      rw [run_char]
      by_cases hc : c = '/' <;> simp [hc, atEnd, remembered]
  | cons token tokens =>
    have h := finds_expression 0 (token :: tokens) true location.toList [] (by simp)
    rw [Nat.zero_add] at h
    simp [h, remembered]

end TypedClient.Proofs.PatternExpression
