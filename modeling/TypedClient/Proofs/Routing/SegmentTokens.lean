import TypedClient.Proofs.Routing.SegmentCuts
import TypedClient.Proofs.Routing.SegmentSpelling

namespace TypedClient.Proofs.SegmentTokens

open TypedClient.Text TypedClient.Text.Regex TypedClient.Routing TypedClient.Routing.Segment
open TypedClient.Proofs.Pieces TypedClient.Proofs.RegexMatches TypedClient.Proofs.SegmentCuts
open TypedClient.Proofs.SegmentSpelling

def isPlain (c : Char) : Bool :=
  !(['[', ']', '{', '}', '.', '/', ':', '*', '?'].contains c)

structure Word where
  chars : List Char
  ne_nil : chars ≠ []
  plain : ∀ c ∈ chars, isPlain c = true

inductive Brackets
  | square
  | curly

namespace Brackets

def opening : Brackets → Char
  | square => '['
  | curly => '{'

def closing : Brackets → Char
  | square => ']'
  | curly => '}'

def opened (b : Brackets) : ParamKind → List Char
  | .required => [b.opening]
  | .optional => [b.opening, b.opening]
  | .wildcard => [b.opening, '.', '.', '.']

def closed (b : Brackets) : ParamKind → List Char
  | .optional => [b.closing, b.closing]
  | _ => [b.closing]

def enclose (b : Brackets) (kind : ParamKind) (name : Word) : List Char :=
  b.opened kind ++ name.chars ++ b.closed kind

end Brackets

def tokenChars : ParamKind → Word → List Char
  | .required, name => ':' :: name.chars
  | .optional, name => ':' :: (name.chars ++ ['?'])
  | .wildcard, _ => ['*']

inductive Part
  | text (w : Word)
  | token (b : Brackets) (kind : ParamKind) (name : Word)

namespace Part

def chars : Part → List Char
  | text w => w.chars
  | token b kind name => b.enclose kind name

def param? : Part → Option (String × ParamKind)
  | text _ => none
  | token _ .wildcard _ => some ("*", .wildcard)
  | token _ kind name => some (String.ofList name.chars, kind)

def normalized : Part → List Char
  | text w => w.chars
  | token _ kind name => Brackets.curly.enclose kind name

def inPattern : Part → List Char
  | text w => w.chars
  | token _ kind name => tokenChars kind name

end Part

def spelled (parts : List Part) : String :=
  String.ofList (parts.flatMap Part.chars)

def declared (parts : List Part) : List (String × ParamKind) :=
  parts.filterMap Part.param?

section Passes

variable {α : Type} {r : Regex} {f : Cursor → List Char} {left right w cs cs' rest : List Char}
  {opening closing c : Char} {start : Bool}

/-- A replacement makes the second text of the first wherever this stands. -/
def Turns (r : Regex) (f : Cursor → List Char) (cs cs' : List Char) : Prop :=
  ∀ rest rest', (∀ start, replaceFrom r f 0 start rest = rest') →
    ∀ start, replaceFrom r f 0 start (cs ++ rest) = cs' ++ rest'

theorem replaceAll_flatMap {parts : List α} {before after : α → List Char}
    (h : ∀ p, Turns r f (before p) (after p)) :
    r.replaceAll f (parts.flatMap before) = parts.flatMap after := by
  suffices hall : ∀ start, replaceFrom r f 0 start (parts.flatMap before) = parts.flatMap after from
    hall true
  induction parts with
  | nil => exact fun _ => rfl
  | cons p parts ih => exact h p _ _ ih

theorem replaceFrom_skip {rest' : List Char} (h : ∀ start, replaceFrom r f 0 start rest = rest')
    (cs : List Char) (start : Bool) : replaceFrom r f cs.length start (cs ++ rest) = rest' := by
  induction cs generalizing start with
  | nil => exact h start
  | cons c cs ih => exact ih _

theorem run_eq_none (h : ¬ left <+: cs) :
    (marked left right opening closing).run Option.some ⟨cs, start, []⟩ = none := by
  rw [Option.eq_none_iff_forall_ne_some]
  intro t ht
  obtain ⟨u, hu, -⟩ := exists_goes_of_run ht
  obtain ⟨w, -, hw, -⟩ := goes_marked hu
  exact h ⟨w ++ right ++ u.rest, by simpa using hw.symm⟩

theorem turns_cons (hc : ∀ rest, ¬ left <+: c :: (cs ++ rest))
    (h : Turns (marked left right opening closing) f cs cs') :
    Turns (marked left right opening closing) f (c :: cs) (c :: cs') := by
  intro rest rest' hrest start
  rw [List.cons_append, replaceFrom, run_eq_none (hc rest), h rest rest' hrest, List.cons_append]

theorem turns_of_not_mem (h : opening ∉ cs) :
    Turns (marked (opening :: left) right opening closing) f cs cs := by
  induction cs with
  | nil => exact fun _ _ hrest => hrest
  | cons c cs ih =>
    rw [List.mem_cons, not_or] at h
    exact turns_cons (fun rest hprefix => h.1 (List.cons_prefix_cons.mp hprefix).1) (ih h.2)

theorem closing_unique {w' rest' : List Char} (hw : closing ∉ w) (hw' : closing ∉ w')
    (h : w ++ closing :: rest = w' ++ closing :: rest') : w = w' ∧ rest = rest' := by
  induction w generalizing w' with
  | nil =>
    cases w' with
    | nil => exact ⟨rfl, (List.cons.inj h).2⟩
    | cons d w' => exact absurd ((List.cons.inj h).1 ▸ List.mem_cons_self) hw'
  | cons d w ih =>
    cases w' with
    | nil => exact absurd ((List.cons.inj h).1 ▸ List.mem_cons_self) hw
    | cons d' w' =>
      obtain ⟨rfl, htail⟩ := List.cons.inj h
      obtain ⟨rfl, hrest⟩ := ih (fun hd => hw (List.mem_cons_of_mem d hd))
        (fun hd => hw' (List.mem_cons_of_mem d hd)) htail
      exact ⟨rfl, hrest⟩

theorem exists_goes_marked (left right : List Char) (hne : w ≠ []) (hopening : opening ∉ w)
    (hclosing : closing ∉ w) (rest : List Char) (start : Bool) :
    ∃ t, Goes (marked left right opening closing) ⟨left ++ (w ++ (right ++ rest)), start, []⟩ t := by
  have hclass : ∀ c ∈ w, (decide (c ≠ opening) && decide (c ≠ closing)) = true := by
    intro c hc
    rw [Bool.and_eq_true, decide_eq_true_iff, decide_eq_true_iff]
    exact ⟨ne_of_mem_of_not_mem hc hopening, ne_of_mem_of_not_mem hc hclosing⟩
  obtain ⟨_, hleft⟩ := exists_goes_text left (w ++ (right ++ rest)) start []
  obtain ⟨behind, hname⟩ := exists_goes_some hne hclass (right ++ rest) _ []
  obtain ⟨_, hright⟩ := exists_goes_text right rest behind
    [(1, ⟨w ++ (right ++ rest), right ++ rest⟩)]
  exact ⟨_, .seq hleft (.seq (.group hname) (.seq hright .empty))⟩

theorem run_marked (left right : List Char) (hne : w ≠ []) (hopening : opening ∉ w)
    (hclosing : closing ∉ w) (rest : List Char) (start : Bool) : ∃ t,
      (marked left (closing :: right) opening closing).run Option.some
          ⟨left ++ (w ++ (closing :: right ++ rest)), start, []⟩ = Option.some t ∧
        t.rest = rest ∧ (t.group? 1).map Span.text = Option.some w := by
  -- some match ends behind the token; the first one found may be another, but its name ends there too
  obtain ⟨u, hu⟩ := exists_goes_marked left (closing :: right) hne hopening hclosing rest start
  obtain ⟨t, ht⟩ := Option.isSome_iff_exists.mp (isSome_run (k := Option.some) hu rfl)
  obtain ⟨v, hv, hvt⟩ := exists_goes_of_run ht
  obtain rfl := Option.some.inj hvt
  obtain ⟨w', hw', hrest, hname⟩ := goes_marked hv
  simp only [List.append_assoc, List.append_cancel_left_eq, List.cons_append] at hrest
  obtain ⟨rfl, hbehind⟩ := closing_unique hclosing hw' hrest
  exact ⟨v, ht, (List.append_cancel_left hbehind).symm, hname⟩

theorem turns_marked {out : List Char} (hne : w ≠ []) (hopening : opening ∉ w)
    (hclosing : closing ∉ w) (hf : ∀ t, (t.group? 1).map Span.text = Option.some w → f t = out) :
    Turns (marked (opening :: left) (closing :: right) opening closing) f
      (opening :: left ++ w ++ closing :: right) out := by
  intro rest rest' hrest start
  obtain ⟨t, hrun, ht, hname⟩ :=
    run_marked (opening :: left) right hne hopening hclosing rest start
  have hlength : (left ++ (w ++ (closing :: right ++ rest))).length - t.rest.length =
      (left ++ (w ++ closing :: right)).length := by
    simp only [ht, List.length_append, List.length_cons]
    omega
  have hle : t.rest.length ≤ (left ++ (w ++ (closing :: right ++ rest))).length := by
    simp only [ht, List.length_append, List.length_cons]
    omega
  have hskip := replaceFrom_skip hrest (left ++ (w ++ closing :: right)) (opening = '\n')
  simp only [List.append_assoc, List.cons_append] at hrun hlength hle hskip ⊢
  rw [replaceFrom, hrun]
  dsimp only
  rw [if_pos hle, hlength, hskip, hf t hname]

end Passes

section Stages

variable {b : Brackets} {kind kind' : ParamKind} {name : Word} {f : Cursor → List Char}
  {out : ParamKind → Word → List Char}

theorem not_mem_of_not_plain {c : Char} (w : Word) (hc : isPlain c = false) : c ∉ w.chars := by
  intro hmem
  rw [w.plain c hmem] at hc
  cases hc

theorem opening_not_plain (b : Brackets) : isPlain b.opening = false := by
  cases b <;> rfl

theorem closing_not_plain (b : Brackets) : isPlain b.closing = false := by
  cases b <;> rfl

theorem opening_not_mem_closed (b : Brackets) (kind : ParamKind) : b.opening ∉ b.closed kind := by
  cases b <;> cases kind <;> decide

def pass (b : Brackets) (kind : ParamKind) : Regex :=
  marked (b.opened kind) (b.closed kind) b.opening b.closing

def turn : ParamKind → Nat
  | .optional => 0
  | .wildcard => 1
  | .required => 2

def stage (b : Brackets) (out : ParamKind → Word → List Char) (n : Nat) (kind : ParamKind)
    (name : Word) : List Char :=
  if turn kind < n then out kind name else b.enclose kind name

theorem turns_aside {cs : List Char} (h : b.opening ∉ cs) : Turns (pass b kind) f cs cs := by
  cases kind <;> exact turns_of_not_mem h

theorem turns_later (h : turn kind < turn kind') :
    Turns (pass b kind) f (b.enclose kind' name) (b.enclose kind' name) := by
  have hclosed := opening_not_mem_closed b kind'
  have hname := not_mem_of_not_plain name (opening_not_plain b)
  have hdot := not_mem_of_not_plain (c := '.') name rfl
  have hopening : b.opening ≠ '.' := by cases b <;> decide
  obtain ⟨c, cs, hchars⟩ := List.exists_cons_of_ne_nil name.ne_nil
  rw [hchars, List.mem_cons, not_or] at hname hdot
  rw [Brackets.enclose, hchars]
  -- the opening of the earlier kind is longer, and the token goes on otherwise after its first bracket
  cases kind <;> cases kind' <;> try exact absurd h (by decide)
  case optional.required =>
    refine turns_cons (fun rest hprefix => ?_) (turns_of_not_mem (by simp_all))
    exact hname.1 (List.cons_prefix_cons.mp (List.cons_prefix_cons.mp hprefix).2).1
  case optional.wildcard =>
    refine turns_cons (fun rest hprefix => ?_) (turns_of_not_mem (by simp_all))
    exact hopening (List.cons_prefix_cons.mp (List.cons_prefix_cons.mp hprefix).2).1
  case wildcard.required =>
    refine turns_cons (fun rest hprefix => ?_) (turns_of_not_mem (by simp_all))
    exact hdot.1 (List.cons_prefix_cons.mp (List.cons_prefix_cons.mp hprefix).2).1

theorem turns_own
    (hf : ∀ t, (t.group? 1).map Span.text = Option.some name.chars → f t = out kind name) :
    Turns (pass b kind) f (b.enclose kind name) (out kind name) := by
  have hopening := not_mem_of_not_plain name (opening_not_plain b)
  have hclosing := not_mem_of_not_plain name (closing_not_plain b)
  cases kind <;> exact turns_marked name.ne_nil hopening hclosing hf

theorem turns_stage (hout : b.opening ∉ out kind' name)
    (hf : ∀ t, (t.group? 1).map Span.text = Option.some name.chars → f t = out kind name) :
    Turns (pass b kind) f (stage b out (turn kind) kind' name)
      (stage b out (turn kind + 1) kind' name) := by
  obtain h | h | h := Nat.lt_trichotomy (turn kind') (turn kind)
  · rw [stage, stage, if_pos h, if_pos (Nat.lt_succ_of_lt h)]
    exact turns_aside hout
  · obtain rfl : kind' = kind := by cases kind <;> cases kind' <;> first | rfl | cases h
    rw [stage, stage, if_neg (Nat.lt_irrefl _), if_pos (Nat.lt_succ_self _)]
    exact turns_own hf
  · rw [stage, stage, if_neg (by omega), if_neg (by omega)]
    exact turns_later h

def squareStage (n : Nat) : Part → List Char
  | .text w => w.chars
  | .token .square kind name => stage .square Brackets.curly.enclose n kind name
  | .token .curly kind name => Brackets.curly.enclose kind name

def curlyStage (n : Nat) : Part → List Char
  | .text w => w.chars
  | .token _ kind name => stage .curly tokenChars n kind name

theorem square_not_mem_enclose (kind : ParamKind) (name : Word) :
    '[' ∉ Brackets.curly.enclose kind name := by
  have hname := not_mem_of_not_plain (c := '[') name rfl
  cases kind <;> simp [Brackets.enclose, Brackets.opened, Brackets.closed, Brackets.opening,
    Brackets.closing, hname]

theorem curly_not_mem_tokenChars (kind : ParamKind) (name : Word) :
    '{' ∉ tokenChars kind name := by
  have hname := not_mem_of_not_plain (c := '{') name rfl
  cases kind <;> simp [tokenChars, hname]

def toCurly (kind : ParamKind) (cs : List Char) : List Char :=
  exchange (pass .square kind) (Brackets.curly.opened kind) (Brackets.curly.closed kind) cs

def toTokens : ParamKind → List Char → List Char
  | .required, cs => exchange (pass .curly .required) [':'] [] cs
  | .optional, cs => exchange (pass .curly .optional) [':'] ['?'] cs
  | .wildcard, cs => (pass .curly .wildcard).replaceAll (fun _ => ['*']) cs

theorem normalizeChars_eq (cs : List Char) :
    normalizeChars cs = toCurly .required (toCurly .wildcard (toCurly .optional cs)) :=
  rfl

theorem patternChars_eq (cs : List Char) :
    patternChars cs = toTokens .required (toTokens .wildcard (toTokens .optional cs)) :=
  rfl

theorem toCurly_stage (kind : ParamKind) (parts : List Part) :
    toCurly kind (parts.flatMap (squareStage (turn kind))) =
      parts.flatMap (squareStage (turn kind + 1)) := by
  refine replaceAll_flatMap fun p => ?_
  cases p with
  | text w => exact turns_aside (not_mem_of_not_plain w rfl)
  | token b kind' name =>
    cases b with
    | square =>
      refine turns_stage (square_not_mem_enclose kind' name) fun t ht => ?_
      rw [ht]
      rfl
    | curly => exact turns_aside (square_not_mem_enclose kind' name)

theorem toTokens_stage (kind : ParamKind) (parts : List Part) :
    toTokens kind (parts.flatMap (curlyStage (turn kind))) =
      parts.flatMap (curlyStage (turn kind + 1)) := by
  cases kind <;> refine replaceAll_flatMap fun p => ?_ <;> cases p
  case required.text w | optional.text w | wildcard.text w =>
    exact turns_aside (not_mem_of_not_plain w rfl)
  case required.token b kind' name =>
    refine turns_stage (curly_not_mem_tokenChars kind' name) fun t ht => ?_
    rw [ht]
    exact List.append_nil _
  case optional.token b kind' name =>
    refine turns_stage (curly_not_mem_tokenChars kind' name) fun t ht => ?_
    rw [ht]
    rfl
  case wildcard.token b kind' name =>
    exact turns_stage (curly_not_mem_tokenChars kind' name) fun _ _ => rfl

/-- The passes one after the other, if each of them makes its stage of the stage before. -/
theorem after_passes {next : ParamKind → List Char → List Char} {at_ : Nat → Part → List Char}
    {parts : List Part} (h : ∀ kind, next kind (parts.flatMap (at_ (turn kind))) =
      parts.flatMap (at_ (turn kind + 1))) :
    next .required (next .wildcard (next .optional (parts.flatMap (at_ 0)))) =
      parts.flatMap (at_ 3) := by
  have hoptional : next .optional (parts.flatMap (at_ 0)) = parts.flatMap (at_ 1) := h .optional
  have hwildcard : next .wildcard (parts.flatMap (at_ 1)) = parts.flatMap (at_ 2) := h .wildcard
  rw [hoptional, hwildcard]
  exact h .required

theorem normalizeChars_parts (parts : List Part) :
    normalizeChars (parts.flatMap Part.chars) = parts.flatMap Part.normalized := by
  have hfirst : Part.chars = squareStage 0 := by
    funext p
    rcases p with w | ⟨_ | _, kind, name⟩
    · rfl
    · cases kind <;> rfl
    · rfl
  have hlast : squareStage 3 = Part.normalized := by
    funext p
    rcases p with w | ⟨_ | _, kind, name⟩
    · rfl
    · cases kind <;> rfl
    · rfl
  rw [normalizeChars_eq, hfirst, after_passes fun kind => toCurly_stage kind parts, hlast]

theorem patternChars_parts (parts : List Part) :
    patternChars (parts.flatMap Part.normalized) = parts.flatMap Part.inPattern := by
  have hfirst : Part.normalized = curlyStage 0 := by
    funext p
    rcases p with w | ⟨b, kind, name⟩
    · rfl
    · cases kind <;> rfl
  have hlast : curlyStage 3 = Part.inPattern := by
    funext p
    rcases p with w | ⟨b, kind, name⟩
    · rfl
    · cases kind <;> rfl
  rw [patternChars_eq, hfirst, after_passes fun kind => toTokens_stage kind parts, hlast]

end Stages

theorem toPattern_spelled (parts : List Part) :
    Segment.toPattern (Segment.normalize (spelled parts)) =
      String.ofList (parts.flatMap Part.inPattern) := by
  rw [Segment.toPattern, Segment.normalize, spelled, String.toList_ofList, String.toList_ofList,
    normalizeChars_parts, patternChars_parts]

def segmentParam? (cs : List Char) : Option (String × ParamKind) :=
  (Token.ofSegment (String.ofList cs)).param?

theorem params_segment {cs : List Char} (h : '/' ∉ cs) :
    Pattern.params (Pattern.join "/" (String.ofList cs)) = (segmentParam? cs).toList := by
  by_cases hne : String.ofList cs = ""
  · obtain rfl : cs = [] := by simpa using hne
    rfl
  · have hseparated := pieces_append_separator (d := '/') (p := "") (by simp) (String.ofList cs)
    have hpiece : pieces '/' (String.ofList cs) = [String.ofList cs] :=
      pieces_eq_singleton (by rwa [String.toList_ofList])
    have hjoin : Pattern.join "/" (String.ofList cs) =
        "" ++ String.singleton '/' ++ String.ofList cs := by
      rw [Pattern.join, if_neg hne, String.toList_ofList, ← String.toList_inj]
      simp [trimEnd]
    rw [hjoin, Pattern.params, Pattern.tokens, hseparated, hpiece, segmentParam?]
    cases hparam : (Token.ofSegment (String.ofList cs)).param? <;> simp [hne, hparam]

theorem segmentParam?_eq_some {cs : List Char} {name : String} {kind : ParamKind}
    (h : segmentParam? cs = some (name, kind)) :
    (kind = .wildcard ∧ cs = ['*']) ∨ (kind = .required ∧ cs = ':' :: name.toList) ∨
      (kind = .optional ∧ cs = ':' :: (name.toList ++ ['?'])) := by
  have hspelled := spelled_ofSegment (String.ofList cs)
  rw [segmentParam?] at h
  generalize Token.ofSegment (String.ofList cs) = token at hspelled h
  generalize hs : String.ofList cs = s at hspelled
  obtain rfl : cs = s.toList := by rw [← hs, String.toList_ofList]
  cases hspelled with
  | static => cases h
  | param =>
    cases h
    exact .inr (.inl ⟨rfl, by simp⟩)
  | optional =>
    cases h
    exact .inr (.inr ⟨rfl, by simp⟩)
  | rest =>
    cases h
    exact .inl ⟨rfl, rfl⟩

theorem segmentParam?_text (w : Word) (cs : List Char) : segmentParam? (w.chars ++ cs) = none := by
  obtain ⟨c, w', hw⟩ := List.exists_cons_of_ne_nil w.ne_nil
  have hstar := not_mem_of_not_plain (c := '*') w rfl
  have hcolon := not_mem_of_not_plain (c := ':') w rfl
  rw [Option.eq_none_iff_forall_ne_some]
  rintro ⟨name, kind⟩ h
  obtain ⟨-, hcs⟩ | ⟨-, hcs⟩ | ⟨-, hcs⟩ := segmentParam?_eq_some h
  · rw [hw, List.cons_append] at hcs
    exact hstar (hw ▸ (List.cons.inj hcs).1 ▸ List.mem_cons_self)
  · rw [hw, List.cons_append] at hcs
    exact hcolon (hw ▸ (List.cons.inj hcs).1 ▸ List.mem_cons_self)
  · rw [hw, List.cons_append] at hcs
    exact hcolon (hw ▸ (List.cons.inj hcs).1 ▸ List.mem_cons_self)

theorem segmentParam?_tokenChars (b : Brackets) (kind : ParamKind) (name : Word) :
    segmentParam? (tokenChars kind name) = (Part.token b kind name).param? := by
  cases kind with
  | required =>
    have hname : ∀ n, String.ofList name.chars ≠ n ++ "?" := by
      intro n hn
      have hmem : '?' ∈ name.chars := by
        rw [← String.toList_ofList (l := name.chars), hn]
        simp
      exact not_mem_of_not_plain name rfl hmem
    have hchars : String.ofList (tokenChars .required name) = ":" ++ String.ofList name.chars := by
      rw [← String.toList_inj]
      simp [tokenChars]
    rw [segmentParam?, hchars, ofSegment_param hname]
    rfl
  | optional =>
    have hchars : String.ofList (tokenChars .optional name) =
        ":" ++ (String.ofList name.chars ++ "?") := by
      rw [← String.toList_inj]
      simp [tokenChars]
    rw [segmentParam?, hchars, ofSegment_optional]
    rfl
  | wildcard => rfl

theorem segmentParam?_eq_param?_iff {b : Brackets} {kind : ParamKind} {name : Word}
    {cs : List Char} :
    segmentParam? cs = (Part.token b kind name).param? ↔ cs = tokenChars kind name := by
  constructor
  · intro h
    cases kind
    all_goals
      obtain ⟨hkind, rfl⟩ | ⟨hkind, rfl⟩ | ⟨hkind, rfl⟩ := segmentParam?_eq_some h <;> cases hkind
      simp [tokenChars]
  · rintro rfl
    exact segmentParam?_tokenChars b kind name

theorem slash_not_mem (parts : List Part) : '/' ∉ parts.flatMap Part.inPattern := by
  rw [List.mem_flatMap]
  rintro ⟨p, -, hp⟩
  cases p with
  | text w => exact not_mem_of_not_plain w rfl hp
  | token b kind name =>
    have hname := not_mem_of_not_plain (c := '/') name rfl
    cases kind <;> simp [Part.inPattern, tokenChars, hname] at hp

theorem flatMap_inPattern_eq_nil {parts : List Part} (h : parts.flatMap Part.inPattern = []) :
    parts = [] := by
  cases parts with
  | nil => rfl
  | cons p parts =>
    rw [List.flatMap_cons, List.append_eq_nil_iff] at h
    cases p with
    | text w => exact absurd h.1 w.ne_nil
    | token b kind name => cases kind <;> cases h.1

/-- The pattern of a name declares what the name's tokens stand for just when there are none, or when
the one token is the whole name. -/
theorem params_spelled_iff (parts : List Part) :
    Pattern.params (Pattern.join "/" (Segment.toPattern (Segment.normalize (spelled parts)))) =
        declared parts ↔
      declared parts = [] ∨ ∃ token, parts = [token] := by
  rw [toPattern_spelled, params_segment (slash_not_mem parts)]
  cases parts with
  | nil => exact iff_of_true rfl (.inl rfl)
  | cons p parts =>
    rw [List.flatMap_cons]
    cases p with
    | text w =>
      rw [Part.inPattern, segmentParam?_text]
      constructor
      · exact fun h => .inl h.symm
      · rintro (h | ⟨token, h⟩)
        · exact h.symm
        · obtain ⟨-, rfl⟩ := List.cons.inj h
          rfl
    | token b kind name =>
      obtain ⟨param, hparam⟩ : ∃ param, (Part.token b kind name).param? = Option.some param := by
        cases kind <;> exact ⟨_, rfl⟩
      rw [declared, List.filterMap_cons_some hparam, Part.inPattern]
      constructor
      · intro h
        have hone : segmentParam? (tokenChars kind name ++ parts.flatMap Part.inPattern) =
            Option.some param :=
          Option.mem_toList.mp (h ▸ List.mem_cons_self)
        rw [← hparam, segmentParam?_eq_param?_iff, List.append_right_eq_self] at hone
        rw [flatMap_inPattern_eq_nil hone]
        exact .inr ⟨_, rfl⟩
      · rintro (h | ⟨token, h⟩)
        · cases h
        · obtain ⟨-, rfl⟩ := List.cons.inj h
          rw [List.flatMap_nil, List.append_nil, segmentParam?_tokenChars b, hparam]
          rfl

/-- The user with some identifier. -/
def user : List Part :=
  [.text ⟨"user-".toList, by decide, List.all_eq_true.mp rfl⟩,
    .token .square .required ⟨"id".toList, by decide, List.all_eq_true.mp rfl⟩]

/-- The token is one of the name, and of its pattern, but the pattern does not declare it. -/
theorem user_id_not_declared :
    spelled user = "user-[id]" ∧ declared user = [("id", .required)] ∧
      Segment.toPattern (Segment.normalize "user-[id]") = "user-:id" ∧
      Pattern.params (Pattern.join "/" (Segment.toPattern (Segment.normalize "user-[id]"))) = [] := by
  decide +kernel

end TypedClient.Proofs.SegmentTokens
