import TypedClient.Module.Expression
import TypedClient.Proofs.Literal.RoundTrip
import TypedClient.Proofs.Module.FreshName
import TypedClient.Proofs.Module.TypeNames
import TypedClient.Proofs.Text.BlockComments

namespace TypedClient.Proofs.NeutralText

open TypedClient.Identifier TypedClient.Literal TypedClient.Module TypedClient.Proofs.BlockComments
open TypedClient.Proofs.FreshName TypedClient.Proofs.Numeral

variable {s t u : String} {cs ds : List Char} {comments : List String}

theorem isPlain_of_isPart {c : Char} (h : isPart c = true) : isPlain c = true := by
  have hother : ∀ x, isPart x = false → c ≠ x := by
    rintro x hx rfl
    rw [h] at hx
    cases hx
  have hslash := hother '/' (by decide)
  have hdouble := hother '"' (by decide)
  have hsingle := hother '\'' (by decide)
  have hgrave := hother graveAccent (by decide)
  simp [isPlain, isQuote, hslash, hdouble, hsingle, hgrave]

def Inert (t : String) : Prop :=
  ∀ comments, (⟨.quoted '"', comments⟩ : Reader).read t = ⟨.quoted '"', comments⟩

theorem Inert.neutral (h : Inert t) : Neutral ("\"" ++ t ++ "\"") := by
  intro comments
  have hopened : (after comments).read "\"" = ⟨.quoted '"', comments⟩ := rfl
  rw [Reader.read_append, Reader.read_append, hopened, h]
  rfl

theorem foldl_step_quoteChar (c : Char) :
    (quoteChar c).foldl Reader.step ⟨.quoted '"', comments⟩ = ⟨.quoted '"', comments⟩ := by
  unfold quoteChar
  split
  · rfl
  split
  · rfl
  split
  · rfl
  split
  · rfl
  split
  · rfl
  · rename_i hquote hslash hline hreturn _
    simp [Reader.step, Mode.ofQuoted, isBreak, hquote, hslash, hline, hreturn]

theorem neutral_quoteChars (cs : List Char) : Neutral (String.ofList (quoteChars cs)) := by
  have hinert : Inert (String.ofList (cs.flatMap quoteChar)) := by
    intro comments
    rw [Reader.read, String.toList_ofList]
    induction cs with
    | nil => rfl
    | cons c cs ih => rw [List.flatMap_cons, List.foldl_append, foldl_step_quoteChar, ih]
  have hquoted : String.ofList (quoteChars cs) =
      "\"" ++ String.ofList (cs.flatMap quoteChar) ++ "\"" := by
    rw [← String.toList_inj]
    simp [quoteChars]
  rw [hquoted]
  exact hinert.neutral

/-- A plain character that is no bracket. -/
def isInner (c : Char) : Bool :=
  isPlain c && c ∉ ['(', ')', '[', ']', '{', '}']

/-- A text of such characters and of quoted texts, where each bracket that opens is closed. -/
inductive Coded : String → Prop
  | code {t : String} (h : t.toList.all isInner = true) : Coded t
  | quoted (cs : List Char) : Coded (String.ofList (quoteChars cs))
  | append {s t : String} (hs : Coded s) (ht : Coded t) : Coded (s ++ t)
  | within {o t c : String} (h : (o, c) ∈ [("(", ")"), ("[", "]"), ("\x7b", "\x7d")])
      (ht : Coded t) : Coded (o ++ t ++ c)

theorem Coded.neutral (h : Coded t) : Neutral t := by
  induction h with
  | code h =>
    refine neutral_of_plain (List.all_eq_true.mpr fun c hc => ?_)
    exact (Bool.and_eq_true_iff.mp (List.all_eq_true.mp h c hc)).1
  | quoted cs => exact neutral_quoteChars cs
  | append _ _ ihs iht => exact ihs.append iht
  | within h _ ih =>
    simp only [List.mem_cons, Prod.mk.injEq, List.not_mem_nil, or_false] at h
    obtain ⟨rfl, rfl⟩ | ⟨rfl, rfl⟩ | ⟨rfl, rfl⟩ := h <;>
      exact neutral_between (by decide) ih (by decide)

theorem Coded.plain (ht : Coded t) (hu : u.toList.all isInner = true) : Coded (t ++ u) :=
  ht.append (.code hu)

theorem coded_between (hs : s.toList.all isInner = true) (ht : Coded t)
    (hu : u.toList.all isInner = true) : Coded (s ++ t ++ u) :=
  ((Coded.code hs).append ht).plain hu

theorem coded_ofList_append (hc : Coded (String.ofList cs)) (hd : Coded (String.ofList ds)) :
    Coded (String.ofList (cs ++ ds)) := by
  rw [String.ofList_append]
  exact .append hc hd

theorem coded_ofList_cons {c : Char} (hc : isInner c = true) (hd : Coded (String.ofList ds)) :
    Coded (String.ofList (c :: ds)) := by
  have hfirst : Coded (String.ofList [c]) := .code (by simp [hc])
  rw [← List.singleton_append]
  exact coded_ofList_append hfirst hd

theorem coded_ofList_within {o c : Char}
    (hb : (String.ofList [o], String.ofList [c]) ∈ [("(", ")"), ("[", "]"), ("\x7b", "\x7d")])
    (hd : Coded (String.ofList ds)) : Coded (String.ofList (o :: (ds ++ [c]))) := by
  have htext : String.ofList (o :: (ds ++ [c])) =
      String.ofList [o] ++ String.ofList ds ++ String.ofList [c] := by simp [← String.toList_inj]
  rw [htext]
  exact .within hb hd

theorem isInner_of_isPart {c : Char} (h : isPart c = true) : isInner c = true := by
  have hbracket : c ∉ ['(', ')', '[', ']', '{', '}'] := by
    intro hc
    have hall : ['(', ')', '[', ']', '{', '}'].all (fun x => !isPart x) = true := by decide
    have hnot := List.all_eq_true.mp hall c hc
    rw [h] at hnot
    cases hnot
  rw [isInner, isPlain_of_isPart h, decide_eq_true hbracket]
  rfl

theorem coded_identifier {name : String} (h : IsIdentifier name) : Coded name := by
  obtain ⟨c, cs, hname, -, hpart⟩ := h
  refine .code (List.all_eq_true.mpr fun x hx => isInner_of_isPart (hpart x ?_))
  rwa [hname] at hx

theorem neutral_identifier {name : String} (h : IsIdentifier name) : Neutral name :=
  (coded_identifier h).neutral

theorem neutral_quoted (s : String) : Neutral (quoted s) :=
  neutral_quoteChars s.toList

theorem isPart_of_isWordPart {c : Char} (h : isWordPart c = true) : isPart c = true := by
  simp only [isWordPart, isWordStart, Bool.or_eq_true] at h
  simp only [isPart, Text.isLetterOrDigit, Text.isLetter, Text.isDigit, Bool.or_eq_true]
  tauto

theorem coded_keyChars (cs : List Char) : Coded (String.ofList (keyChars cs)) := by
  unfold keyChars
  split
  · rename_i hbare
    have hword : ∀ c ∈ cs, isWordPart c = true := by
      cases cs with
      | nil => exact nofun
      | cons c cs =>
        rw [isBareKey, Bool.and_eq_true, List.all_eq_true] at hbare
        exact List.forall_mem_cons.mpr ⟨LiteralReading.isWordPart_of_isWordStart hbare.1, hbare.2⟩
    refine .code (List.all_eq_true.mpr fun c hc => ?_)
    rw [String.toList_ofList] at hc
    exact isInner_of_isPart (isPart_of_isWordPart (hword c hc))
  · exact Coded.quoted cs

theorem coded_propertyKey (s : String) : Coded (propertyKey s) :=
  coded_keyChars s.toList

theorem neutral_propertyKey (s : String) : Neutral (propertyKey s) :=
  (coded_propertyKey s).neutral

section Literals

theorem isInner_of_isDigit {c : Char} (h : c.isDigit = true) : isInner c = true :=
  isInner_of_isPart (isPart_of_isWordPart (LiteralReading.isWordPart_of_isDigit h))

theorem all_isInner_of_digits (h : Digits ds) : ds.all isInner = true :=
  List.all_eq_true.mpr fun c hc => isInner_of_isDigit (h.2 c hc)

theorem all_isInner_of_isNumeral (h : IsNumeral cs) : cs.all isInner = true := by
  obtain ⟨hsign, hwhole, hfraction, hexponent⟩ := h
  rename_i sign whole frac exp
  have hs : sign.all isInner = true := by
    obtain rfl | rfl := hsign <;> decide
  have hf : frac.all isInner = true := by
    cases hfraction with
    | absent => rfl
    | present h => exact List.all_cons.trans (by rw [all_isInner_of_digits h]; decide)
  have he : exp.all isInner = true := by
    cases hexponent with
    | absent => rfl
    | present he hs h =>
      rw [List.all_append, all_isInner_of_digits h]
      obtain rfl | rfl := he <;> obtain rfl | rfl | rfl := hs <;> decide
  simp only [List.all_append, hs, all_isInner_of_digits hwhole, hf, he, Bool.and_true]

theorem coded_itemChars {ls : List Literal} (h : ∀ l ∈ ls, Coded (String.ofList l.chars)) :
    Coded (String.ofList (itemChars ls)) := by
  induction ls with
  | nil => exact .code rfl
  | cons l ls ih =>
    rw [List.forall_mem_cons] at h
    cases ls with
    | nil => exact h.1
    | cons m ls =>
      refine coded_ofList_append h.1 (coded_ofList_cons (by decide) ?_)
      exact coded_ofList_cons (by decide) (ih h.2)

theorem coded_entryChars {es : List (String × Literal)}
    (h : ∀ e ∈ es, Coded (String.ofList e.2.chars)) :
    Coded (String.ofList (entryChars es)) := by
  induction es with
  | nil => exact .code rfl
  | cons e es ih =>
    obtain ⟨key, value⟩ := e
    rw [List.forall_mem_cons] at h
    have hentry : Coded (String.ofList (keyChars key.toList ++ ':' :: ' ' :: value.chars)) :=
      coded_ofList_append (coded_keyChars _)
        (coded_ofList_cons (by decide) (coded_ofList_cons (by decide) h.1))
    cases es with
    | nil => exact hentry
    | cons e es =>
      refine coded_ofList_append hentry (coded_ofList_cons (by decide) ?_)
      exact coded_ofList_cons (by decide) (ih h.2)

theorem coded_chars {l : Literal} (h : RoundTrip.Written l) :
    Coded (String.ofList l.chars) := by
  induction h with
  | null => exact .code (by decide)
  | bool b => cases b <;> exact .code (by decide)
  | number h =>
    refine .code ?_
    rw [String.toList_ofList]
    exact all_isInner_of_isNumeral h
  | string s => exact Coded.quoted s.toList
  | array _ ih => exact coded_ofList_within (by decide) (coded_itemChars ih)
  | @object es _ ih =>
    cases es with
    | nil =>
      have hnothing : Coded (String.ofList []) := .code (by decide)
      exact coded_ofList_within (by decide) hnothing
    | cons e es =>
      have hspace : Coded (String.ofList [' ']) := .code (by decide)
      have hentries := coded_ofList_append (coded_entryChars ih) hspace
      have hchars : (Literal.object (e :: es)).chars =
          '{' :: ((' ' :: (entryChars (e :: es) ++ [' '])) ++ ['}']) := by simp [chars]
      rw [hchars]
      exact coded_ofList_within (by decide) (coded_ofList_cons (by decide) hentries)

end Literals

section Expressions

mutual

theorem coded_type : ∀ t : TypeExpr, (∀ n ∈ t.names, IsIdentifier n) → Coded t.text
  | .array t, h =>
    coded_between (by decide) (coded_type t h) (by decide)
  | .record t, h =>
    coded_between (by decide) (coded_type t h) (by decide)
  | .reference n, h => coded_identifier (h n (List.mem_singleton_self n))
  | .generic n ts, h => by
    have h := List.forall_mem_cons.mp h
    exact (((coded_identifier h.1).plain (by decide)).append
      (coded_typeList ts h.2)).plain (by decide)
  | .optional t, h => (coded_type t h).plain (by decide)
  | .promise t, h =>
    coded_between (by decide) (coded_type t h) (by decide)
  | .typeOf n, h =>
    (Coded.code (by decide)).append (coded_identifier (h n (List.mem_singleton_self n)))
  | .string, _ => .code (by decide)
  | .number, _ => .code (by decide)
  | .boolean, _ => .code (by decide)
  | .unknown, _ => .code (by decide)
  | .any, _ => .code (by decide)
  | .void, _ => .code (by decide)

theorem coded_typeList : ∀ ts : List TypeExpr,
    (∀ n ∈ TypeExpr.namesOfList ts, IsIdentifier n) → Coded (TypeExpr.listText ts)
  | [], _ => .code rfl
  | [t], h => coded_type t fun n hn => h n (List.mem_append_left _ hn)
  | t :: u :: ts, h => by
    have h := List.forall_mem_append.mp h
    exact ((coded_type t h.1).plain (by decide)).append
      (coded_typeList (u :: ts) h.2)

end

theorem coded_listText {es : List Expr} (h : ∀ e ∈ es, Coded e.text) :
    Coded (Expr.listText es) := by
  induction es with
  | nil => exact .code rfl
  | cons e es ih =>
    rw [List.forall_mem_cons] at h
    cases es with
    | nil => exact h.1
    | cons e' es => exact (h.1.plain (by decide)).append (ih h.2)

theorem coded_array {es : List Expr} (h : ∀ e ∈ es, Coded e.text) :
    Coded (Expr.array es).text :=
  .within (by decide) (coded_listText h)

theorem coded_construct {callee : String} {es : List Expr} (hc : IsIdentifier callee)
    (h : ∀ e ∈ es, Coded e.text) : Coded (Expr.construct callee es).text := by
  have hargs : Coded ("(" ++ Expr.listText es ++ ")") := .within (by decide) (coded_listText h)
  have htext : (Expr.construct callee es).text =
      "new " ++ callee ++ ("(" ++ Expr.listText es ++ ")") := by
    simp [Expr.text, ← String.toList_inj]
  rw [htext]
  exact ((Coded.code (by decide)).append (coded_identifier hc)).append hargs

end Expressions

end TypedClient.Proofs.NeutralText
