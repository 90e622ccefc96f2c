import TypedClient.Literal.Printer
import TypedClient.Proofs.Literal.Numeral

namespace TypedClient.Proofs.LiteralGrammar

open TypedClient.Literal TypedClient.Text TypedClient.Proofs.Numeral

def Blanks (cs : List Char) : Prop :=
  ∀ c ∈ cs, isBlank c = true

inductive Escape : Char → Char → Prop
  | lineFeed : Escape 'n' '\n'
  | tab : Escape 't' '\t'
  | carriageReturn : Escape 'r' '\r'
  | itself {c : Char} (hn : c ≠ 'n') (ht : c ≠ 't') (hr : c ≠ 'r') : Escape c c

inductive Quoted (q : Char) : List Char → List Char → Prop
  | nil : Quoted q [] []
  | plain {c : Char} {cs s : List Char} (hquote : c ≠ q) (hslash : c ≠ '\\') (h : Quoted q cs s) :
      Quoted q (c :: cs) (c :: s)
  | escape {e c : Char} {cs s : List Char} (he : Escape e c) (h : Quoted q cs s) :
      Quoted q ('\\' :: e :: cs) (c :: s)

def IsQuote (q : Char) : Prop :=
  q = '"' ∨ q = '\''

inductive Key : List Char → List Char → Prop
  | quoted {q : Char} {cs s : List Char} (hq : IsQuote q) (h : Quoted q cs s) :
      Key (q :: cs ++ [q]) s
  | bare {k : List Char} (h : isBareKey k = true) : Key k k

section

variable {α : Type} (P : List Char → α → Prop)

inductive Separated : List Char → List α → Prop
  | one {cs : List Char} {a : α} (h : P cs a) : Separated cs [a]
  | more {cs ds : List Char} {a : α} {as : List α} (h : P cs a) (hs : Separated ds as) :
      Separated (cs ++ ',' :: ds) (a :: as)

/-- What stands between brackets: nothing, or parts and perhaps one comma behind the last. -/
inductive Listed : List Char → List α → Prop
  | none {b : List Char} (hb : Blanks b) : Listed b []
  | parts {cs : List Char} {as : List α} (h : Separated P cs as) : Listed cs as
  | trailing {cs b : List Char} {as : List α} (h : Separated P cs as) (hb : Blanks b) :
      Listed (cs ++ ',' :: b) as

end

mutual

inductive Value : List Char → Literal → Prop
  | null : Value "null".toList .null
  | true : Value "true".toList (.bool true)
  | false : Value "false".toList (.bool false)
  | number {w : List Char} (h : IsNumeral w) : Value w (.number (String.ofList w))
  | string {q : Char} {cs s : List Char} (hq : IsQuote q) (h : Quoted q cs s) :
      Value (q :: cs ++ [q]) (.string (String.ofList s))
  | array {cs : List Char} {ls : List Literal} (h : Listed Element cs ls) :
      Value ('[' :: cs ++ [']']) (.array ls)
  | object {cs : List Char} {es : List (String × Literal)} (h : Listed Entry cs es) :
      Value ('{' :: cs ++ ['}']) (.object es)

inductive Element : List Char → Literal → Prop
  | mk {b v b' : List Char} {l : Literal} (hb : Blanks b) (h : Value v l) (hb' : Blanks b') :
      Element (b ++ v ++ b') l

/-- A key and a value with a colon between them, and blanks around each. -/
inductive Entry : List Char → String × Literal → Prop
  | mk {b k b' cs s : List Char} {l : Literal} (hb : Blanks b) (hk : Key k s) (hb' : Blanks b')
      (h : Element cs l) : Entry (b ++ k ++ b' ++ ':' :: cs) (String.ofList s, l)

end

theorem blanks_nil : Blanks [] :=
  nofun

theorem Blanks.append {b b' : List Char} (h : Blanks b) (h' : Blanks b') : Blanks (b ++ b') :=
  List.forall_mem_append.mpr ⟨h, h'⟩

section

variable {α : Type} {P : List Char → α → Prop} {cs ds : List Char} {a : α} {as : List α}

theorem Listed.cons (h : P cs a) (hs : Listed P ds as) : Listed P (cs ++ ',' :: ds) (a :: as) := by
  cases hs with
  | none hb => exact .trailing (.one h) hb
  | parts hs => exact .parts (.more h hs)
  | @trailing ds b _ hs hb =>
    have hassoc : cs ++ ',' :: (ds ++ ',' :: b) = (cs ++ ',' :: ds) ++ ',' :: b := by simp
    rw [hassoc]
    exact .trailing (.more h hs) hb

/-- Parts from the front: none, a last one without a comma, or one with a comma behind it. -/
theorem Listed.front (h : Listed P cs as) :
    (Blanks cs ∧ as = []) ∨ (∃ a, P cs a ∧ as = [a]) ∨
      ∃ ds es a as', P ds a ∧ Listed P es as' ∧ cs = ds ++ ',' :: es ∧ as = a :: as' := by
  cases h with
  | none hb => exact .inl ⟨hb, rfl⟩
  | parts hs =>
    cases hs with
    | one h => exact .inr (.inl ⟨_, h, rfl⟩)
    | more h hs => exact .inr (.inr ⟨_, _, _, _, h, .parts hs, rfl, rfl⟩)
  | @trailing _ b _ hs hb =>
    cases hs with
    | one h => exact .inr (.inr ⟨_, _, _, _, h, .none hb, rfl, rfl⟩)
    | @more ds es _ _ h hs =>
      have hassoc : ds ++ ',' :: es ++ ',' :: b = ds ++ ',' :: (es ++ ',' :: b) := by simp
      exact .inr (.inr ⟨_, _, _, _, h, .trailing hs hb, hassoc, rfl⟩)

end

section

variable {α : Type} {P : List Char → α → Prop} {cs : List Char} {as : List α}

theorem Separated.spaced (hP : ∀ {b ds b' a}, Blanks b → P ds a → Blanks b' → P (b ++ ds ++ b') a)
    {b b' : List Char} (hb : Blanks b) (h : Separated P cs as) (hb' : Blanks b') :
    Separated P (b ++ cs ++ b') as := by
  induction h generalizing b with
  | one h => exact .one (hP hb h hb')
  | @more ds es a as h hs ih =>
    have hfirst := hP hb h blanks_nil
    have hrest := ih blanks_nil
    have hassoc : b ++ (ds ++ ',' :: es) ++ b' = (b ++ ds ++ []) ++ ',' :: ([] ++ es ++ b') := by
      simp
    rw [hassoc]
    exact .more hfirst hrest

theorem Listed.part (h : Listed P cs as) : ∀ a ∈ as, ∃ ds, P ds a ∧ ds.length ≤ cs.length := by
  have hseparated : ∀ {cs as}, Separated P cs as → ∀ a ∈ as, ∃ ds, P ds a ∧
      ds.length ≤ cs.length := by
    intro cs as h
    induction h with
    | one h => exact List.forall_mem_singleton.mpr ⟨_, h, Nat.le_refl _⟩
    | more h hs ih =>
      refine List.forall_mem_cons.mpr ⟨⟨_, h, ?_⟩, fun a ha => ?_⟩
      · simp
      · obtain ⟨ds, hds, hlen⟩ := ih a ha
        refine ⟨ds, hds, hlen.trans ?_⟩
        simp only [List.length_append, List.length_cons]
        omega
  cases h with
  | none hb => exact nofun
  | parts h => exact hseparated h
  | trailing h hb =>
    intro a ha
    obtain ⟨ds, hds, hlen⟩ := hseparated h a ha
    exact ⟨ds, hds, by rw [List.length_append]; omega⟩

end

section

variable {b v cs b' : List Char} {l : Literal} {e : String × Literal}

theorem element_of_value (h : Value v l) : Element v l := by
  simpa using Element.mk blanks_nil h blanks_nil

theorem Element.spaced (hb : Blanks b) (h : Element cs l) (hb' : Blanks b') :
    Element (b ++ cs ++ b') l := by
  obtain ⟨hc, hv, hc'⟩ := h
  simpa using Element.mk (hb.append hc) hv (hc'.append hb')

theorem Entry.spaced (hb : Blanks b) (h : Entry cs e) (hb' : Blanks b') :
    Entry (b ++ cs ++ b') e := by
  obtain ⟨hc, hk, hc', hl⟩ := h
  simpa using Entry.mk (hb.append hc) hk hc' (hl.spaced blanks_nil hb')

end

end TypedClient.Proofs.LiteralGrammar
