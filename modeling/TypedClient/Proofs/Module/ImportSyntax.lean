import TypedClient.Proofs.Module.FreshName

namespace TypedClient.Proofs.ImportSyntax

open TypedClient.Module TypedClient.Identifier TypedClient.Proofs.FreshName

/-- The characters of names. All that is asked of them is that letters, digits, `_` and `$` are
among them and that neither blanks nor the punctuation of imports are. -/
structure Alphabet where
  starts : Char → Bool
  continues : Char → Bool
  starts_of_isPart : ∀ c, isPart c = true → Text.isDigit c = false → starts c = true
  continues_of_isPart : ∀ c, isPart c = true → continues c = true
  starts_blank : ∀ c, c.isWhitespace = true → starts c = false
  apart : ∀ c ∈ [' ', '"', '{', '}', ',', '*', ';'], starts c = false ∧ continues c = false

def Alphabet.IsName (a : Alphabet) (w : String) : Prop :=
  ∃ c cs, w.toList = c :: cs ∧ a.starts c = true ∧ ∀ x ∈ cs, a.continues x = true

inductive Token
  | word (w : String)
  | path (p : String)
  | opening
  | closing
  | comma
  | star
  | semicolon
deriving DecidableEq, Repr

namespace Token

def ofChar? : Char → Option Token
  | '{' => some opening
  | '}' => some closing
  | ',' => some comma
  | '*' => some star
  | ';' => some semicolon
  | _ => none

def chars : Token → List Char
  | word w => w.toList
  | path p => '"' :: p.toList ++ ['"']
  | opening => ['{']
  | closing => ['}']
  | comma => [',']
  | star => ['*']
  | semicolon => [';']

end Token

def isPlain (c : Char) : Bool :=
  c ≠ '"' && c ≠ '\\' && c ≠ '\n' && c ≠ '\r'

def tokens? (a : Alphabet) : List Char → Option (List Token)
  | [] => some []
  | c :: cs =>
    if c.isWhitespace then tokens? a cs
    else if a.starts c then
      (tokens? a (cs.dropWhile a.continues)).map
        (.word (String.ofList (c :: cs.takeWhile a.continues)) :: ·)
    else if c = '"' then
      if (cs.dropWhile isPlain).head? = some '"' then
        (tokens? a (cs.dropWhile isPlain).tail).map
          (.path (String.ofList (cs.takeWhile isPlain)) :: ·)
      else none
    else (Token.ofChar? c).bind fun token => (tokens? a cs).map (token :: ·)
termination_by cs => cs.length
decreasing_by
  · simp
  · exact Nat.lt_succ_of_le (List.dropWhile_suffix _).length_le
  · exact Nat.lt_succ_of_le
      (Nat.le_trans (List.tail_sublist _).length_le (List.dropWhile_suffix _).length_le)
  · simp

def unbindable : List String :=
  ["arguments", "await", "break", "case", "catch", "class", "const", "continue", "debugger",
   "default", "delete", "do", "else", "enum", "eval", "export", "extends", "false", "finally",
   "for", "function", "if", "implements", "import", "in", "instanceof", "interface", "let", "new",
   "null", "package", "private", "protected", "public", "return", "static", "super", "switch",
   "this", "throw", "true", "try", "typeof", "var", "void", "while", "with", "yield"]

def isBindable (w : String) : Bool :=
  !unbindable.contains w

structure Specifier where
  exported : String
  binding : String
  typeOnly : Bool
deriving DecidableEq, Repr

inductive Clause
  | everything (binding : String)
  | defaultExport (binding : String)
  | named (specifiers : List Specifier)
deriving DecidableEq, Repr

structure Declaration where
  path : String
  typeOnly : Bool
  clause : Clause
deriving DecidableEq, Repr

/-- The specifier that some tokens are. A single word is a name whatever it is; before another word
`type` is the keyword, unless that word is the `as` before a binding. -/
def Specifier.ofTokens? : List Token → Option Specifier
  | [.word n] => if isBindable n then some ⟨n, n, false⟩ else none
  | [.word v, .word n] => if v = "type" && isBindable n then some ⟨n, n, true⟩ else none
  | [.word n, .word w, .word b] => if w = "as" && isBindable b then some ⟨n, b, false⟩ else none
  | [.word v, .word n, .word w, .word b] =>
    if v = "type" && w = "as" && isBindable b then some ⟨n, b, true⟩ else none
  | _ => none

def Clause.ofTokens? : List Token → Option (Clause × List Token)
  | .star :: .word w :: .word b :: ts =>
    if w = "as" && isBindable b then some (.everything b, ts) else none
  | .opening :: ts =>
    (((ts.takeWhile (· ≠ .closing)).splitOn .comma).mapM Specifier.ofTokens?).map fun ss =>
      (.named ss, (ts.dropWhile (· ≠ .closing)).tail)
  | .word b :: ts => if isBindable b then some (.defaultExport b, ts) else none
  | _ => none

def Clause.hasType : Clause → Bool
  | named ss => ss.any Specifier.typeOnly
  | _ => false

/-- Whether `type` is the keyword before these tokens. Before `from` it is the name of a default
import, unless that `from` is one. -/
def modifies : List Token → Bool
  | .word w :: ts => if w = "from" then ts.head? = some (.word "from") else isBindable w
  | .star :: _ => true
  | .opening :: _ => true
  | _ => false

def typeModifier : List Token → Bool × List Token
  | .word w :: ts => if w = "type" && modifies ts then (true, ts) else (false, .word w :: ts)
  | ts => (false, ts)

def pathOf? : List Token → Option String
  | [.word w, .path p, .semicolon] => if w = "from" then some p else none
  | _ => none

namespace Declaration

/-- The declaration that some tokens are. One for types alone has no specifier that says so
again. -/
def ofTokens? : List Token → Option Declaration
  | .word w :: ts =>
    if w = "import" then do
      let (typeOnly, ts) := typeModifier ts
      let (clause, ts) ← Clause.ofTokens? ts
      let path ← pathOf? ts
      if typeOnly && clause.hasType then none else some ⟨path, typeOnly, clause⟩
    else none
  | _ => none

def read? (a : Alphabet) (text : String) : Option Declaration :=
  (tokens? a text.toList).bind ofTokens?

def imports (d : Declaration) : List Import :=
  match d.clause with
  | .everything b => [⟨d.path, .everything, b, d.typeOnly⟩]
  | .defaultExport b => [⟨d.path, .defaultExport, b, d.typeOnly⟩]
  | .named ss => ss.map fun s => ⟨d.path, .named s.exported, s.binding, d.typeOnly || s.typeOnly⟩

end Declaration

variable {a : Alphabet} {w p b n : String} {cs rest : List Char} {ts : List Token}

theorem isName_of_isIdentifier (h : IsIdentifier w) : a.IsName w := by
  obtain ⟨c, cs, hw, hdigit, hparts⟩ := h
  obtain ⟨hc, hcs⟩ := List.forall_mem_cons.mp hparts
  exact ⟨c, cs, hw, a.starts_of_isPart c hc hdigit, fun x hx => a.continues_of_isPart x (hcs x hx)⟩

theorem isIdentifier_of_sanitize (h : sanitize w = w) : IsIdentifier w :=
  h ▸ sanitize_isIdentifier w

theorem isBindable_of_not_reserved (h : w ∉ reservedWords) : isBindable w = true := by
  have hsub : unbindable ⊆ reservedWords := by decide
  rw [isBindable, Bool.not_eq_true', ← Bool.not_eq_true, List.contains_iff_mem]
  exact fun hmem => h (hsub hmem)

def Halts (a : Alphabet) (rest : List Char) : Prop :=
  ∀ c ∈ rest.head?, a.continues c = false

theorem takeWhile_append_of_halts (hcs : ∀ c ∈ cs, a.continues c = true) (h : Halts a rest) :
    (cs ++ rest).takeWhile a.continues = cs ∧ (cs ++ rest).dropWhile a.continues = rest := by
  have hrest : rest.takeWhile a.continues = [] ∧ rest.dropWhile a.continues = rest := by
    cases rest with
    | nil => exact ⟨rfl, rfl⟩
    | cons c rest =>
      have hc := h c rfl
      exact ⟨List.takeWhile_cons_of_neg (by simp [hc]), List.dropWhile_cons_of_neg (by simp [hc])⟩
  rw [List.takeWhile_append_of_pos hcs, List.dropWhile_append_of_pos hcs, hrest.1, hrest.2]
  exact ⟨List.append_nil cs, rfl⟩

theorem tokens?_word (hw : a.IsName w) (h : Halts a rest) :
    tokens? a (w.toList ++ rest) = (tokens? a rest).map (.word w :: ·) := by
  obtain ⟨c, cs, hchars, hc, hcs⟩ := hw
  have hblank : ¬ c.isWhitespace = true := by
    intro hblank
    rw [a.starts_blank c hblank] at hc
    cases hc
  obtain ⟨htake, hdrop⟩ := takeWhile_append_of_halts hcs h
  have hword : String.ofList (c :: cs) = w := by rw [← hchars, String.ofList_toList]
  rw [hchars, List.cons_append, tokens?, if_neg hblank, if_pos hc, htake, hdrop, hword]

theorem tokens?_blank (cs : List Char) : tokens? a (' ' :: cs) = tokens? a cs := by
  rw [tokens?, if_pos (by decide)]

theorem tokens?_path (hp : ∀ c ∈ p.toList, isPlain c = true) (rest : List Char) :
    tokens? a ('"' :: p.toList ++ '"' :: rest) = (tokens? a rest).map (.path p :: ·) := by
  have hquote := a.apart '"' (by decide)
  have hdrop : (p.toList ++ '"' :: rest).dropWhile isPlain = '"' :: rest := by
    rw [List.dropWhile_append_of_pos hp]
    rfl
  have htake : (p.toList ++ '"' :: rest).takeWhile isPlain = p.toList := by
    rw [List.takeWhile_append_of_pos hp]
    exact List.append_nil _
  rw [List.cons_append, tokens?, if_neg (by decide), if_neg (by simp [hquote.1]), if_pos rfl, hdrop,
    htake, List.head?_cons, if_pos rfl, List.tail_cons, String.ofList_toList]

theorem tokens?_ofChar? {c : Char} {token : Token} (h : Token.ofChar? c = some token)
    (hc : c ∈ ['{', '}', ',', '*', ';']) (rest : List Char) :
    tokens? a (c :: rest) = (tokens? a rest).map (token :: ·) := by
  have hstarts : a.starts c = false := (a.apart c (by simp at hc ⊢; tauto)).1
  have hblank : c.isWhitespace = false ∧ c ≠ '"' := by
    simp only [List.mem_cons, List.not_mem_nil, or_false] at hc
    obtain rfl | rfl | rfl | rfl | rfl := hc <;> decide
  rw [tokens?, if_neg (by simp [hblank.1]), if_neg (by simp [hstarts]), if_neg hblank.2, h,
    Option.bind_some]

/-- A token as it is printed: a word with a blank before it, a path too, punctuation with or without
one. -/
structure Chunk where
  blank : Bool
  token : Token

namespace Chunk

def chars (c : Chunk) : List Char :=
  (if c.blank then [' '] else []) ++ c.token.chars

def Fits (a : Alphabet) : Chunk → Prop
  | ⟨blank, .word w⟩ => blank = true ∧ a.IsName w
  | ⟨_, .path p⟩ => ∀ c ∈ p.toList, isPlain c = true
  | _ => True

end Chunk

theorem halts_chars {c : Chunk} (h : c.Fits a) (rest : List Char) : Halts a (c.chars ++ rest) := by
  obtain ⟨blank, token⟩ := c
  intro x hx
  cases blank with
  | true =>
    obtain rfl : ' ' = x := by simpa [Chunk.chars] using hx
    exact (a.apart ' ' (by decide)).2
  | false =>
    cases token with
    | word w => cases h.1
    | path | opening | closing | comma | star | semicolon =>
      simp only [Chunk.chars, Token.chars] at hx
      obtain rfl := Option.some.inj hx
      exact (a.apart _ (by decide)).2

theorem halts_chunks {chunks : List Chunk} (h : ∀ c ∈ chunks, c.Fits a) :
    Halts a (chunks.flatMap Chunk.chars) := by
  cases chunks with
  | nil => exact fun c hc => by cases hc
  | cons c chunks =>
    rw [List.flatMap_cons]
    exact halts_chars (h c List.mem_cons_self) _

theorem tokens?_token {c : Chunk} (h : c.Fits a) (hrest : Halts a rest) :
    tokens? a (c.token.chars ++ rest) = (tokens? a rest).map (c.token :: ·) := by
  obtain ⟨blank, token⟩ := c
  cases token with
  | word w => exact tokens?_word h.2 hrest
  | path p =>
    rw [Token.chars, List.append_assoc]
    exact tokens?_path h rest
  | opening | closing | comma | star | semicolon => exact tokens?_ofChar? rfl (by decide) rest

theorem tokens?_chunks {chunks : List Chunk} (h : ∀ c ∈ chunks, c.Fits a) :
    tokens? a (chunks.flatMap Chunk.chars) = some (chunks.map Chunk.token) := by
  induction chunks with
  | nil => rw [List.flatMap_nil, tokens?, List.map_nil]
  | cons c chunks ih =>
    obtain ⟨hc, hchunks⟩ := List.forall_mem_cons.mp h
    have htoken := tokens?_token hc (halts_chunks hchunks)
    rw [ih hchunks, Option.map_some] at htoken
    rw [List.flatMap_cons, List.map_cons, ← htoken, Chunk.chars]
    cases c.blank with
    | true => rw [if_pos rfl, List.append_assoc, List.singleton_append, tokens?_blank]
    | false => rw [if_neg Bool.false_ne_true, List.nil_append]

theorem flatMap_intercalate {α β : Type} (f : α → List β) (sep : List α) (ls : List (List α)) :
    (sep.intercalate ls).flatMap f = (sep.flatMap f).intercalate (ls.map (List.flatMap f)) := by
  induction ls with
  | nil => rfl
  | cons l ls ih =>
    cases ls with
    | nil => simp
    | cons l' ls =>
      rw [List.intercalate_cons_cons, List.flatMap_append, List.flatMap_append, ih, List.map_cons,
        List.map_cons, List.map_cons, List.intercalate_cons_cons]

theorem map_intercalate {α β : Type} (f : α → β) (sep : List α) (ls : List (List α)) :
    (sep.intercalate ls).map f = (sep.map f).intercalate (ls.map (List.map f)) := by
  have hmap : List.flatMap (fun x => [f x]) = List.map f :=
    funext fun l => List.map_eq_flatMap.symm
  simpa only [hmap] using flatMap_intercalate (fun x => [f x]) sep ls

theorem mem_intercalate {α : Type} {sep : List α} {ls : List (List α)} {x : α}
    (h : x ∈ sep.intercalate ls) : x ∈ sep ∨ ∃ l ∈ ls, x ∈ l := by
  induction ls with
  | nil => cases h
  | cons l ls ih =>
    cases ls with
    | nil => exact .inr ⟨l, List.mem_cons_self, by simpa using h⟩
    | cons l' ls =>
      rw [List.intercalate_cons_cons, List.mem_append, List.mem_append] at h
      obtain (hl | hsep) | hrest := h
      · exact .inr ⟨l, List.mem_cons_self, hl⟩
      · exact .inl hsep
      · exact (ih hrest).imp_right fun ⟨m, hm, hx⟩ => ⟨m, List.mem_cons_of_mem l hm, hx⟩

namespace Specifier

def chunks (s : Specifier) : List Chunk :=
  (if s.typeOnly then [⟨true, .word "type"⟩] else []) ++ ⟨true, .word s.exported⟩ ::
    if s.exported = s.binding then [] else [⟨true, .word "as"⟩, ⟨true, .word s.binding⟩]

structure Fits (a : Alphabet) (s : Specifier) : Prop where
  exported : a.IsName s.exported
  binding : a.IsName s.binding
  bindable : isBindable s.binding = true

end Specifier

namespace Clause

def chunks : Clause → List Chunk
  | everything b => [⟨true, .star⟩, ⟨true, .word "as"⟩, ⟨true, .word b⟩]
  | defaultExport b => [⟨true, .word b⟩]
  | named ss =>
    ⟨true, .opening⟩ :: [⟨false, .comma⟩].intercalate (ss.map Specifier.chunks) ++
      [⟨true, .closing⟩]

def Fits (a : Alphabet) : Clause → Prop
  | everything b => a.IsName b ∧ isBindable b = true
  | defaultExport b => a.IsName b ∧ isBindable b = true
  | named ss => ss ≠ [] ∧ ∀ s ∈ ss, s.Fits a

end Clause

namespace Declaration

def chunks (d : Declaration) : List Chunk :=
  (if d.typeOnly then [⟨true, .word "type"⟩] else []) ++
    (d.clause.chunks ++ [⟨true, .word "from"⟩, ⟨true, .path d.path⟩, ⟨false, .semicolon⟩])

def chars (d : Declaration) : List Char :=
  (⟨false, .word "import"⟩ :: d.chunks).flatMap Chunk.chars

/-- What a declaration needs to be read back: names that can be bound, a path that needs no escapes
and `type` in one place alone. -/
structure Fits (a : Alphabet) (d : Declaration) : Prop where
  path : ∀ c ∈ d.path.toList, isPlain c = true
  clause : d.clause.Fits a
  once : d.typeOnly = true → d.clause.hasType = false

end Declaration

theorem fits_word (h : IsIdentifier w) : Chunk.Fits a ⟨true, .word w⟩ :=
  ⟨rfl, isName_of_isIdentifier h⟩

theorem fits_type : Chunk.Fits a ⟨true, .word "type"⟩ :=
  fits_word (isIdentifier_of_sanitize (by decide +kernel))

theorem fits_as : Chunk.Fits a ⟨true, .word "as"⟩ :=
  fits_word (isIdentifier_of_sanitize (by decide +kernel))

theorem fits_from : Chunk.Fits a ⟨true, .word "from"⟩ :=
  fits_word (isIdentifier_of_sanitize (by decide +kernel))

theorem Specifier.Fits.chunks {s : Specifier} (h : s.Fits a) : ∀ c ∈ s.chunks, c.Fits a := by
  intro c hc
  rw [Specifier.chunks, List.mem_append, List.mem_cons] at hc
  obtain hc | rfl | hc := hc
  · split at hc
    · rw [List.mem_singleton.mp hc]
      exact fits_type
    · cases hc
  · exact ⟨rfl, h.exported⟩
  · split at hc
    · cases hc
    · simp only [List.mem_cons, List.not_mem_nil, or_false] at hc
      obtain rfl | rfl := hc
      · exact fits_as
      · exact ⟨rfl, h.binding⟩

theorem Clause.Fits.chunks {clause : Clause} (h : clause.Fits a) :
    ∀ c ∈ clause.chunks, c.Fits a := by
  intro c hc
  cases clause with
  | everything b =>
    simp only [Clause.chunks, List.mem_cons, List.not_mem_nil, or_false] at hc
    obtain rfl | rfl | rfl := hc
    · trivial
    · exact fits_as
    · exact ⟨rfl, h.1⟩
  | defaultExport b =>
    rw [List.mem_singleton.mp hc]
    exact ⟨rfl, h.1⟩
  | named ss =>
    rw [Clause.chunks, List.mem_append, List.mem_cons, List.mem_singleton] at hc
    obtain (rfl | hc) | rfl := hc
    · trivial
    · obtain hc | ⟨l, hl, hc⟩ := mem_intercalate hc
      · rw [List.mem_singleton.mp hc]
        trivial
      · obtain ⟨s, hs, rfl⟩ := List.mem_map.mp hl
        exact (h.2 s hs).chunks c hc
    · trivial

theorem Declaration.Fits.chunks {d : Declaration} (h : d.Fits a) : ∀ c ∈ d.chunks, c.Fits a := by
  intro c hc
  rw [Declaration.chunks, List.mem_append, List.mem_append] at hc
  obtain hc | hc | hc := hc
  · split at hc
    · rw [List.mem_singleton.mp hc]
      exact fits_type
    · cases hc
  · exact h.clause.chunks c hc
  · simp only [List.mem_cons, List.not_mem_nil, or_false] at hc
    obtain rfl | rfl | rfl := hc
    · exact fits_from
    · exact h.path
    · trivial

theorem chars_eq_append (d : Declaration) :
    d.chars = "import".toList ++ d.chunks.flatMap Chunk.chars := by
  rw [Declaration.chars, List.flatMap_cons, Chunk.chars, if_neg Bool.false_ne_true,
    List.nil_append, Token.chars]

theorem tokens?_chars {d : Declaration} (h : d.Fits a) :
    tokens? a d.chars = some (.word "import" :: d.chunks.map Chunk.token) := by
  have himport : a.IsName "import" :=
    isName_of_isIdentifier (isIdentifier_of_sanitize (by decide +kernel))
  rw [chars_eq_append, tokens?_word himport (halts_chunks h.chunks), tokens?_chunks h.chunks,
    Option.map_some]

theorem ofTokens?_specifier {s : Specifier} (h : s.Fits a) :
    Specifier.ofTokens? (s.chunks.map Chunk.token) = some s := by
  obtain ⟨exported, binding, typeOnly⟩ := s
  by_cases hsame : exported = binding
  · subst hsame
    cases typeOnly <;> simp [Specifier.chunks, Specifier.ofTokens?, h.bindable]
  · cases typeOnly <;> simp [Specifier.chunks, Specifier.ofTokens?, h.bindable, hsame]

theorem mapM_ofTokens? {ss : List Specifier} (h : ∀ s ∈ ss, s.Fits a) :
    (ss.map fun s => s.chunks.map Chunk.token).mapM Specifier.ofTokens? = some ss := by
  induction ss with
  | nil => rfl
  | cons s ss ih =>
    obtain ⟨hs, hss⟩ := List.forall_mem_cons.mp h
    rw [List.map_cons, List.mapM_cons, ofTokens?_specifier hs, ih hss]
    rfl

theorem exists_word_of_mem {s : Specifier} {token : Token} (h : token ∈ s.chunks.map Chunk.token) :
    ∃ w, token = .word w := by
  obtain ⟨c, hc, rfl⟩ := List.mem_map.mp h
  rw [Specifier.chunks] at hc
  split at hc <;> split at hc <;> simp at hc <;> grind

theorem ofTokens?_clause {clause : Clause} (h : clause.Fits a) (ts : List Token) :
    Clause.ofTokens? (clause.chunks.map Chunk.token ++ ts) = some (clause, ts) := by
  cases clause with
  | everything b => simp [Clause.chunks, Clause.ofTokens?, h.2]
  | defaultExport b => simp [Clause.chunks, Clause.ofTokens?, h.2]
  | named ss =>
    have htokens : (Clause.named ss).chunks.map Chunk.token ++ ts =
        .opening :: ([.comma].intercalate (ss.map fun s => s.chunks.map Chunk.token) ++
          .closing :: ts) := by
      simp [Clause.chunks, map_intercalate, Function.comp_def]
    have hinner : ∀ token ∈ [Token.comma].intercalate (ss.map fun s => s.chunks.map Chunk.token),
        decide (token ≠ .closing) = true := by
      intro token htoken
      obtain htoken | ⟨l, hl, htoken⟩ := mem_intercalate htoken
      · rw [List.mem_singleton.mp htoken]
        rfl
      · obtain ⟨s, -, rfl⟩ := List.mem_map.mp hl
        obtain ⟨w, rfl⟩ := exists_word_of_mem htoken
        rfl
    have hwords : ∀ l ∈ ss.map fun s => s.chunks.map Chunk.token, Token.comma ∉ l := by
      intro l hl hmem
      obtain ⟨s, -, rfl⟩ := List.mem_map.mp hl
      obtain ⟨w, hw⟩ := exists_word_of_mem hmem
      cases hw
    rw [htokens]
    simp only [Clause.ofTokens?]
    rw [List.takeWhile_append_of_pos hinner, List.dropWhile_append_of_pos hinner,
      List.takeWhile_cons_of_neg (by simp), List.append_nil,
      List.splitOn_intercalate Token.comma hwords (by simpa using h.1), mapM_ofTokens? h.2]
    rfl

theorem typeModifier_chunks {d : Declaration} (h : d.Fits a) :
    typeModifier (d.chunks.map Chunk.token) = (d.typeOnly, d.clause.chunks.map Chunk.token ++
      [.word "from", .path d.path, .semicolon]) := by
  obtain ⟨path, typeOnly, clause⟩ := d
  have hclause := h.clause
  cases typeOnly with
  | true =>
    cases clause with
    | everything b => simp [Declaration.chunks, Clause.chunks, typeModifier, modifies]
    | named ss => simp [Declaration.chunks, Clause.chunks, typeModifier, modifies]
    | defaultExport b =>
      by_cases hb : b = "from"
      · simp [Declaration.chunks, Clause.chunks, typeModifier, modifies, hb]
      · simp [Declaration.chunks, Clause.chunks, typeModifier, modifies, hb, hclause.2]
  | false =>
    cases clause with
    | everything b => simp [Declaration.chunks, Clause.chunks, typeModifier]
    | named ss => simp [Declaration.chunks, Clause.chunks, typeModifier]
    | defaultExport b => simp [Declaration.chunks, Clause.chunks, typeModifier, modifies]

theorem read?_chars {d : Declaration} (h : d.Fits a) {text : String} (ht : text.toList = d.chars) :
    Declaration.read? a text = some d := by
  rw [Declaration.read?, ht, tokens?_chars h, Option.bind_some, Declaration.ofTokens?, if_pos rfl,
    typeModifier_chunks h]
  simp only [ofTokens?_clause h.clause]
  simpa [pathOf?] using h.once

end TypedClient.Proofs.ImportSyntax
