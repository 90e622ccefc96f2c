import TypedClient.Proofs.Literal.Reading

namespace TypedClient.Proofs.RoundTrip

open TypedClient.Literal TypedClient.Text TypedClient.Proofs.Numeral
open TypedClient.Proofs.LiteralGrammar TypedClient.Proofs.LiteralReading

theorem quoteChar_cases (c : Char) :
    (quoteChar c = [c] ∧ c ≠ '"' ∧ c ≠ '\\') ∨ ∃ e, quoteChar c = ['\\', e] ∧ Escape e c := by
  rw [quoteChar]
  split
  · rename_i hc
    subst hc
    exact .inr ⟨'"', rfl, escape_unescape '"'⟩
  split
  · rename_i hc
    subst hc
    exact .inr ⟨'\\', rfl, escape_unescape '\\'⟩
  split
  · rename_i hc
    exact .inr ⟨'n', rfl, hc ▸ .lineFeed⟩
  split
  · rename_i hc
    exact .inr ⟨'r', rfl, hc ▸ .carriageReturn⟩
  split
  · rename_i hc
    exact .inr ⟨'t', rfl, hc ▸ .tab⟩
  · rename_i hquote hslash _ _ _
    exact .inl ⟨rfl, hquote, hslash⟩

theorem quoted_quoteChar (s : List Char) : Quoted '"' (s.flatMap quoteChar) s := by
  induction s with
  | nil => exact .nil
  | cons c s ih =>
    rw [List.flatMap_cons]
    obtain ⟨hc, hquote, hslash⟩ | ⟨e, hc, he⟩ := quoteChar_cases c
    · rw [hc]
      exact .plain hquote hslash ih
    · rw [hc]
      exact .escape he ih

theorem quotedRest_append (s r : List Char) :
    quotedRest '"' (s.flatMap quoteChar ++ '"' :: r) = .ok (s, r) :=
  quotedRest_of_quoted (.inl rfl) (quoted_quoteChar s) r

theorem key_keyChars (k : List Char) : Key (keyChars k) k := by
  rw [keyChars]
  split
  · rename_i hbare
    exact .bare hbare
  · exact .quoted (.inl rfl) (quoted_quoteChar k)

inductive Written : Literal → Prop
  | null : Written .null
  | bool (b : Bool) : Written (.bool b)
  | number {w : String} (h : IsNumeral w.toList) : Written (.number w)
  | string (s : String) : Written (.string s)
  | array {ls : List Literal} (h : ∀ l ∈ ls, Written l) : Written (.array ls)
  | object {es : List (String × Literal)} (h : ∀ e ∈ es, Written e.2) : Written (.object es)

variable {r : List Char} {l : Literal} {ls : List Literal} {es : List (String × Literal)}

theorem blanks_space : Blanks [' '] :=
  List.forall_mem_singleton.mpr rfl

theorem separated_itemChars (h : ∀ l ∈ ls, Value l.chars l) (hne : ls ≠ []) :
    Separated Element (itemChars ls) ls := by
  induction ls with
  | nil => exact absurd rfl hne
  | cons l ls ih =>
    rw [List.forall_mem_cons] at h
    cases ls with
    | nil => exact .one (element_of_value h.1)
    | cons m ls =>
      have hrest := (ih h.2 (List.cons_ne_nil m ls)).spaced Element.spaced blanks_space blanks_nil
      rw [List.append_nil] at hrest
      exact .more (element_of_value h.1) hrest

theorem entry_keyChars {k : String} (h : Value l.chars l) :
    Entry (keyChars k.toList ++ ':' :: ' ' :: l.chars) (k, l) := by
  have hvalue := (element_of_value h).spaced blanks_space blanks_nil
  have hentry := Entry.mk blanks_nil (key_keyChars k.toList) blanks_nil hvalue
  rw [String.ofList_toList] at hentry
  simpa using hentry

theorem separated_entryChars (h : ∀ e ∈ es, Value e.2.chars e.2) (hne : es ≠ []) :
    Separated Entry (entryChars es) es := by
  induction es with
  | nil => exact absurd rfl hne
  | cons e es ih =>
    obtain ⟨k, l⟩ := e
    rw [List.forall_mem_cons] at h
    have hfirst := entry_keyChars (k := k) h.1
    cases es with
    | nil => exact .one hfirst
    | cons f es =>
      have hrest := (ih h.2 (List.cons_ne_nil f es)).spaced Entry.spaced blanks_space blanks_nil
      rw [List.append_nil] at hrest
      have hmore := Separated.more hfirst hrest
      have hsplit : entryChars ((k, l) :: f :: es) =
          keyChars k.toList ++ ':' :: ' ' :: l.chars ++ ',' :: ' ' :: entryChars (f :: es) := by
        rw [entryChars]
        exact List.cons_ne_nil _ _
      rw [hsplit]
      simpa using hmore

theorem value_chars (h : Written l) : Value l.chars l := by
  induction h with
  | null => exact .null
  | bool b => cases b <;> [exact .false; exact .true]
  | @number w h =>
    have hvalue := Value.number h
    rwa [String.ofList_toList] at hvalue
  | string s =>
    have hvalue := Value.string (.inl rfl) (quoted_quoteChar s.toList)
    rwa [String.ofList_toList] at hvalue
  | @array ls h ih =>
    cases ls with
    | nil => exact .array (.none blanks_nil)
    | cons l ls => exact .array (.parts (separated_itemChars ih (List.cons_ne_nil l ls)))
  | @object es h ih =>
    cases es with
    | nil => exact .object (.none blanks_nil)
    | cons e es =>
      have hentries := (separated_entryChars ih (List.cons_ne_nil e es)).spaced Entry.spaced
        blanks_space blanks_space
      have htext : (Literal.object (e :: es)).chars =
          '{' :: ([' '] ++ entryChars (e :: es) ++ [' ']) ++ ['}'] := by
        simp [chars]
      rw [htext]
      exact .object (.parts hentries)

-- by induction on a bound for the text: the parts of a value have shorter texts
theorem written_of_value {n : Nat} {v : List Char} (h : Value v l) (hlen : v.length ≤ n) :
    Written l := by
  induction n generalizing v l with
  | zero =>
    obtain ⟨c, cs, rfl, -⟩ := begins_value h
    exact absurd hlen (Nat.not_succ_le_zero _)
  | succ n ih =>
    have helement : ∀ {cs l}, Element cs l → cs.length ≤ n → Written l := by
      rintro _ l ⟨hb, hv, hb'⟩ hlen
      simp only [List.length_append] at hlen
      exact ih hv (by omega)
    cases h with
    | null => exact .null
    | true => exact .bool true
    | false => exact .bool false
    | number h => exact .number (by rwa [String.toList_ofList])
    | string hq h => exact .string _
    | array h =>
      rw [List.length_append, List.length_cons, List.length_singleton] at hlen
      refine .array fun l hl => ?_
      obtain ⟨cs, hcs, hle⟩ := h.part l hl
      exact helement hcs (by omega)
    | object h =>
      rw [List.length_append, List.length_cons, List.length_singleton] at hlen
      refine .object fun e he => ?_
      obtain ⟨cs, ⟨hb, hk, hb', hl⟩, hle⟩ := h.part e he
      simp only [List.length_append, List.length_cons] at hle
      exact helement hl (by omega)

theorem parsePrefix_text (h : Written l) {s : String} (hs : Ends s.toList) :
    parsePrefix (l.text ++ s) = .ok (l, l.text.utf8ByteSize) := by
  have htext : (l.text ++ s).toList = l.chars ++ s.toList := by
    rw [String.toList_append, text, String.toList_ofList]
  have hsize : byteSize (l.chars ++ s.toList) - byteSize s.toList = l.text.utf8ByteSize := by
    rw [byteSize_append, Nat.add_sub_cancel, ← byteSize_toList, text, String.toList_ofList]
  rw [parsePrefix, htext, readFront_of_value (value_chars h) hs]
  dsimp only
  rw [hsize]

theorem written_of_parse {s : String} (h : parse s = .ok l) : Written l := by
  have helement := element_of_readAll (parse_eq_ok_iff.mp h)
  generalize s.toList = cs at helement
  obtain ⟨-, hv, -⟩ := helement
  exact written_of_value hv (Nat.le_refl _)

theorem parse_text (h : Written l) : parse l.text = .ok l := by
  rw [parse_eq_ok_iff, text, String.toList_ofList]
  exact readAll_of_element (element_of_value (value_chars h))

/-- A literal is read back from the front of its text, whatever follows that ends words and numbers,
and takes just that text. Hence what was read from any text is read again from its own. -/
theorem text_reads_back :
    (∀ (l : Literal) (s : String), Written l → Ends s.toList →
      parsePrefix (l.text ++ s) = .ok (l, l.text.utf8ByteSize)) ∧
    ∀ (s : String) (l : Literal), parse s = .ok l → parse l.text = .ok l :=
  ⟨fun _ _ hl hs => parsePrefix_text hl hs, fun _ _ h => parse_text (written_of_parse h)⟩

/-- Arguments of a validator: a number, a key that needs quotes, and escapes. -/
def arguments : Literal :=
  .object [("min", .number "-2.5e3"), ("content-type", .array [.string "a\"\\\n", .null])]

theorem arguments_read_back :
    Written arguments ∧ Ends ") x".toList ∧
      arguments.text = "\x7b min: -2.5e3, \"content-type\": [\"a\\\"\\\\\\n\", null] \x7d" ∧
      parsePrefix (arguments.text ++ ") x") = .ok (arguments, arguments.text.utf8ByteSize) ∧
      ∃ l, parse "[01, 'a\\q',]" = .ok l ∧ l.text = "[01, \"aq\"]" ∧ parse l.text = .ok l := by
  have hdigit : ∀ d : Char, d.isDigit = true → Digits [d] := fun d hd =>
    ⟨List.cons_ne_nil d [], by simpa using hd⟩
  have hnumeral : IsNumeral "-2.5e3".toList :=
    .mk (.inr rfl) (hdigit '2' rfl) (.present (hdigit '5' rfl))
      (.present (.inl rfl) (.inl rfl) (hdigit '3' rfl))
  have hlist : Written (.array [.string "a\"\\\n", .null]) :=
    .array (by simpa using ⟨.string _, .null⟩)
  have hwritten : Written arguments := .object (by simpa using ⟨.number hnumeral, hlist⟩)
  have hends : Ends ") x".toList := ends_cons (by decide) (by decide)
  have hmap : (parse "[01, 'a\\q',]").map Literal.text = .ok "[01, \"aq\"]" := by decide +kernel
  obtain ⟨l, hparse, htext⟩ := Outcome.map_eq_ok_iff.mp hmap
  exact ⟨hwritten, hends, by decide, text_reads_back.1 _ _ hwritten hends, l, hparse, htext,
    text_reads_back.2 _ _ hparse⟩

end TypedClient.Proofs.RoundTrip
