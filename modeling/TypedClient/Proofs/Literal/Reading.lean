import TypedClient.Proofs.Literal.Grammar

namespace TypedClient.Proofs.LiteralReading

open TypedClient.Literal TypedClient.Text TypedClient.Proofs.Outcome TypedClient.Proofs.Numeral
open TypedClient.Proofs.LiteralGrammar

section Characters

variable {b cs r w : List Char}

theorem word_append (hw : ∀ c ∈ w, isWordPart c = true) (hr : Ends r) : word (w ++ r) = (w, r) :=
  span_append hw fun c hc => (hr c hc).1

theorem isWordPart_of_isWordStart {c : Char} (h : isWordStart c = true) : isWordPart c = true := by
  rw [isWordPart, h, Bool.true_or]

theorem isWordPart_of_isDigit {c : Char} (h : c.isDigit = true) : isWordPart c = true := by
  rw [isWordPart, h, Bool.or_true]

theorem toNat_of_isWordPart {c : Char} (h : isWordPart c = true) :
    (48 ≤ c.toNat ∧ c.toNat ≤ 57) ∨ (65 ≤ c.toNat ∧ c.toNat ≤ 90) ∨
      (97 ≤ c.toNat ∧ c.toNat ≤ 122) ∨ c = '_' ∨ c = '$' := by
  change ((((decide (65 ≤ c.val ∧ c.val ≤ 90) || (decide (97 ≤ c.val) && decide (c.val ≤ 122))) ||
    decide (c = '_')) || decide (c = '$')) || (decide (48 ≤ c.val) && decide (c.val ≤ 57))) = true
    at h
  simp only [Bool.or_eq_true, Bool.and_eq_true, decide_eq_true_eq, UInt32.le_iff_toNat_le] at h
  change ((((65 ≤ c.toNat ∧ c.toNat ≤ 90) ∨ (97 ≤ c.toNat ∧ c.toNat ≤ 122)) ∨ c = '_') ∨ c = '$') ∨
    (48 ≤ c.toNat ∧ c.toNat ≤ 57) at h
  tauto

theorem not_isBlank_of_isWordPart {c : Char} (h : isWordPart c = true) : isBlank c = false := by
  obtain h | h | h | rfl | rfl := toNat_of_isWordPart h
  all_goals
    simp only [isBlank, inRanges, blankRanges, List.any_cons, List.any_nil, Bool.or_false,
      Bool.or_eq_false_iff, Bool.and_eq_false_iff, decide_eq_false_iff_not]
    first | omega | decide

theorem skipBlank_cons {c : Char} (h : isBlank c = false) (cs : List Char) :
    skipBlank (c :: cs) = c :: cs := by
  rw [skipBlank, List.dropWhile_cons, h, if_neg Bool.false_ne_true]

theorem skipBlank_append (hb : Blanks b) (cs : List Char) : skipBlank (b ++ cs) = skipBlank cs :=
  List.dropWhile_append_of_pos hb

theorem exists_blanks (cs : List Char) : ∃ b, Blanks b ∧ cs = b ++ skipBlank cs :=
  ⟨cs.takeWhile isBlank, fun _ hc => List.mem_takeWhile_imp hc, List.takeWhile_append_dropWhile.symm⟩

theorem ends_append (hb : Blanks b) (hr : Ends r) : Ends (b ++ r) := by
  cases b with
  | nil => exact hr
  | cons c b =>
    have hc : isBlank c = true := hb c List.mem_cons_self
    refine ends_cons ?_ ?_
    · by_contra hword
      rw [not_isBlank_of_isWordPart (by simpa using hword)] at hc
      cases hc
    · rintro rfl
      exact absurd hc (by decide)

end Characters

section Front

/-- How the text of a part begins: not with a blank, nor with a bracket that ends a list or an
object. -/
def Begins (cs : List Char) : Prop :=
  ∃ c rest, cs = c :: rest ∧ isBlank c = false ∧ c ≠ ']' ∧ c ≠ '}'

variable {cs r v w k s : List Char} {l : Literal}

theorem Begins.skipBlank (h : Begins cs) (r : List Char) : skipBlank (cs ++ r) = cs ++ r := by
  obtain ⟨c, rest, rfl, hc, -⟩ := h
  exact skipBlank_cons hc _

theorem Begins.head?_ne (h : Begins cs) (r : List Char) :
    (cs ++ r).head? ≠ some ']' ∧ (cs ++ r).head? ≠ some '}' := by
  obtain ⟨c, rest, rfl, -, hne⟩ := h
  simpa using hne

theorem begins_of_isWordPart {c : Char} (h : isWordPart c = true) : Begins (c :: cs) := by
  refine ⟨c, cs, rfl, not_isBlank_of_isWordPart h, ?_, ?_⟩ <;> rintro rfl <;>
    exact absurd h (by decide)

theorem numeral_head (h : IsNumeral w) :
    ∃ c cs, w = c :: cs ∧ (c = '-' ∨ c.isDigit = true) := by
  obtain ⟨hs, hw, -, -⟩ := h
  obtain ⟨d, ds, rfl, hd⟩ := digit_head hw
  obtain rfl | rfl := hs
  · exact ⟨d, _, rfl, .inr hd⟩
  · exact ⟨'-', _, rfl, .inl rfl⟩

theorem begins_quote {q : Char} (hq : IsQuote q) : Begins (q :: cs) := by
  obtain rfl | rfl := hq <;> exact ⟨_, cs, rfl, by decide⟩

theorem begins_value (h : Value v l) : Begins v := by
  cases h with
  | null => exact ⟨_, _, rfl, by decide⟩
  | true => exact ⟨_, _, rfl, by decide⟩
  | false => exact ⟨_, _, rfl, by decide⟩
  | number h =>
    obtain ⟨c, cs, rfl, rfl | hd⟩ := numeral_head h
    · exact ⟨_, cs, rfl, by decide⟩
    · exact begins_of_isWordPart (isWordPart_of_isDigit hd)
  | string hq h => exact begins_quote hq
  | array h => exact ⟨'[', _, rfl, by decide⟩
  | object h => exact ⟨'{', _, rfl, by decide⟩

theorem begins_key (h : Key k s) : Begins k := by
  cases h with
  | quoted hq h => exact begins_quote hq
  | bare hbare =>
    cases k with
    | nil => cases hbare
    | cons c k =>
      rw [isBareKey, Bool.and_eq_true] at hbare
      exact begins_of_isWordPart (isWordPart_of_isWordStart hbare.1)

end Front

section Steps

variable {n : Nat} {cs t u v w r : List Char} {k : List Char} {l : Literal} {ls : List Literal}
  {es : List (String × Literal)}

theorem value_object (h : skipBlank cs = '{' :: t) (he : entries n t = .ok (es, r)) :
    value (n + 1) cs = .ok (.object es, r) := by
  rw [value, h]
  simp only [if_true, he]
  rfl

theorem value_array (h : skipBlank cs = '[' :: t) (hi : items n t = .ok (ls, r)) :
    value (n + 1) cs = .ok (.array ls, r) := by
  rw [value, h]
  simp only [Char.reduceEq, if_false, if_true, hi]
  rfl

theorem value_quote {q : Char} (hq : IsQuote q) (h : skipBlank cs = q :: t)
    (hs : quotedRest q t = .ok (w, r)) : value (n + 1) cs = .ok (.string (String.ofList w), r) := by
  rw [value, h]
  obtain rfl | rfl := hq <;> simp [hs, Except.map]

theorem value_number (hw : IsNumeral w) (hr : Ends r) (h : skipBlank cs = w ++ r) :
    value (n + 1) cs = .ok (.number (String.ofList w), r) := by
  have hn := numeral_append hw hr
  obtain ⟨c, ds, rfl, hd⟩ := numeral_head hw
  have hne : c ≠ '{' ∧ c ≠ '[' ∧ c ≠ '"' ∧ c ≠ '\'' := by
    obtain rfl | hd := hd
    · decide
    · exact ⟨ne_of_isDigit hd (by decide), ne_of_isDigit hd (by decide),
        ne_of_isDigit hd (by decide), ne_of_isDigit hd (by decide)⟩
  rw [List.cons_append] at h hn
  rw [value, h]
  simp only [hne.1, hne.2.1, hne.2.2.1, hne.2.2.2, if_false, decide_false, Bool.or_self,
    Bool.false_eq_true]
  rw [if_pos (by simpa using hd), hn]
  rfl

theorem value_word {c : Char} (hc : c = 't' ∨ c = 'f' ∨ c = 'n')
    (hw : (c :: w).all isWordPart = true) (hl : ofWord? (c :: w) = some l) (hr : Ends r)
    (h : skipBlank cs = c :: w ++ r) : value (n + 1) cs = .ok (l, r) := by
  have hword := word_append (List.all_eq_true.mp hw) hr
  rw [List.cons_append] at h hword
  have hstart : isWordStart 't' = true ∧ isWordStart 'f' = true ∧ isWordStart 'n' = true :=
    ⟨rfl, rfl, rfl⟩
  rw [value, h]
  obtain rfl | rfl | rfl := hc <;> simp [hword, hl, hstart]

theorem items_nil (h : skipBlank cs = ']' :: r) : items (n + 1) cs = .ok ([], r) := by
  rw [items, h]
  rfl

theorem items_last (h : skipBlank cs = t) (hne : t.head? ≠ some ']') (hv : value n t = .ok (l, u))
    (hu : skipBlank u = ']' :: r) : items (n + 1) cs = .ok ([l], r) := by
  rw [items, h]
  split
  · exact absurd rfl hne
  · simp only [hv, bind, Except.bind, hu]

theorem items_cons (h : skipBlank cs = t) (hne : t.head? ≠ some ']') (hv : value n t = .ok (l, u))
    (hu : skipBlank u = ',' :: w) (hi : items n w = .ok (ls, r)) :
    items (n + 1) cs = .ok (l :: ls, r) := by
  rw [items, h]
  split
  · exact absurd rfl hne
  · simp only [hv, bind, Except.bind, hu, hi]

theorem entries_nil (h : skipBlank cs = '}' :: r) : entries (n + 1) cs = .ok ([], r) := by
  rw [entries, h]
  rfl

theorem entries_last (h : skipBlank cs = t) (hne : t.head? ≠ some '}') (hk : key t = .ok (k, v))
    (hcolon : skipBlank v = ':' :: u) (hv : value n u = .ok (l, w)) (hw : skipBlank w = '}' :: r) :
    entries (n + 1) cs = .ok ([(String.ofList k, l)], r) := by
  rw [entries, h]
  split
  · exact absurd rfl hne
  · simp only [hk, bind, Except.bind, hcolon, hv, hw]

theorem entries_cons {x : List Char} (h : skipBlank cs = t) (hne : t.head? ≠ some '}')
    (hk : key t = .ok (k, v)) (hcolon : skipBlank v = ':' :: u) (hv : value n u = .ok (l, w))
    (hw : skipBlank w = ',' :: x) (he : entries n x = .ok (es, r)) :
    entries (n + 1) cs = .ok ((String.ofList k, l) :: es, r) := by
  rw [entries, h]
  split
  · exact absurd rfl hne
  · simp only [hk, bind, Except.bind, hcolon, hv, hw, he]

end Steps

section Completeness

variable {n : Nat} {cs t v r k s : List Char} {l : Literal} {ls : List Literal}
  {es : List (String × Literal)} {q : Char}

theorem unescape_eq {e c : Char} (h : Escape e c) : unescape e = c := by
  cases h with
  | lineFeed => rfl
  | tab => rfl
  | carriageReturn => rfl
  | itself hn ht hr => rw [unescape, if_neg hn, if_neg ht, if_neg hr]

theorem quotedRest_of_quoted (hq : IsQuote q) (h : Quoted q cs s) (r : List Char) :
    quotedRest q (cs ++ q :: r) = .ok (s, r) := by
  have hslash : '\\' ≠ q := by
    obtain rfl | rfl := hq <;> decide
  induction h with
  | nil =>
    rw [List.nil_append, quotedRest.eq_def]
    simp only [if_true]
  | plain hquote hne h ih =>
    rw [List.cons_append, quotedRest.eq_def]
    simp only [hquote, hne, if_false, ih, Except.map]
  | escape he h ih =>
    rw [List.cons_append, List.cons_append, quotedRest.eq_def]
    simp only [hslash, if_false, if_true, ih, Except.map, unescape_eq he]

theorem key_of_key (h : Key k s) (hr : Ends r) : key (k ++ r) = .ok (s, r) := by
  cases h with
  | @quoted q cs _ hq h =>
    have hread := quotedRest_of_quoted hq h r
    rw [List.append_assoc, List.cons_append, List.singleton_append, key]
    obtain rfl | rfl := hq <;> simpa using hread
  | bare hbare =>
    cases k with
    | nil => cases hbare
    | cons c k =>
      rw [isBareKey, Bool.and_eq_true, List.all_eq_true] at hbare
      have hw : ∀ x ∈ c :: k, isWordPart x = true :=
        List.forall_mem_cons.mpr ⟨isWordPart_of_isWordStart hbare.1, hbare.2⟩
      have hquote : ¬ (c = '"' ∨ c = '\'') := by
        rintro (rfl | rfl) <;> exact absurd hbare.1 (by decide)
      rw [List.cons_append, key, if_neg (by simpa using hquote), if_pos hbare.1,
        ← List.cons_append, word_append hw hr]

/-- With `n` steps the values, the lists and the objects of the grammar are read that are no longer
than that. -/
structure Accepts (n : Nat) : Prop where
  value : ∀ {t v r l}, Value v l → v.length ≤ n → Ends r → skipBlank t = v ++ r →
    value n t = .ok (l, r)
  items : ∀ {cs ls} (r), Listed Element cs ls → cs.length < n →
    items n (cs ++ ']' :: r) = .ok (ls, r)
  entries : ∀ {cs es} (r), Listed Entry cs es → cs.length < n →
    entries n (cs ++ '}' :: r) = .ok (es, r)

theorem element_of_accepts (hn : Accepts n) (h : Element cs l) (hlen : cs.length ≤ n)
    (hr : Ends r) :
    ∃ t u, skipBlank (cs ++ r) = t ∧ t.head? ≠ some ']' ∧ value n t = .ok (l, u) ∧
      value n (cs ++ r) = .ok (l, u) ∧ skipBlank u = skipBlank r := by
  obtain @⟨b, v, b', _, hb, hv, hb'⟩ := h
  have hbegins := begins_value hv
  have hskip : skipBlank (b ++ v ++ b' ++ r) = v ++ (b' ++ r) := by
    rw [List.append_assoc, List.append_assoc, skipBlank_append hb, hbegins.skipBlank]
  have hvlen : v.length ≤ n := by
    simp only [List.length_append] at hlen
    omega
  refine ⟨v ++ (b' ++ r), b' ++ r, hskip, (hbegins.head?_ne _).1, ?_, ?_, skipBlank_append hb' r⟩
  · exact hn.value hv hvlen (ends_append hb' hr) (hbegins.skipBlank _)
  · exact hn.value hv hvlen (ends_append hb' hr) hskip

theorem entry_of_accepts (hn : Accepts n) {e : String × Literal} (h : Entry cs e)
    (hlen : cs.length ≤ n) (hr : Ends r) :
    ∃ t s v w u, skipBlank (cs ++ r) = t ∧ t.head? ≠ some '}' ∧ key t = .ok (s, v) ∧
      skipBlank v = ':' :: w ∧ value n w = .ok (e.2, u) ∧ skipBlank u = skipBlank r ∧
      e.1 = String.ofList s := by
  obtain @⟨b, k, b', ds, s, l, hb, hk, hb', hl⟩ := h
  have hbegins := begins_key hk
  have hcolon : Ends (b' ++ ':' :: (ds ++ r)) :=
    ends_append hb' (ends_cons (by decide) (by decide))
  have hskip : skipBlank (b ++ k ++ b' ++ ':' :: ds ++ r) = k ++ (b' ++ ':' :: (ds ++ r)) := by
    simp only [List.append_assoc, List.cons_append, skipBlank_append hb, hbegins.skipBlank]
  simp only [List.length_append, List.length_cons] at hlen
  obtain ⟨-, u, -, -, -, hv, hu⟩ := element_of_accepts hn hl (by omega) hr
  exact ⟨_, s, _, ds ++ r, u, hskip, (hbegins.head?_ne _).2, key_of_key hk hcolon,
    skipBlank_append hb' _, hv, hu, rfl⟩

theorem value_of_accepts (hn : Accepts n) (h : Value v l) (hlen : v.length ≤ n + 1) (hr : Ends r)
    (ht : skipBlank t = v ++ r) : value (n + 1) t = .ok (l, r) := by
  cases h with
  | null => exact value_word (.inr (.inr rfl)) rfl rfl hr ht
  | true => exact value_word (.inl rfl) rfl rfl hr ht
  | false => exact value_word (.inr (.inl rfl)) rfl rfl hr ht
  | number h => exact value_number h hr ht
  | string hq h =>
    rw [List.append_assoc, List.cons_append, List.singleton_append] at ht
    exact value_quote hq ht (quotedRest_of_quoted hq h r)
  | array h =>
    rw [List.append_assoc, List.cons_append, List.singleton_append] at ht
    rw [List.length_append, List.length_cons, List.length_singleton] at hlen
    exact value_array ht (hn.items r h (by omega))
  | object h =>
    rw [List.append_assoc, List.cons_append, List.singleton_append] at ht
    rw [List.length_append, List.length_cons, List.length_singleton] at hlen
    exact value_object ht (hn.entries r h (by omega))

theorem items_of_accepts (hn : Accepts n) (h : Listed Element cs ls) (hlen : cs.length < n + 1) :
    items (n + 1) (cs ++ ']' :: r) = .ok (ls, r) := by
  obtain ⟨hb, rfl⟩ | ⟨l, hl, rfl⟩ | ⟨ds, fs, l, ls', hl, hs, rfl, rfl⟩ := h.front
  · exact items_nil (skipBlank_append hb _)
  · obtain ⟨t, u, ht, hne, hv, -, hu⟩ := element_of_accepts hn hl (r := ']' :: r) (by omega)
      (ends_cons (by decide) (by decide))
    exact items_last ht hne hv hu
  · rw [List.length_append, List.length_cons] at hlen
    rw [List.append_assoc, List.cons_append]
    obtain ⟨t, u, ht, hne, hv, -, hu⟩ := element_of_accepts hn hl
      (r := ',' :: (fs ++ ']' :: r)) (by omega) (ends_cons (by decide) (by decide))
    exact items_cons ht hne hv hu (hn.items r hs (by omega))

theorem entries_of_accepts (hn : Accepts n) (h : Listed Entry cs es) (hlen : cs.length < n + 1) :
    entries (n + 1) (cs ++ '}' :: r) = .ok (es, r) := by
  obtain ⟨hb, rfl⟩ | ⟨⟨k, l⟩, he, rfl⟩ | ⟨ds, fs, ⟨k, l⟩, es', he, hs, rfl, rfl⟩ := h.front
  · exact entries_nil (skipBlank_append hb _)
  · obtain ⟨t, s, v, w, u, ht, hne, hk, hcolon, hv, hu, rfl⟩ := entry_of_accepts hn he
      (r := '}' :: r) (by omega) (ends_cons (by decide) (by decide))
    exact entries_last ht hne hk hcolon hv hu
  · rw [List.length_append, List.length_cons] at hlen
    rw [List.append_assoc, List.cons_append]
    obtain ⟨t, s, v, w, u, ht, hne, hk, hcolon, hv, hu, rfl⟩ := entry_of_accepts hn he
      (r := ',' :: (fs ++ '}' :: r)) (by omega) (ends_cons (by decide) (by decide))
    exact entries_cons ht hne hk hcolon hv hu (hn.entries r hs (by omega))

theorem accepts (n : Nat) : Accepts n := by
  induction n with
  | zero =>
    refine ⟨fun h hlen => ?_, fun _ _ hlen => absurd hlen (Nat.not_lt_zero _),
      fun _ _ hlen => absurd hlen (Nat.not_lt_zero _)⟩
    obtain ⟨c, cs, rfl, -⟩ := begins_value h
    exact absurd hlen (Nat.not_succ_le_zero _)
  | succ n ih =>
    exact ⟨value_of_accepts ih, fun _ => items_of_accepts ih, fun _ => entries_of_accepts ih⟩

end Completeness

section Soundness

variable {n : Nat} {cs r k s w : List Char} {l : Literal} {ls : List Literal}
  {es : List (String × Literal)} {q : Char}

theorem escape_unescape (e : Char) : Escape e (unescape e) := by
  rw [unescape]
  by_cases hn : e = 'n'
  · rw [if_pos hn, hn]
    exact .lineFeed
  by_cases ht : e = 't'
  · rw [if_neg hn, if_pos ht, ht]
    exact .tab
  by_cases hr : e = 'r'
  · rw [if_neg hn, if_neg ht, if_pos hr, hr]
    exact .carriageReturn
  · rw [if_neg hn, if_neg ht, if_neg hr]
    exact .itself hn ht hr

theorem quoted_of_ok (h : quotedRest q cs = .ok (s, r)) :
    ∃ t, cs = t ++ q :: r ∧ Quoted q t s := by
  fun_induction quotedRest q cs generalizing s with
  | case1 => cases h
  | case2 cs =>
    obtain ⟨rfl, rfl⟩ := Prod.mk.inj (Except.ok.inj h)
    exact ⟨[], rfl, .nil⟩
  | case3 => cases h
  | case4 e cs hq ih =>
    obtain ⟨⟨s, r⟩, hs, hr⟩ := map_eq_ok_iff.mp h
    obtain ⟨rfl, rfl⟩ := Prod.mk.inj hr
    obtain ⟨t, rfl, ht⟩ := ih hs
    exact ⟨'\\' :: e :: t, rfl, .escape (escape_unescape e) ht⟩
  | case5 c cs hquote hslash ih =>
    obtain ⟨⟨s, r⟩, hs, hr⟩ := map_eq_ok_iff.mp h
    obtain ⟨rfl, rfl⟩ := Prod.mk.inj hr
    obtain ⟨t, rfl, ht⟩ := ih hs
    exact ⟨c :: t, rfl, .plain hquote hslash ht⟩

theorem word_cases (cs : List Char) :
    cs = (word cs).1 ++ (word cs).2 ∧ ∀ c ∈ (word cs).1, isWordPart c = true := by
  rw [word]
  rw [List.span_eq_takeWhile_dropWhile]
  exact ⟨List.takeWhile_append_dropWhile.symm, fun _ hc => List.mem_takeWhile_imp hc⟩

theorem key_of_ok (h : key cs = .ok (s, r)) : ∃ k, cs = k ++ r ∧ Key k s := by
  cases cs with
  | nil => cases h
  | cons c cs =>
    rw [key] at h
    by_cases hq : IsQuote c
    · rw [if_pos (by simpa [IsQuote] using hq)] at h
      obtain ⟨t, rfl, ht⟩ := quoted_of_ok h
      exact ⟨c :: t ++ [c], by simp, .quoted hq ht⟩
    rw [if_neg (by simpa [IsQuote] using hq)] at h
    split at h
    · rename_i hstart
      obtain ⟨hcs, hparts⟩ := word_cases (c :: cs)
      rw [Except.ok.inj h] at hcs hparts
      refine ⟨s, hcs, .bare ?_⟩
      -- the first character of the word is the one that begins it
      have hword : (word (c :: cs)).1 = c :: (word cs).1 := by
        rw [word, word]
        rw [List.span_eq_takeWhile_dropWhile, List.span_eq_takeWhile_dropWhile]
        exact List.takeWhile_cons_of_pos (isWordPart_of_isWordStart hstart)
      rw [Except.ok.inj h] at hword
      obtain rfl := hword
      rw [isBareKey, hstart, Bool.true_and, List.all_eq_true]
      exact (List.forall_mem_cons.mp hparts).2
    · cases h

theorem value_of_ofWord? (h : ofWord? w = some l) : Value w l := by
  rw [ofWord?] at h
  split at h
  · rename_i hw
    obtain rfl := Option.some.inj h
    exact hw ▸ .true
  split at h
  · rename_i hw
    obtain rfl := Option.some.inj h
    exact hw ▸ .false
  split at h
  · rename_i hw
    obtain rfl := Option.some.inj h
    exact hw ▸ .null
  · cases h

/-- What is read with `n` steps is derived in the grammar from the text that is taken for it. -/
structure Derives (n : Nat) : Prop where
  value : ∀ {cs l r}, value n cs = .ok (l, r) → ∃ b v, cs = b ++ v ++ r ∧ Blanks b ∧ Value v l
  items : ∀ {cs ls r}, items n cs = .ok (ls, r) → ∃ t, cs = t ++ ']' :: r ∧ Listed Element t ls
  entries : ∀ {cs es r}, entries n cs = .ok (es, r) → ∃ t, cs = t ++ '}' :: r ∧ Listed Entry t es

theorem value_of_derives (hn : Derives n) (h : value (n + 1) cs = .ok (l, r)) :
    ∃ b v, cs = b ++ v ++ r ∧ Blanks b ∧ Value v l := by
  obtain ⟨b, hb, hcs⟩ := exists_blanks cs
  rw [value] at h
  generalize skipBlank cs = t at h hcs
  subst hcs
  refine ⟨b, ?_⟩
  have hfront : ∀ v, t = v ++ r → b ++ t = b ++ v ++ r := fun v hv => by
    rw [hv, List.append_assoc]
  cases t with
  | nil => cases h
  | cons c t =>
    dsimp only at h
    by_cases hobject : c = '{'
    · rw [if_pos hobject] at h
      obtain ⟨⟨es, r⟩, he, hr⟩ := map_eq_ok_iff.mp h
      obtain ⟨rfl, rfl⟩ := Prod.mk.inj hr
      obtain ⟨t, rfl, ht⟩ := hn.entries he
      exact ⟨c :: t ++ ['}'], hfront _ (by simp), hb, hobject ▸ .object ht⟩
    rw [if_neg hobject] at h
    by_cases harray : c = '['
    · rw [if_pos harray] at h
      obtain ⟨⟨ls, r⟩, hi, hr⟩ := map_eq_ok_iff.mp h
      obtain ⟨rfl, rfl⟩ := Prod.mk.inj hr
      obtain ⟨t, rfl, ht⟩ := hn.items hi
      exact ⟨c :: t ++ [']'], hfront _ (by simp), hb, harray ▸ .array ht⟩
    rw [if_neg harray] at h
    by_cases hquote : IsQuote c
    · rw [if_pos (by simpa [IsQuote] using hquote)] at h
      obtain ⟨⟨s, r⟩, hs, hr⟩ := map_eq_ok_iff.mp h
      obtain ⟨rfl, rfl⟩ := Prod.mk.inj hr
      obtain ⟨t, rfl, ht⟩ := quoted_of_ok hs
      exact ⟨c :: t ++ [c], hfront _ (by simp), hb, .string hquote ht⟩
    rw [if_neg (by simpa [IsQuote] using hquote)] at h
    split at h
    · obtain ⟨⟨w, r⟩, hw, hr⟩ := map_eq_ok_iff.mp h
      obtain ⟨rfl, rfl⟩ := Prod.mk.inj hr
      obtain ⟨hcs, hnumeral⟩ := numeral_of_ok hw
      exact ⟨w, hfront _ hcs, hb, .number hnumeral⟩
    split at h
    · have hcs := (word_cases (c :: t)).1
      generalize word (c :: t) = p at h hcs
      obtain ⟨w, rest⟩ := p
      dsimp only at h
      split at h
      · rename_i hw
        obtain ⟨rfl, rfl⟩ := Prod.mk.inj (Except.ok.inj h)
        exact ⟨w, hfront _ hcs, hb, value_of_ofWord? hw⟩
      · cases h
    · cases h

theorem items_of_derives (hn : Derives n) (h : items (n + 1) cs = .ok (ls, r)) :
    ∃ t, cs = t ++ ']' :: r ∧ Listed Element t ls := by
  obtain ⟨b, hb, hcs⟩ := exists_blanks cs
  rw [items] at h
  generalize skipBlank cs = t at h hcs
  subst hcs
  split at h
  · obtain ⟨rfl, rfl⟩ := Prod.mk.inj (Except.ok.inj h)
    exact ⟨b, rfl, .none hb⟩
  · obtain ⟨⟨l, u⟩, hv, hrest⟩ := bind_eq_ok_iff.mp h
    clear h
    obtain ⟨b₁, v, rfl, hb₁, hv⟩ := hn.value hv
    obtain ⟨b₂, hb₂, hu⟩ := exists_blanks u
    have hl : Element (b ++ b₁ ++ v ++ b₂) l := .mk (hb.append hb₁) hv hb₂
    dsimp only at hrest
    generalize skipBlank u = t at hrest hu
    subst hu
    -- behind the element stands another one, or the end
    split at hrest
    · obtain ⟨⟨ls, r⟩, hi, h⟩ := bind_eq_ok_iff.mp hrest
      obtain ⟨rfl, rfl⟩ := Prod.mk.inj (Except.ok.inj h)
      obtain ⟨t, rfl, ht⟩ := hn.items hi
      exact ⟨_, by simp, .cons hl ht⟩
    · obtain ⟨rfl, rfl⟩ := Prod.mk.inj (Except.ok.inj hrest)
      exact ⟨_, by simp, .parts (.one hl)⟩
    · cases hrest

theorem entries_of_derives (hn : Derives n) (h : entries (n + 1) cs = .ok (es, r)) :
    ∃ t, cs = t ++ '}' :: r ∧ Listed Entry t es := by
  obtain ⟨b, hb, hcs⟩ := exists_blanks cs
  rw [entries] at h
  generalize skipBlank cs = t at h hcs
  subst hcs
  split at h
  · obtain ⟨rfl, rfl⟩ := Prod.mk.inj (Except.ok.inj h)
    exact ⟨b, rfl, .none hb⟩
  · obtain ⟨⟨s, u⟩, hk, hcolon⟩ := bind_eq_ok_iff.mp h
    clear h
    obtain ⟨k, rfl, hkey⟩ := key_of_ok hk
    obtain ⟨b₁, hb₁, hu⟩ := exists_blanks u
    dsimp only at hcolon
    generalize skipBlank u = t at hcolon hu
    subst hu
    split at hcolon
    · obtain ⟨⟨l, u⟩, hv, hrest⟩ := bind_eq_ok_iff.mp hcolon
      clear hcolon
      obtain ⟨b₂, v, rfl, hb₂, hv⟩ := hn.value hv
      obtain ⟨b₃, hb₃, hu⟩ := exists_blanks u
      have he : Entry (b ++ k ++ b₁ ++ ':' :: (b₂ ++ v ++ b₃)) (String.ofList s, l) :=
        .mk hb hkey hb₁ (.mk hb₂ hv hb₃)
      dsimp only at hrest
      generalize skipBlank u = t at hrest hu
      subst hu
      split at hrest
      · obtain ⟨⟨es, r⟩, hi, h⟩ := bind_eq_ok_iff.mp hrest
        obtain ⟨rfl, rfl⟩ := Prod.mk.inj (Except.ok.inj h)
        obtain ⟨t, rfl, ht⟩ := hn.entries hi
        exact ⟨_, by simp, .cons he ht⟩
      · obtain ⟨rfl, rfl⟩ := Prod.mk.inj (Except.ok.inj hrest)
        exact ⟨_, by simp, .parts (.one he)⟩
      · cases hrest
    · cases hcolon

theorem derives (n : Nat) : Derives n := by
  induction n with
  | zero => exact ⟨nofun, nofun, nofun⟩
  | succ n ih => exact ⟨value_of_derives ih, items_of_derives ih, entries_of_derives ih⟩

end Soundness

section Texts

variable {v r : List Char} {l : Literal}

theorem readFront_of_value (h : Value v l) (hr : Ends r) : readFront (v ++ r) = .ok (l, r) := by
  refine (accepts _).value h ?_ hr ((begins_value h).skipBlank r)
  rw [List.length_append]
  omega

theorem readAll_of_element {cs : List Char} (h : Element cs l) : readAll cs = .ok l := by
  obtain ⟨-, u, -, -, -, hv, hu⟩ := element_of_accepts (accepts (2 * cs.length + 2)) h
    (r := []) (by omega) ends_nil
  have hnil : skipBlank u = [] := hu
  rw [List.append_nil] at hv
  rw [readAll, readFront, hv]
  simp only [bind, Except.bind, hnil]

theorem element_of_readAll {cs : List Char} (h : readAll cs = .ok l) : Element cs l := by
  obtain ⟨⟨l, r⟩, hv, hend⟩ := bind_eq_ok_iff.mp h
  clear h
  obtain ⟨b, v, rfl, hb, hvalue⟩ := (derives _).value hv
  obtain ⟨b', hb', hr⟩ := exists_blanks r
  dsimp only at hend
  generalize skipBlank r = t at hend hr
  subst hr
  split at hend
  · obtain rfl := Except.ok.inj hend
    rw [List.append_nil]
    exact .mk hb hvalue hb'
  · cases hend

theorem parse_eq_ok_iff {s : String} : parse s = .ok l ↔ readAll s.toList = .ok l := by
  rw [parse]
  cases readAll s.toList <;> simp [Except.mapError]

/-- The texts that are literals are those of the grammar: a value with blanks around it. Each is the
literal that its derivation means. -/
theorem parse_iff_element (s : String) (l : Literal) : parse s = .ok l ↔ Element s.toList l := by
  rw [parse_eq_ok_iff]
  exact ⟨element_of_readAll, readAll_of_element⟩

end Texts

end TypedClient.Proofs.LiteralReading
