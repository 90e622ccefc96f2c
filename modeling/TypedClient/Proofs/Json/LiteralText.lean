import Mathlib.Data.Bool.AllAny
import TypedClient.Proofs.Json.IntegerText
import TypedClient.Proofs.Json.Members
import TypedClient.Proofs.Literal.Reading

namespace TypedClient.Proofs.LiteralText

open TypedClient.Json TypedClient.Literal TypedClient.Text
open TypedClient.Proofs.Numeral TypedClient.Proofs.LiteralGrammar TypedClient.Proofs.LiteralReading
open TypedClient.Proofs.IntegerText TypedClient.Proofs.Members

/-- A control character whose escape in JSON texts is none in literals. -/
def Lost (c : Char) : Prop :=
  c.toNat < 0x20 ∧ c ≠ '\n' ∧ c ≠ '\r' ∧ c ≠ '\t'

instance (c : Char) : Decidable (Lost c) :=
  inferInstanceAs (Decidable (_ ∧ _))

def reread (c : Char) : List Char :=
  if Lost c then (escapeChar c).tail else [c]

theorem escapeChar_of_not_lost {c : Char} (h : ¬ Lost c) :
    (escapeChar c = [c] ∧ c ≠ '"' ∧ c ≠ '\\') ∨ ∃ e, escapeChar c = ['\\', e] ∧ unescape e = c := by
  by_cases hc : c.toNat < 0x20
  · right
    have hknown : c = '\n' ∨ c = '\r' ∨ c = '\t' := by
      rw [Lost] at h
      tauto
    obtain rfl | rfl | rfl := hknown
    · exact ⟨'n', rfl, rfl⟩
    · exact ⟨'r', rfl, rfl⟩
    · exact ⟨'t', rfl, rfl⟩
  · have hne : ∀ d : Char, d.toNat < 0x20 → c ≠ d := by
      rintro d hd rfl
      exact hc hd
    by_cases hquote : c = '"'
    · subst hquote
      exact .inr ⟨'"', rfl, rfl⟩
    by_cases hslash : c = '\\'
    · subst hslash
      exact .inr ⟨'\\', rfl, rfl⟩
    refine .inl ⟨?_, hquote, hslash⟩
    rw [escapeChar, if_neg hquote, if_neg hslash, if_neg (hne _ (by decide)),
      if_neg (hne _ (by decide)), if_neg (hne _ (by decide)), if_neg (hne _ (by decide)),
      if_neg (hne _ (by decide)), if_neg hc]

/-- The escape of a lost character is a backslash and something that is read as it stands. -/
theorem escapeChar_of_lost {c : Char} (h : Lost c) :
    ∃ e rest, escapeChar c = '\\' :: e :: rest ∧ unescape e = e ∧
      ∀ x ∈ rest, x ≠ '"' ∧ x ≠ '\\' := by
  have hall : ∀ n < 0x20, Lost (Char.ofNat n) →
      (escapeChar (Char.ofNat n)).head? = some '\\' ∧
      (escapeChar (Char.ofNat n))[1]?.any (fun e => unescape e = e) = true ∧
      ((escapeChar (Char.ofNat n)).drop 2).all (fun x => x ≠ '"' ∧ x ≠ '\\') = true := by
    decide
  have hc := hall c.toNat h.1
  rw [Char.ofNat_toNat] at hc
  obtain ⟨hslash, hsecond, hrest⟩ := hc h
  obtain ⟨e, he, hunescape⟩ := (Option.any_eq_true _ _).mp hsecond
  rw [decide_eq_true_eq] at hunescape
  rw [List.all_iff_forall_prop] at hrest
  obtain ⟨tail, htail⟩ := List.head?_eq_some_iff.mp hslash
  rw [htail] at he hrest ⊢
  cases tail with
  | nil => cases he
  | cons d rest =>
    obtain rfl : d = e := by simpa using he
    exact ⟨d, rest, rfl, hunescape, hrest⟩

theorem not_lost_of_mem_reread {c d : Char} (hd : d ∈ reread c) : ¬ Lost d := by
  rw [reread] at hd
  split at hd
  · rename_i hc
    have hall : ∀ n < 0x20, (escapeChar (Char.ofNat n)).tail.all (fun d => ¬ Lost d) = true := by
      decide
    have hread := hall c.toNat hc.1
    rw [Char.ofNat_toNat] at hread
    exact List.all_iff_forall_prop.mp hread d hd
  · rename_i hc
    rwa [List.mem_singleton.mp hd]

theorem quoted_escapeChar (c : Char) {cs s : List Char} (h : Quoted '"' cs s) :
    Quoted '"' (escapeChar c ++ cs) (reread c ++ s) := by
  rw [reread]
  by_cases hc : Lost c
  · obtain ⟨e, rest, hescape, he, hrest⟩ := escapeChar_of_lost hc
    have hplain : Quoted '"' (rest ++ cs) (rest ++ s) := by
      clear hescape
      induction rest with
      | nil => exact h
      | cons x rest ih =>
        rw [List.forall_mem_cons] at hrest
        exact .plain hrest.1.1 hrest.1.2 (ih hrest.2)
    have hself : Escape e e := by
      have hescape := escape_unescape e
      rwa [he] at hescape
    rw [if_pos hc, hescape]
    exact .escape hself hplain
  · rw [if_neg hc]
    obtain ⟨hescape, hquote, hslash⟩ | ⟨e, hescape, rfl⟩ := escapeChar_of_not_lost hc
    · rw [hescape]
      exact .plain hquote hslash h
    · rw [hescape]
      exact .escape (escape_unescape e) h

theorem quoted_escapeChars (s : List Char) :
    Quoted '"' (s.flatMap escapeChar) (s.flatMap reread) := by
  induction s with
  | nil => exact .nil
  | cons c s ih => exact quoted_escapeChar c ih

def rereadText (s : String) : String :=
  String.ofList (s.toList.flatMap reread)

mutual

def literal : Json → Literal
  | .null => .null
  | .bool b => .bool b
  | .number n => .number (String.ofList n.text)
  | .string s => .string (rereadText s)
  | .array js => .array (literalItems js)
  | .object ms => .object (literalMembers ms)

def literalItems : List Json → List Literal
  | [] => []
  | j :: js => literal j :: literalItems js

def literalMembers : List (String × Json) → List (String × Literal)
  | [] => []
  | (k, j) :: ms => (rereadText k, literal j) :: literalMembers ms

end

/-- Values whose numbers are integers of at most 64 bits, and whose objects have each key once. -/
inductive Plain : Json → Prop
  | null : Plain .null
  | bool (b : Bool) : Plain (.bool b)
  | int {n : Int} (h : -2 ^ 63 ≤ n ∧ n < 2 ^ 64) : Plain (.number (.int n))
  | string (s : String) : Plain (.string s)
  | array {js : List Json} (h : ∀ j ∈ js, Plain j) : Plain (.array js)
  | object {ms : List (String × Json)} (h : ∀ m ∈ ms, Plain m.2) (hkeys : (ms.map Prod.fst).Nodup) :
      Plain (.object ms)

variable {s : String} {j : Json} {js : List Json} {ms : List (String × Json)}

/-- A text that neither begins nor ends with a blank, nor begins with the end of an array. -/
structure Solid (text : List Char) : Prop where
  head : ∃ c cs, text = c :: cs ∧ isBlank c = false ∧ c ≠ ']'
  last : ∃ cs c, text = cs ++ [c] ∧ isBlank c = false

theorem solid_of_all {text : List Char} (hne : text ≠ [])
    (h : ∀ c ∈ text, isBlank c = false ∧ c ≠ ']') : Solid text := by
  refine ⟨?_, text.dropLast, text.getLast hne, (List.dropLast_concat_getLast hne).symm,
    (h _ (List.getLast_mem hne)).1⟩
  obtain ⟨c, cs, rfl⟩ := List.exists_cons_of_ne_nil hne
  exact ⟨c, cs, rfl, h c List.mem_cons_self⟩

theorem solid_between {a b : Char} (ha : isBlank a = false ∧ a ≠ ']') (hb : isBlank b = false)
    (cs : List Char) : Solid (a :: cs ++ [b]) :=
  ⟨⟨a, cs ++ [b], rfl, ha⟩, a :: cs, b, rfl, hb⟩

theorem solid_compact (h : Plain j) : Solid (compact j) := by
  cases h with
  | null => exact solid_of_all (by decide) (List.all_iff_forall_prop.mp (by decide))
  | bool b => cases b <;> exact solid_of_all (by decide) (List.all_iff_forall_prop.mp (by decide))
  | @int n h =>
    have hdigits := digits_toDigits n.natAbs
    refine solid_of_all ?_ fun c hc => ?_
    · rw [compact, text_int]
      exact List.append_ne_nil_of_right_ne_nil _ hdigits.1
    · rw [compact, text_int, sign, List.mem_append] at hc
      obtain hc | hc := hc
      · split at hc
        · obtain rfl := List.mem_singleton.mp hc
          decide
        · cases hc
      · have hdigit := hdigits.2 c hc
        have hblank := not_isBlank_of_isWordPart (isWordPart_of_isDigit hdigit)
        exact ⟨hblank, ne_of_isDigit hdigit (by decide)⟩
  | string s => exact solid_between (by decide) (by decide) _
  | array h => exact solid_between (by decide) (by decide) _
  | object h => exact solid_between (by decide) (by decide) _

theorem Solid.trim_between {b text e : List Char} (h : Solid text) (hb : Blanks b)
    (he : Blanks e) : trim isBlank (b ++ (text ++ e)) = text := by
  obtain ⟨c, cs, hhead, hc, -⟩ := h.head
  have hstart : trimStart isBlank (b ++ (text ++ e)) = text ++ e := by
    rw [hhead]
    exact (skipBlank_append hb _).trans (skipBlank_cons hc _)
  obtain ⟨ds, d, hlast, hd⟩ := h.last
  have hend : (e.reverse ++ text.reverse).dropWhile isBlank = text.reverse := by
    rw [List.dropWhile_append_of_pos fun x hx => he x (List.mem_reverse.mp hx), hlast,
      List.reverse_concat, List.dropWhile_cons_of_neg (by simpa using hd)]
  rw [Text.trim, hstart, trimEnd, List.reverse_append, hend, List.reverse_reverse]

theorem Solid.trim {text : List Char} (h : Solid text) : trim isBlank text = text := by
  simpa using h.trim_between blanks_nil blanks_nil

theorem separated_compactItems (h : ∀ j ∈ js, Value (compact j) (literal j)) (hne : js ≠ []) :
    Separated Element (compactItems js) (literalItems js) := by
  induction js with
  | nil => exact absurd rfl hne
  | cons j js ih =>
    rw [List.forall_mem_cons] at h
    cases js with
    | nil => exact .one (element_of_value h.1)
    | cons k js => exact .more (element_of_value h.1) (ih h.2 (List.cons_ne_nil k js))

theorem entry_quoted {k : String} (h : Value (compact j) (literal j)) :
    Entry (Json.quoted k ++ ':' :: compact j) (rereadText k, literal j) := by
  have hkey : Key (Json.quoted k) (k.toList.flatMap reread) :=
    .quoted (.inl rfl) (quoted_escapeChars k.toList)
  simpa [rereadText] using Entry.mk blanks_nil hkey blanks_nil (element_of_value h)

theorem separated_compactMembers (h : ∀ m ∈ ms, Value (compact m.2) (literal m.2))
    (hne : ms ≠ []) : Separated Entry (compactMembers ms) (literalMembers ms) := by
  induction ms with
  | nil => exact absurd rfl hne
  | cons m ms ih =>
    obtain ⟨k, j⟩ := m
    rw [List.forall_mem_cons] at h
    have hfirst := entry_quoted (k := k) h.1
    cases ms with
    | nil => exact .one hfirst
    | cons m ms => exact .more hfirst (ih h.2 (List.cons_ne_nil m ms))

theorem value_compact (h : Plain j) : Value (compact j) (literal j) := by
  induction h with
  | null => exact .null
  | bool b => cases b <;> [exact .false; exact .true]
  | @int n h => exact .number (isNumeral_int n)
  | string s => exact .string (.inl rfl) (quoted_escapeChars s.toList)
  | @array js h ih =>
    cases js with
    | nil => exact .array (.none blanks_nil)
    | cons j js => exact .array (.parts (separated_compactItems ih (List.cons_ne_nil j js)))
  | @object ms h hkeys ih =>
    cases ms with
    | nil => exact .object (.none blanks_nil)
    | cons m ms => exact .object (.parts (separated_compactMembers ih (List.cons_ne_nil m ms)))

theorem parse_text (h : Plain j) : Literal.parse j.text = .ok (literal j) := by
  rw [parse_eq_ok_iff, Json.text, String.toList_ofList]
  exact readAll_of_element (element_of_value (value_compact h))

inductive Clean : Json → Prop
  | null : Clean .null
  | bool (b : Bool) : Clean (.bool b)
  | number (n : Number) : Clean (.number n)
  | string {s : String} (h : ∀ c ∈ s.toList, ¬ Lost c) : Clean (.string s)
  | array {js : List Json} (h : ∀ j ∈ js, Clean j) : Clean (.array js)
  | object {ms : List (String × Json)} (hkeys : ∀ m ∈ ms, ∀ c ∈ m.1.toList, ¬ Lost c)
      (h : ∀ m ∈ ms, Clean m.2) : Clean (.object ms)

theorem rereadText_clean (s : String) : ∀ c ∈ (rereadText s).toList, ¬ Lost c := by
  intro c hc
  rw [rereadText, String.toList_ofList] at hc
  obtain ⟨d, -, hd⟩ := List.mem_flatMap.mp hc
  exact not_lost_of_mem_reread hd

theorem rereadText_eq (h : ∀ c ∈ s.toList, ¬ Lost c) : rereadText s = s := by
  have hsame : s.toList.flatMap reread = s.toList.flatMap fun c => [c] :=
    List.flatMap_congr fun c hc => if_neg (h c hc)
  rw [rereadText, hsame, List.flatMap_singleton', String.ofList_toList]

theorem itemsToJson_eq (h : ∀ j ∈ js, (literal j).toJson = j) :
    itemsToJson (literalItems js) = js := by
  induction js with
  | nil => rfl
  | cons j js ih =>
    rw [List.forall_mem_cons] at h
    rw [literalItems, itemsToJson, h.1, ih h.2]

theorem entriesToJson_eq (hkeys : ∀ m ∈ ms, ∀ c ∈ m.1.toList, ¬ Lost c)
    (h : ∀ m ∈ ms, (literal m.2).toJson = m.2) : entriesToJson (literalMembers ms) = ms := by
  induction ms with
  | nil => rfl
  | cons m ms ih =>
    obtain ⟨k, j⟩ := m
    rw [List.forall_mem_cons] at h hkeys
    rw [literalMembers, entriesToJson, h.1, ih hkeys.2 h.2, rereadText_eq hkeys.1]

theorem toJson_literal (h : Plain j) (hclean : Clean j) : (literal j).toJson = j := by
  induction h with
  | null => rfl
  | bool b => rfl
  | int h => rw [literal, toJson, number?_int h]
  | string s =>
    cases hclean with
    | string hs => rw [literal, toJson, rereadText_eq hs]
  | array h ih =>
    cases hclean with
    | array hs => rw [literal, toJson, itemsToJson_eq fun j hj => ih j hj (hs j hj)]
  | object h hkeys ih =>
    cases hclean with
    | object hks hs =>
      have hentries := entriesToJson_eq hks fun m hm => ih m hm (hs m hm)
      rw [literal, toJson, hentries, ofMembers_of_nodup hkeys]

theorem clean_items (h : ∀ j ∈ js, Clean (literal j).toJson) :
    ∀ j ∈ itemsToJson (literalItems js), Clean j := by
  induction js with
  | nil => exact nofun
  | cons j js ih =>
    rw [List.forall_mem_cons] at h
    exact List.forall_mem_cons.mpr ⟨h.1, ih h.2⟩

theorem clean_entries (h : ∀ m ∈ ms, Clean (literal m.2).toJson) :
    ∀ m ∈ entriesToJson (literalMembers ms), (∀ c ∈ m.1.toList, ¬ Lost c) ∧ Clean m.2 := by
  induction ms with
  | nil => exact nofun
  | cons m ms ih =>
    obtain ⟨k, j⟩ := m
    rw [List.forall_mem_cons] at h
    exact List.forall_mem_cons.mpr ⟨⟨rereadText_clean k, h.1⟩, ih h.2⟩

theorem clean_toJson (h : Plain j) : Clean (literal j).toJson := by
  induction h with
  | null => exact .null
  | bool b => exact .bool b
  | int h =>
    rw [literal, toJson, number?_int h]
    exact .number _
  | string s => exact .string (rereadText_clean s)
  | array h ih => exact .array (clean_items ih)
  | object h hkeys ih =>
    have hentries := clean_entries ih
    exact .object (fun m hm => (hentries m (mem_of_mem_ofMembers hm)).1)
      fun m hm => (hentries m (mem_of_mem_ofMembers hm)).2

theorem toJson_literal_iff (h : Plain j) : (literal j).toJson = j ↔ Clean j :=
  ⟨fun hj => hj ▸ clean_toJson h, toJson_literal h⟩

end TypedClient.Proofs.LiteralText
