import Mathlib.Data.List.TakeDrop
import Mathlib.Data.List.TakeWhile
import TypedClient.Literal.Reader
import TypedClient.Proofs.Outcome

namespace TypedClient.Proofs.Numeral

open TypedClient.Literal TypedClient.Proofs.Outcome

def Digits (ds : List Char) : Prop :=
  ds ≠ [] ∧ ∀ c ∈ ds, c.isDigit = true

inductive Fraction : List Char → Prop
  | absent : Fraction []
  | present {ds : List Char} (h : Digits ds) : Fraction ('.' :: ds)

inductive Exponent : List Char → Prop
  | absent : Exponent []
  | present {e : Char} {sign ds : List Char} (he : e = 'e' ∨ e = 'E')
      (hs : sign = [] ∨ sign = ['+'] ∨ sign = ['-']) (h : Digits ds) : Exponent (e :: sign ++ ds)

/-- A number as it is written: digits, perhaps with a minus sign, a fraction and an exponent. -/
inductive IsNumeral : List Char → Prop
  | mk {sign whole frac exp : List Char} (hs : sign = [] ∨ sign = ['-']) (hw : Digits whole)
      (hf : Fraction frac) (he : Exponent exp) : IsNumeral (sign ++ whole ++ frac ++ exp)

/-- What ends a word or a number: nothing more, or a character that is part of neither. -/
def Ends (r : List Char) : Prop :=
  ∀ c ∈ r.head?, isWordPart c = false ∧ c ≠ '.'

theorem ends_nil : Ends [] := by
  intro c hc
  cases hc

theorem ends_cons {c : Char} {r : List Char} (hw : isWordPart c = false) (hd : c ≠ '.') :
    Ends (c :: r) := by
  intro x hx
  obtain rfl : c = x := by simpa using hx
  exact ⟨hw, hd⟩

theorem span_append {p : Char → Bool} {as bs : List Char} (ha : ∀ c ∈ as, p c = true)
    (hb : ∀ c ∈ bs.head?, p c = false) : (as ++ bs).span p = (as, bs) := by
  have htake : bs.takeWhile p = [] := by
    cases bs with
    | nil => rfl
    | cons b bs => simp [hb b rfl]
  have hdrop : bs.dropWhile p = bs := by
    cases bs with
    | nil => rfl
    | cons b bs => simp [hb b rfl]
  rw [List.span_eq_takeWhile_dropWhile, List.takeWhile_append_of_pos ha,
    List.dropWhile_append_of_pos ha, htake, hdrop, List.append_nil]

theorem not_isDigit_of_not_isWordPart {c : Char} (h : isWordPart c = false) :
    c.isDigit = false := by
  rw [isWordPart, Bool.or_eq_false_iff] at h
  exact h.2

theorem digits_append {f : Fault} {ds r : List Char} (hd : Digits ds)
    (hr : ∀ c ∈ r.head?, c.isDigit = false) : digits f (ds ++ r) = .ok (ds, r) := by
  have hspan := span_append (p := Char.isDigit) hd.2 hr
  have hne := hd.1
  rw [digits]
  rw [hspan]
  cases ds with
  | nil => exact absurd rfl hne
  | cons d ds => rfl

theorem digits_of_ok {f : Fault} {cs ds rest : List Char} (h : digits f cs = .ok (ds, rest)) :
    cs = ds ++ rest ∧ Digits ds := by
  rw [digits] at h
  rw [List.span_eq_takeWhile_dropWhile] at h
  split at h
  · cases h
  · rename_i hne
    obtain ⟨rfl, rfl⟩ := Prod.mk.inj (Except.ok.inj h)
    exact ⟨List.takeWhile_append_dropWhile.symm, fun he => hne _ (Prod.ext he rfl),
      fun c hc => List.mem_takeWhile_imp hc⟩

theorem digit_head {ds : List Char} (h : Digits ds) :
    ∃ d rest, ds = d :: rest ∧ d.isDigit = true := by
  obtain ⟨d, rest, rfl⟩ := List.exists_cons_of_ne_nil h.1
  exact ⟨d, rest, rfl, h.2 d List.mem_cons_self⟩

theorem ne_of_isDigit {c d : Char} (h : c.isDigit = true) (hd : d.isDigit = false) : c ≠ d := by
  rintro rfl
  rw [h] at hd
  cases hd

theorem minus_append {sign cs : List Char} (hs : sign = [] ∨ sign = ['-'])
    (hc : ∀ c ∈ cs.head?, c ≠ '-') : minus (sign ++ cs) = (sign, cs) := by
  obtain rfl | rfl := hs
  · cases cs with
    | nil => rfl
    | cons c cs =>
      have hne : c ≠ '-' := hc c rfl
      unfold minus
      split
      · rename_i heq
        exact absurd (List.cons.inj heq).1 hne
      · rfl
  · rfl

theorem minus_cases (cs : List Char) :
    cs = (minus cs).1 ++ (minus cs).2 ∧ ((minus cs).1 = [] ∨ (minus cs).1 = ['-']) := by
  unfold minus
  split
  · exact ⟨rfl, .inr rfl⟩
  · exact ⟨rfl, .inl rfl⟩

theorem exponentSign_append {sign cs : List Char}
    (hs : sign = [] ∨ sign = ['+'] ∨ sign = ['-']) (hc : ∀ c ∈ cs.head?, c ≠ '+' ∧ c ≠ '-') :
    exponentSign (sign ++ cs) = (sign, cs) := by
  have hplus : ∀ c ∈ cs.head?, c ≠ '-' := fun c hcs => (hc c hcs).2
  obtain rfl | rfl | rfl := hs
  · unfold exponentSign
    split
    · rename_i heq
      have hne := (hc '+' (by rw [List.nil_append] at heq; rw [heq]; rfl)).1
      exact absurd rfl hne
    · exact minus_append (.inl rfl) hplus
  · rfl
  · exact minus_append (.inr rfl) hplus

theorem exponentSign_cases (cs : List Char) :
    cs = (exponentSign cs).1 ++ (exponentSign cs).2 ∧
      ((exponentSign cs).1 = [] ∨ (exponentSign cs).1 = ['+'] ∨ (exponentSign cs).1 = ['-']) := by
  unfold exponentSign
  split
  · exact ⟨rfl, .inr (.inl rfl)⟩
  · obtain ⟨hcs, h⟩ := minus_cases cs
    exact ⟨hcs, h.imp_right .inr⟩

theorem fraction_append {frac r : List Char} (hf : Fraction frac)
    (hr : ∀ c ∈ r.head?, c.isDigit = false ∧ c ≠ '.') : fraction (frac ++ r) = .ok (frac, r) := by
  cases hf with
  | absent =>
    rw [List.nil_append]
    unfold fraction
    split
    · exact absurd rfl (hr '.' rfl).2
    · rfl
  | present h =>
    have hd := digits_append (f := .fractionExpected) h fun c hc => (hr c hc).1
    rw [List.cons_append, fraction, hd]
    rfl

theorem fraction_of_ok {cs frac rest : List Char} (h : fraction cs = .ok (frac, rest)) :
    cs = frac ++ rest ∧ Fraction frac := by
  unfold fraction at h
  split at h
  · obtain ⟨r, hd, hr⟩ := map_eq_ok_iff.mp h
    obtain ⟨rfl, rfl⟩ := Prod.mk.inj hr
    obtain ⟨rfl, hdigits⟩ := digits_of_ok hd
    exact ⟨rfl, .present hdigits⟩
  · obtain ⟨rfl, rfl⟩ := Prod.mk.inj (Except.ok.inj h)
    exact ⟨rfl, .absent⟩

theorem exponent_append {exp r : List Char} (he : Exponent exp) (hr : Ends r) :
    exponent (exp ++ r) = .ok (exp, r) := by
  have hdigit : ∀ c ∈ r.head?, c.isDigit = false := fun c hc =>
    not_isDigit_of_not_isWordPart (hr c hc).1
  cases he with
  | absent =>
    cases r with
    | nil => rfl
    | cons c r =>
      have hne : ¬ (c = 'e' ∨ c = 'E') := by
        intro hc
        have hw := (hr c rfl).1
        obtain rfl | rfl := hc <;> exact absurd hw (by decide)
      rw [List.nil_append, exponent, if_neg (by simpa using hne)]
  | @present e sign ds he hs h =>
    have hsign : exponentSign (sign ++ (ds ++ r)) = (sign, ds ++ r) := by
      refine exponentSign_append hs fun c hc => ?_
      obtain ⟨d, rest, rfl, hd⟩ := digit_head h
      obtain rfl : d = c := by simpa using hc
      exact ⟨ne_of_isDigit hd (by decide), ne_of_isDigit hd (by decide)⟩
    have hcons : e :: sign ++ ds ++ r = e :: (sign ++ (ds ++ r)) := by simp
    rw [hcons, exponent, if_pos (by simpa using he), hsign]
    dsimp only
    rw [digits_append h hdigit]
    rfl

theorem exponent_of_ok {cs exp rest : List Char} (h : exponent cs = .ok (exp, rest)) :
    cs = exp ++ rest ∧ Exponent exp := by
  cases cs with
  | nil =>
    obtain ⟨rfl, rfl⟩ := Prod.mk.inj (Except.ok.inj h)
    exact ⟨rfl, .absent⟩
  | cons c cs =>
    rw [exponent] at h
    by_cases he : c = 'e' ∨ c = 'E'
    · obtain ⟨hcs, hs⟩ := exponentSign_cases cs
      rw [if_pos (by simpa using he)] at h
      generalize exponentSign cs = r at h hcs hs
      obtain ⟨sign, ds⟩ := r
      obtain ⟨r, hd, hr⟩ := map_eq_ok_iff.mp h
      obtain ⟨rfl, rfl⟩ := Prod.mk.inj hr
      obtain ⟨hds, hdigits⟩ := digits_of_ok hd
      refine ⟨?_, .present he hs hdigits⟩
      rw [List.cons_append, List.cons_append, List.append_assoc, ← hds, ← hcs]
    · rw [if_neg (by simpa using he)] at h
      obtain ⟨rfl, rfl⟩ := Prod.mk.inj (Except.ok.inj h)
      exact ⟨rfl, .absent⟩

theorem numeral_append {w r : List Char} (hw : IsNumeral w) (hr : Ends r) :
    numeral (w ++ r) = .ok (w, r) := by
  obtain ⟨hs, hd, hf, he⟩ := hw
  rename_i sign whole frac exp
  have hexp : ∀ c ∈ (exp ++ r).head?, c.isDigit = false ∧ c ≠ '.' := by
    intro c hc
    cases he with
    | absent => exact ⟨not_isDigit_of_not_isWordPart (hr c hc).1, (hr c hc).2⟩
    | present he hs hd =>
      simp only [List.cons_append, List.head?_cons, Option.mem_some_iff] at hc
      subst hc
      obtain rfl | rfl := he <;> decide
  have hfrac : ∀ c ∈ (frac ++ (exp ++ r)).head?, c.isDigit = false := by
    intro c hc
    cases hf with
    | absent => exact (hexp c hc).1
    | present h =>
      obtain rfl : '.' = c := by simpa using hc
      rfl
  have hminus : minus (sign ++ (whole ++ (frac ++ (exp ++ r)))) =
      (sign, whole ++ (frac ++ (exp ++ r))) := by
    refine minus_append hs fun c hc => ?_
    obtain ⟨d, rest, rfl, hdigit⟩ := digit_head hd
    obtain rfl : d = c := by simpa using hc
    exact ne_of_isDigit hdigit (by decide)
  have hassoc : sign ++ whole ++ frac ++ exp ++ r = sign ++ (whole ++ (frac ++ (exp ++ r))) := by
    simp only [List.append_assoc]
  rw [numeral]
  rw [hassoc, hminus]
  simp only [digits_append hd hfrac, fraction_append hf hexp, exponent_append he hr, bind,
    Except.bind]

theorem numeral_of_ok {cs w rest : List Char} (h : numeral cs = .ok (w, rest)) :
    cs = w ++ rest ∧ IsNumeral w := by
  obtain ⟨hcs, hsign⟩ := minus_cases cs
  rw [numeral] at h
  generalize minus cs = r at h hcs hsign
  obtain ⟨sign, ds⟩ := r
  obtain ⟨whole, hd, h⟩ := bind_eq_ok_iff.mp h
  obtain ⟨frac, hf, h⟩ := bind_eq_ok_iff.mp h
  obtain ⟨exp, he, h⟩ := bind_eq_ok_iff.mp h
  obtain ⟨rfl, rfl⟩ := Prod.mk.inj (Except.ok.inj h)
  obtain ⟨hwhole, hdigits⟩ := digits_of_ok hd
  obtain ⟨hfrac, hfraction⟩ := fraction_of_ok hf
  obtain ⟨hexp, hexponent⟩ := exponent_of_ok he
  refine ⟨?_, .mk hsign hdigits hfraction hexponent⟩
  rw [List.append_assoc, List.append_assoc, List.append_assoc, ← hexp, ← hfrac, ← hwhole, ← hcs]

end TypedClient.Proofs.Numeral
