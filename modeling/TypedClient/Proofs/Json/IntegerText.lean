import Mathlib.Algebra.Group.Int.Defs
import TypedClient.Json.Printer
import TypedClient.Json.Reader
import TypedClient.Proofs.Literal.Numeral

namespace TypedClient.Proofs.IntegerText

open TypedClient.Decimal TypedClient.Proofs.Numeral

variable {n : Int} {m : Nat}

theorem digits_toDigits (m : Nat) : Digits (Nat.toDigits 10 m) :=
  ⟨Nat.toDigits_ne_nil, fun _ hc => Nat.isDigit_of_mem_toDigits (by decide) (by decide) hc⟩

theorem ofDigits_toDigits (m : Nat) : ofDigits (Nat.toDigits 10 m) = m := by
  have h : ofDigits (Nat.toDigits 10 m) = Nat.ofDigitChars 10 (Nat.toDigits 10 m) 0 := by
    rw [Nat.ofDigitChars_eq_foldl]
    rfl
  rw [h, Nat.ofDigitChars_ten_toDigits]

theorem head?_toDigits (hm : 0 < m) : (Nat.toDigits 10 m).head? ≠ some '0' := by
  induction m using Nat.strong_induction_on with
  | _ m ih =>
    rw [Nat.toDigits_eq_if (by decide)]
    split
    · rename_i hlt
      have hdigit : ∀ k < 10, 0 < k → k.digitChar ≠ '0' := by decide
      simpa using hdigit m hlt hm
    · have hrest := ih (m / 10) (by omega) (by omega)
      obtain ⟨d, ds, hd⟩ := List.exists_cons_of_ne_nil (Nat.toDigits_ne_nil (b := 10) (n := m / 10))
      rw [hd] at hrest ⊢
      exact hrest

def sign (n : Int) : List Char :=
  if n < 0 then ['-'] else []

theorem text_int (n : Int) : (Number.int n).text = sign n ++ Nat.toDigits 10 n.natAbs := by
  rw [Number.text, sign]
  split <;> rfl

theorem isNumeral_int (n : Int) : IsNumeral (Number.int n).text := by
  have hsign : sign n = [] ∨ sign n = ['-'] := by
    rw [sign]
    split
    · exact .inr rfl
    · exact .inl rfl
  have h := IsNumeral.mk hsign (digits_toDigits n.natAbs) .absent .absent
  rwa [List.append_nil, List.append_nil, ← text_int] at h

theorem no_leading_zero (m : Nat) :
    ((Nat.toDigits 10 m).isEmpty ||
      (decide ((Nat.toDigits 10 m).head? = some '0') && decide ((Nat.toDigits 10 m).length > 1))) =
      false := by
  have hne : (Nat.toDigits 10 m).isEmpty = false :=
    List.isEmpty_eq_false_iff.mpr Nat.toDigits_ne_nil
  rw [hne, Bool.false_or, Bool.and_eq_false_iff, decide_eq_false_iff_not, decide_eq_false_iff_not]
  obtain rfl | hm := Nat.eq_zero_or_pos m
  · exact .inr (by decide)
  · exact .inl (head?_toDigits hm)

theorem written?_int (n : Int) : Json.written? (Number.int n).text =
    some (⟨decide (n < 0), Nat.toDigits 10 n.natAbs, none, none⟩, []) := by
  have hd := digits_toDigits n.natAbs
  have htake : (Nat.toDigits 10 n.natAbs).takeWhile Char.isDigit = Nat.toDigits 10 n.natAbs :=
    List.takeWhile_eq_self_iff.mpr hd.2
  have hdrop : (Nat.toDigits 10 n.natAbs).dropWhile Char.isDigit = [] :=
    List.dropWhile_eq_nil_iff.mpr hd.2
  have hzero := no_leading_zero n.natAbs
  rw [Number.text]
  by_cases hn : n < 0
  · rw [if_pos hn]
    simp only [Json.written?, htake, hdrop, hzero, hn]
    rfl
  · rw [if_neg hn]
    obtain ⟨d, ds, hds, hdigit⟩ := digit_head hd
    have hminus : d ≠ '-' := ne_of_isDigit hdigit (by decide)
    rw [hds] at htake hdrop hzero ⊢
    simp only [Json.written?, hn]
    split
    · rename_i heq
      exact absurd (List.cons.inj heq).1 hminus
    · simp only [htake, hdrop, hzero]
      rfl

theorem number?_int (h : -2 ^ 63 ≤ n ∧ n < 2 ^ 64) :
    Json.number? (String.ofList (Number.int n).text) = some (.int n) := by
  have hint : (⟨decide (n < 0), Nat.toDigits 10 n.natAbs, none, none⟩ : Written).toInt? =
      some n := by
    have hpow : Nat.pow 2 63 = 2 ^ 63 ∧ greatestSignificand = 2 ^ 64 - 1 := ⟨rfl, rfl⟩
    simp only [Written.toInt?, Option.isSome_none, Bool.or_self, Bool.false_eq_true, if_false,
      ofDigits_toDigits, hpow, decide_eq_true_eq]
    split
    · rw [if_pos (by simp; omega)]
      exact congrArg some (by omega)
    · rw [if_pos (by omega)]
      exact congrArg some (by omega)
  rw [Json.number?, String.toList_ofList, Json.number?At, written?_int]
  simp only [Option.bind_eq_bind, Option.bind_some, Json.ofWritten?, hint]

end TypedClient.Proofs.IntegerText
