import Mathlib.Data.Bool.AllAny
import TypedClient.Client.Validators
import TypedClient.Proofs.Literal.Reading
import TypedClient.Proofs.Module.DraftImports

namespace TypedClient.Proofs.AnnotationGrammar

open TypedClient.Module TypedClient.Text TypedClient.Annotation
open TypedClient.Proofs.LiteralGrammar TypedClient.Proofs.LiteralReading
open TypedClient.Proofs.DraftImports

/-- What stands behind the last point of a qualified name, or all of it where it has none. -/
inductive LastPart : List Char → List Char → Prop
  | whole {n : List Char} (hn : '.' ∉ n) : LastPart n n
  | qualified {p n : List Char} (hn : '.' ∉ n) : LastPart (p ++ '.' :: n) n

inductive Argument : List Char → Option Literal → Prop
  | absent : Argument [] none
  | empty {x : List Char} (hx : Blanks x) : Argument ('(' :: x ++ [')']) none
  | literal {x : List Char} {l : Literal}
      (hx : Literal.parse (String.ofList (trim isBlank x)) = .ok l) :
      Argument ('(' :: x ++ [')']) (some l)

/-- An annotation as it is written without blanks at its ends, and what it means. -/
inductive Written : List Char → Annotation → Prop
  | mk {q w a : List Char} {name : String} {argument : Option Literal}
      (hq : ∀ c ∈ q, isNamePart c = true) (hend : ∀ c ∈ (w ++ a).head?, isNamePart c = false)
      (hlast : LastPart q name.toList) (hknown : name ∈ knownValidators) (hw : Blanks w)
      (ha : Argument a argument) : Written (q ++ w ++ a) ⟨name, argument⟩

theorem Written.parts {text : List Char} {A : Annotation} (h : Written text A) :
    A.name ∈ knownValidators ∧ ∃ a, Argument a A.argument := by
  cases h with
  | mk hq hend hlast hknown hw ha => exact ⟨hknown, _, ha⟩

variable {q n a x : List Char} {raw : String} {argument : Option Literal}

theorem lastPart_eq_iff : lastPart q = n ↔ LastPart q n := by
  constructor
  · rintro rfl
    have hpoint : '.' ∉ lastPart q := by
      intro h
      have hmem := List.mem_takeWhile_imp (List.mem_reverse.mp h)
      exact absurd rfl (of_decide_eq_true hmem)
    have hsplit := List.takeWhile_append_dropWhile (p := (· ≠ '.')) (l := q.reverse)
    have hq : q = (q.reverse.dropWhile (· ≠ '.')).reverse ++ lastPart q := by
      rw [lastPart, ← List.reverse_append, hsplit, List.reverse_reverse]
    cases hrest : q.reverse.dropWhile (· ≠ '.') with
    | nil =>
      rw [hrest, List.reverse_nil, List.nil_append] at hq
      exact hq ▸ .whole (hq ▸ hpoint)
    | cons c p =>
      have hc : c = '.' := by
        have hhead := List.head?_dropWhile_not (· ≠ '.') q.reverse
        rw [hrest] at hhead
        simpa using hhead
      rw [hrest, hc, List.reverse_cons, List.append_assoc, List.singleton_append] at hq
      have hlast := LastPart.qualified (p := p.reverse) hpoint
      rwa [← hq] at hlast
  · intro h
    cases h with
    | whole hn =>
      rw [lastPart, List.takeWhile_eq_self_iff.mpr, List.reverse_reverse]
      intro c hc
      exact decide_eq_true (ne_of_mem_of_not_mem (List.mem_reverse.mp hc) hn)
    | qualified hn =>
      rw [lastPart, List.reverse_append, List.reverse_cons, List.append_assoc,
        List.takeWhile_append_of_pos, List.singleton_append, List.takeWhile_cons_of_neg (by simp),
        List.append_nil, List.reverse_reverse]
      intro c hc
      exact decide_eq_true (ne_of_mem_of_not_mem (List.mem_reverse.mp hc) hn)

theorem between?_eq_some_iff : between? a = some x ↔ a = '(' :: x ++ [')'] := by
  constructor
  · intro h
    rw [between?.eq_def] at h
    split at h
    · split at h
      · rename_i hreverse
        obtain rfl := Option.some.inj h
        rw [List.cons_append, ← List.reverse_cons, ← hreverse, List.reverse_reverse]
      · cases h
    · cases h
  · rintro rfl
    rw [List.cons_append, between?, List.reverse_concat]
    exact congrArg some (List.reverse_reverse x)

theorem trim_eq_nil_iff : trim isBlank x = [] ↔ Blanks x := by
  rw [trim, trimEnd, trimStart, List.reverse_eq_nil_iff, List.dropWhile_eq_nil_iff]
  constructor
  · intro h
    rw [← List.takeWhile_append_dropWhile (p := isBlank) (l := x)]
    exact Blanks.append (fun c hc => List.mem_takeWhile_imp hc)
      fun c hc => h c (List.mem_reverse.mpr hc)
  · intro h c hc
    exact h c ((List.dropWhile_sublist isBlank).subset (List.mem_reverse.mp hc))

theorem not_parse_blanks {l : Literal} (hx : Blanks x) :
    Literal.parse (String.ofList (trim isBlank x)) ≠ .ok l := by
  rw [trim_eq_nil_iff.mpr hx]
  intro h
  cases h

theorem argument?_eq_ok_iff : argument? raw a = .ok argument ↔ Argument a argument := by
  constructor
  · intro h
    cases a with
    | nil =>
      obtain rfl := Except.ok.inj h
      exact .absent
    | cons c cs =>
      rw [argument?] at h
      · split at h
        · cases h
        · rename_i inner hinner
          rw [between?_eq_some_iff.mp hinner]
          split at h
          · rename_i hblank
            obtain rfl := Except.ok.inj h
            exact .empty (trim_eq_nil_iff.mp hblank)
          · split at h
            · rename_i hliteral
              obtain rfl := Except.ok.inj h
              exact .literal hliteral
            · cases h
      · exact List.cons_ne_nil c cs
  · intro h
    cases h with
    | absent => rfl
    | empty hx =>
      rw [argument?, between?_eq_some_iff.mpr rfl]
      · simp only [trim_eq_nil_iff.mpr hx]
      · exact List.cons_ne_nil _ _
    | @literal x l hx =>
      have hne : trim isBlank x ≠ [] := fun hnil => not_parse_blanks (trim_eq_nil_iff.mp hnil) hx
      rw [argument?, between?_eq_some_iff.mpr rfl]
      · dsimp only
        split
        · contradiction
        · rw [hx]
      · exact List.cons_ne_nil _ _

theorem known_letters {N : String} (h : N ∈ knownValidators) :
    N.toList ≠ [] ∧ (∀ c ∈ N.toList, isNamePart c = true ∧ isDigit c = false ∧
      isBlank c = false ∧ c ≠ '.' ∧ c ≠ ']') := by
  have hall : ∀ N ∈ knownValidators, N.toList ≠ [] ∧ N.toList.all (fun c =>
      isNamePart c = true ∧ isDigit c = false ∧ isBlank c = false ∧ c ≠ '.' ∧ c ≠ ']') = true := by
    decide +kernel
  obtain ⟨hne, hletters⟩ := hall N h
  exact ⟨hne, List.all_iff_forall_prop.mp hletters⟩

theorem not_isMissing {N : String} (h : N ∈ knownValidators) : isMissing N.toList = false := by
  obtain ⟨hne, hletters⟩ := known_letters h
  obtain ⟨c, cs, hc⟩ := List.exists_cons_of_ne_nil hne
  rw [hc, isMissing]
  exact (hletters c (by rw [hc]; exact List.mem_cons_self)).2.1

theorem skipBlank_argument {w : List Char} (hw : Blanks w) (h : Argument a argument) :
    skipBlank (w ++ a) = a := by
  rw [skipBlank_append hw]
  cases h <;> rfl

theorem parse_of_written {A : Annotation} (h : Written (trim isBlank raw.toList) A) :
    parse raw = .ok A := by
  generalize htext : trim isBlank raw.toList = text at h
  obtain @⟨q, w, a, N, argument, hq, hend, hlast, hknown, hw, ha⟩ := h
  have hspan := Numeral.span_append hq hend
  rw [List.span_eq_takeWhile_dropWhile, ← List.append_assoc] at hspan
  obtain ⟨htake, hdrop⟩ := Prod.mk.inj hspan
  rw [parse, htext, htake, hdrop, lastPart_eq_iff.mpr hlast, not_isMissing hknown,
    skipBlank_argument hw ha, argument?_eq_ok_iff.mpr ha]
  simp only [Bool.false_eq_true, if_false, String.ofList_toList]
  rw [if_pos (List.contains_iff_mem.mpr hknown)]

theorem written_of_parse {A : Annotation} (h : parse raw = .ok A) :
    Written (trim isBlank raw.toList) A := by
  rw [parse] at h
  generalize trim isBlank raw.toList = text at h
  split at h
  · cases h
  split at h
  · cases h
  · rename_i argument hargument
    dsimp only at h
    split at h
    · rename_i hknown
      obtain rfl := Except.ok.inj h
      obtain ⟨w, hw, hrest⟩ := exists_blanks (text.dropWhile isNamePart)
      have hsplit : text.takeWhile isNamePart ++ w ++ skipBlank (text.dropWhile isNamePart) =
          text := by
        rw [List.append_assoc, ← hrest, List.takeWhile_append_dropWhile]
      have hend : ∀ c ∈ (w ++ skipBlank (text.dropWhile isNamePart)).head?,
          isNamePart c = false := by
        rw [← hrest]
        intro c hc
        have hhead := List.head?_dropWhile_not isNamePart text
        rwa [Option.mem_def.mp hc] at hhead
      have hwritten := Written.mk (fun c hc => List.mem_takeWhile_imp hc) hend
        (lastPart_eq_iff.mp (String.toList_ofList).symm) (List.contains_iff_mem.mp hknown) hw
        (argument?_eq_ok_iff.mp hargument)
      rwa [hsplit] at hwritten
    · cases h

theorem constructValidator_run_error (settings : Settings) {fault : Fault}
    (h : parse raw = .error fault) (d : Draft) :
    (constructValidator settings raw).run.run d = (.error fault, d) := by
  rw [constructValidator, h]
  rfl

theorem constructValidator_run_ok (settings : Settings) {A : Annotation} (h : parse raw = .ok A)
    (d : Draft) :
    (constructValidator settings raw).run.run d =
      (.ok (.construct (d.imports.namedImport settings.formModule A.name false).1
          (A.argument.toList.map Expr.literal)),
        { d with imports := (d.imports.namedImport settings.formModule A.name false).2 }) := by
  rw [constructValidator, h]
  dsimp only
  rw [liftM_run_bind]
  rfl

/-- The texts that are annotations are those of the grammar, and each means its annotation. The
construction of a validator leaves the draft as it is where the text is none; else it asks for the
validator, as a value of the form module, and changes nothing but the imports by that. -/
theorem parse_iff_written (settings : Settings) (raw : String) :
    (∀ A, parse raw = .ok A ↔ Written (trim isBlank raw.toList) A) ∧
    ∀ (d d' : Draft),
      (∀ fault, (constructValidator settings raw).run.run d = (.error fault, d') →
        d' = d ∧ ∀ A, ¬ Written (trim isBlank raw.toList) A) ∧
      ∀ e, (constructValidator settings raw).run.run d = (.ok e, d') →
        ∃ A callee imports, Written (trim isBlank raw.toList) A ∧
          d.imports.namedImport settings.formModule A.name false = (callee, imports) ∧
          d' = { d with imports } ∧
          e = .construct callee (A.argument.toList.map Expr.literal) := by
  refine ⟨fun A => ⟨written_of_parse, parse_of_written⟩, fun d d' => ⟨?_, ?_⟩⟩
  · intro fault h
    cases hparse : parse raw with
    | error _ =>
      rw [constructValidator_run_error settings hparse] at h
      obtain ⟨-, rfl⟩ := Prod.mk.inj h
      refine ⟨rfl, fun A hA => ?_⟩
      rw [parse_of_written hA] at hparse
      cases hparse
    | ok A =>
      rw [constructValidator_run_ok settings hparse] at h
      cases h
  · intro e h
    cases hparse : parse raw with
    | error _ =>
      rw [constructValidator_run_error settings hparse] at h
      cases h
    | ok A =>
      rw [constructValidator_run_ok settings hparse] at h
      obtain ⟨he, rfl⟩ := Prod.mk.inj h
      exact ⟨A, _, _, written_of_parse hparse, rfl, rfl, (Except.ok.inj he).symm⟩

/-- A qualified name with blanks around its parentheses and in them. -/
theorem qualified_size_read :
    Written (trim isBlank " javax.Size ( 5 ) ".toList) ⟨"Size", some (.number "5")⟩ ∧
      parse " javax.Size ( 5 ) " = .ok ⟨"Size", some (.number "5")⟩ := by
  have htrim : trim isBlank " javax.Size ( 5 ) ".toList =
      "javax.Size".toList ++ [' '] ++ ('(' :: " 5 ".toList ++ [')']) := by
    decide
  have hargument : Argument ('(' :: " 5 ".toList ++ [')']) (some (.number "5")) := .literal rfl
  have hlast : LastPart "javax.Size".toList "Size".toList :=
    .qualified (p := "javax".toList) (by decide)
  have hwritten : Written (trim isBlank " javax.Size ( 5 ) ".toList)
      ⟨"Size", some (.number "5")⟩ := by
    rw [htrim]
    refine .mk (List.all_iff_forall_prop.mp (by decide)) ?_ hlast (by decide)
      (List.forall_mem_singleton.mpr rfl) hargument
    rintro c ⟨⟩
    decide
  exact ⟨hwritten, ((parse_iff_written {} _).1 _).mpr hwritten⟩

end TypedClient.Proofs.AnnotationGrammar
