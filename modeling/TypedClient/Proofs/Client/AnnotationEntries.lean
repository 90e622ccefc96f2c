import TypedClient.Client.Validators
import TypedClient.Proofs.Client.SchemaReading
import TypedClient.Proofs.Client.ValidatorSpines
import TypedClient.Proofs.Json.LiteralText

namespace TypedClient.Proofs.AnnotationEntries

open TypedClient.Module TypedClient.Text TypedClient.Proofs.DraftWork TypedClient.Proofs.SchemaWork
open TypedClient.Proofs.LiteralText TypedClient.Proofs.DraftImports TypedClient.Annotation
open TypedClient.Proofs.AnnotationGrammar TypedClient.Proofs.LiteralGrammar
open TypedClient.Proofs.ValidatorSpines TypedClient.Proofs.SchemaReading

variable {N : String} {A : Json} {settings : Settings}

/-- The text of an entry with attributes is the annotation with what is read of them. -/
theorem parse_entry (hN : N ∈ knownValidators) (hA : Plain A) :
    parse (N ++ "(" ++ A.text ++ ")") = .ok ⟨N, some (literal A)⟩ := by
  obtain ⟨hne, hletters⟩ := known_letters hN
  have hraw : (N ++ "(" ++ A.text ++ ")").toList = N.toList ++ [] ++ ('(' :: A.compact ++ [')']) := by
    simp [Json.text]
  have hsolid : Solid (N.toList ++ [] ++ ('(' :: A.compact ++ [')'])) := by
    obtain ⟨c, cs, hc⟩ := List.exists_cons_of_ne_nil hne
    have hfirst := hletters c (by rw [hc]; exact List.mem_cons_self)
    refine ⟨⟨c, cs ++ [] ++ ('(' :: A.compact ++ [')']), by rw [hc]; rfl, ?_⟩, ?_⟩
    · exact ⟨hfirst.2.2.1, hfirst.2.2.2.2⟩
    exact ⟨N.toList ++ [] ++ '(' :: A.compact, ')', by simp, by decide⟩
  have hargument : Argument ('(' :: A.compact ++ [')']) (some (literal A)) := by
    refine .literal ?_
    rw [(solid_compact hA).trim]
    exact parse_text hA
  refine parse_of_written ?_
  rw [hraw, hsolid.trim]
  refine .mk (fun c hc => (hletters c hc).1) ?_ ?_ hN blanks_nil hargument
  · rintro c ⟨⟩
    decide
  · exact .whole fun hpoint => (hletters '.' hpoint).2.2.2.1 rfl

def IsEntry (entry : Json) (N : String) (A : Json) : Prop :=
  ∃ ms, entry = .object ms ∧ ms.lookup "name" = some (.string N) ∧ ms.lookup "attributes" = some A

theorem annotationText_entry {entry : Json} (h : IsEntry entry N A) :
    Schema.annotationText entry = N ++ "(" ++ A.text ++ ")" := by
  obtain ⟨ms, rfl, hname, hattributes⟩ := h
  simp only [Schema.annotationText, hname, hattributes, Option.some_or, Option.bind_some,
    Json.string?]

theorem namedImport_known (hN : N ∈ knownValidators) {d : Draft} {path : String}
    (hfree : N ∉ d.imports.taken) (hnew : d.imports.find? path (.named N) = none) :
    ((Draft.namedImport path N false).run d).1 = N := by
  have hname : Identifier.sanitize N = N ∧ Identifier.isReserved N = false := by
    clear hfree hnew
    revert N
    decide +kernel
  have hrun : ((Draft.namedImport path N false).run d).1 = d.imports.freshName N := by
    change (d.imports.add path (.named N) N false).1 = _
    rw [ImportTable.add, hnew]
    rfl
  rw [hrun, ImportTable.freshName, hname.1, hname.2, if_neg (by simpa using hfree)]

/-- An expression that constructs the validator of an entry, with a literal that is worth the
attributes as long as they are clean. -/
def Constructs (settings : Settings) (d : Draft) (entry : Json) (e : Expr) : Prop :=
  ∀ N A, IsEntry entry N A → N ∈ knownValidators → Plain A →
    ∃ callee l, e = .construct callee [.literal l] ∧
      BindsValue d settings.formModule (.named N) callee ∧ (l.toJson = A ↔ Clean A)

theorem constructValidator_run {entry : Json} (hentry : IsEntry entry N A)
    (hN : N ∈ knownValidators) (hA : Plain A) (settings : Settings) (d : Draft) :
    ∃ callee d', (constructValidator settings (Schema.annotationText entry)).run.run d =
        (.ok (.construct callee [.literal (literal A)]), d') ∧
      (Draft.namedImport settings.formModule N false).run d = (callee, d') ∧
      BindsValue d' settings.formModule (.named N) callee := by
  obtain ⟨callee, d', himport, -, hbinds⟩ := namedImport_run settings.formModule N d
  refine ⟨callee, d', ?_, himport, hbinds⟩
  rw [annotationText_entry hentry, constructValidator, parse_entry hN hA]
  dsimp only
  rw [liftM_run_bind, formClass, himport]
  rfl

theorem Constructed.constructs {entry : Json} {d : Draft} {e : Expr}
    (h : Constructed settings d (Schema.annotationText entry) e) : Constructs settings d entry e := by
  intro N A hentry hN hA
  obtain ⟨_, callee, hparse, rfl, hbinds⟩ := h
  rw [annotationText_entry hentry, parse_entry hN hA] at hparse
  obtain rfl := Except.ok.inj hparse
  exact ⟨callee, literal A, rfl, hbinds, toJson_literal_iff hA⟩

theorem constructs_entries {entries : List Json} {es : List Expr} {d : Draft}
    (h : List.Forall₂ (Constructed settings d) (entries.map Schema.annotationText) es) :
    List.Forall₂ (Constructs settings d) entries es :=
  (List.forall₂_map_left_iff.mp h).imp fun _ _ => Constructed.constructs

theorem annotationTexts_table {key : String} {ms : List (String × Json)} {entries : List Json}
    (h : ms.lookup key = some (.array entries)) :
    Schema.annotationTexts (Schema.Table.json? (Schema.table ms) key) =
      entries.map Schema.annotationText := by
  rw [json?_table, h]
  rfl

theorem validators_run {ms : List (String × Json)} {vs : List Expr} {d d' : Draft}
    (h : ((Schema.ofJson (.object ms)).validators settings).run.run d = (.ok vs, d')) :
    ∃ items annotated constrained,
      vs = .bool (Schema.ofJson (.object ms)).nullable :: items ++ annotated ++ constrained ∧
      (((Schema.ofJson (.object ms)).shape.itemValidators settings).run.run d).1 = .ok items ∧
      (∀ entries, ms.lookup "x-annotations" = some (.array entries) →
        List.Forall₂ (Constructs settings d') entries annotated) ∧
      (∀ entries, ms.lookup "x-validation-constraints" = some (.array entries) →
        List.Forall₂ (Constructs settings d') entries constrained) := by
  rw [validators_shape] at h
  obtain ⟨items, d₁, annotated, constrained, hitems, -, rfl, ha, hc⟩ := following_run h
  refine ⟨items, annotated, constrained, rfl, congrArg Prod.fst hitems, ?_, ?_⟩
  · intro entries hentries
    exact constructs_entries (annotationTexts_table hentries ▸ ha)
  · intro entries hentries
    exact constructs_entries (annotationTexts_table hentries ▸ hc)

/-- The construction for an entry with attributes never fails, and its argument is worth the
attributes just when they are clean. It stands at the place of the entry: the validators of a schema
are those of the items of a list, then one for each annotation, then one for each constraint. -/
theorem attributes_survive_iff (settings : Settings) (d : Draft) :
    (∀ entry N A, IsEntry entry N A → N ∈ knownValidators → Plain A →
      ∃ callee l d', (constructValidator settings (Schema.annotationText entry)).run.run d =
          (.ok (.construct callee [.literal l]), d') ∧
        BindsValue d' settings.formModule (.named N) callee ∧
        (N ∉ d.imports.taken → d.imports.find? settings.formModule (.named N) = none → callee = N) ∧
        (l.toJson = A ↔ Clean A)) ∧
    ∀ (ms : List (String × Json)) (vs : List Expr) (d' : Draft),
      ((Schema.ofJson (.object ms)).validators settings).run.run d = (.ok vs, d') →
        ∃ items annotated constrained,
          vs = .bool (Schema.ofJson (.object ms)).nullable :: items ++ annotated ++ constrained ∧
          (((Schema.ofJson (.object ms)).shape.itemValidators settings).run.run d).1 = .ok items ∧
          (∀ entries, ms.lookup "x-annotations" = some (.array entries) →
            List.Forall₂ (Constructs settings d') entries annotated) ∧
          (∀ entries, ms.lookup "x-validation-constraints" = some (.array entries) →
            List.Forall₂ (Constructs settings d') entries constrained) := by
  refine ⟨fun entry N A hentry hN hA => ?_, fun ms vs d' h => validators_run h⟩
  obtain ⟨callee, d', hrun, himport, hbinds⟩ := constructValidator_run hentry hN hA settings d
  refine ⟨callee, literal A, d', hrun, hbinds, fun hfree hnew => ?_, toJson_literal_iff hA⟩
  have hname := namedImport_known hN hfree hnew
  rwa [himport] at hname

def pattern (regexp : String) : Json :=
  .object [("regexp", .string regexp)]

def patterned (regexp : String) : List (String × Json) :=
  [("type", .string "string"), ("x-annotations", .array [.string "NotNull",
    .object [("name", .string "Pattern"), ("attributes", pattern regexp)]])]

theorem plain_pattern (regexp : String) : Plain (pattern regexp) :=
  .object (by simpa using .string regexp) (by simp)

theorem lines_keep_pattern :
    ∃ vs d', ((Schema.ofJson (.object (patterned "\\d+\n"))).validators {}).run.run
        { location := "M", source := "api" } = (.ok vs, d') ∧
      ∃ callee l, vs[2]? = some (.construct callee [.literal l]) ∧
        BindsValue d' "@clientgen/form" (.named "Pattern") callee ∧
        l.toJson = pattern "\\d+\n" := by
  have hok : (((Schema.ofJson (.object (patterned "\\d+\n"))).validators {}).run.run
      { location := "M", source := "api" }).1.isOk = true := by
    decide +kernel
  have hclean : Clean (pattern "\\d+\n") :=
    .object (List.forall_mem_singleton.mpr (List.all_iff_forall_prop.mp (by decide)))
      (List.forall_mem_singleton.mpr (.string (List.all_iff_forall_prop.mp (by decide))))
  rcases hrun : ((Schema.ofJson (.object (patterned "\\d+\n"))).validators {}).run.run
    { location := "M", source := "api" } with ⟨_ | vs, d'⟩
  · rw [hrun] at hok
    cases hok
  obtain ⟨items, annotated, constrained, rfl, hitems, hannotated, -⟩ :=
    (attributes_survive_iff {} { location := "M", source := "api" }).2 _ vs d' hrun
  obtain rfl : items = [] := (Except.ok.inj hitems).symm
  cases hannotated _ rfl with
  | cons _ hrest =>
    cases hrest with
    | cons hpattern hnil =>
      obtain ⟨callee, l, rfl, hbinds, hl⟩ :=
        hpattern "Pattern" (pattern "\\d+\n") ⟨_, rfl, rfl, rfl⟩ (by decide) (plain_pattern _)
      exact ⟨_, d', rfl, callee, l, rfl, hbinds, hl.mpr hclean⟩

/-- A pattern with a control character becomes another pattern. -/
theorem control_character_lost :
    Plain (pattern "\x08") ∧
      ∃ l d', (constructValidator {} (Schema.annotationText
          (.object [("name", .string "Pattern"), ("attributes", pattern "\x08")]))).run.run
          { location := "M", source := "api" } = (.ok (.construct "Pattern" [.literal l]), d') ∧
        l.toJson = pattern "b" ∧ pattern "b" ≠ pattern "\x08" := by
  have hentry : IsEntry (.object [("name", .string "Pattern"), ("attributes", pattern "\x08")])
      "Pattern" (pattern "\x08") := ⟨_, rfl, rfl, rfl⟩
  obtain ⟨callee, d', hrun, himport, -⟩ :=
    constructValidator_run hentry (by decide) (plain_pattern _) {}
      { location := "M", source := "api" }
  have hcallee : callee = "Pattern" := by
    have hname : ((Draft.namedImport ({} : Settings).formModule "Pattern" false).run
        { location := "M", source := "api" }).1 = "Pattern" :=
      namedImport_known (by decide) (by decide) rfl
    rwa [himport] at hname
  subst hcallee
  refine ⟨plain_pattern _, literal (pattern "\x08"), d', hrun, ?_, ?_⟩
  · rfl
  · intro he
    have hs : "b" = "\x08" := by
      simpa only [pattern, Json.object.injEq, List.cons.injEq, Prod.mk.injEq, Json.string.injEq,
        true_and, and_true] using he
    exact absurd hs (by decide)

end TypedClient.Proofs.AnnotationEntries
