import TypedClient.Proofs.Literal.Grammar
import TypedClient.Proofs.Text.RegexChoices
import TypedClient.Routing.View

namespace TypedClient.Proofs.ExportLines

open TypedClient.Literal TypedClient.Routing TypedClient.Text
open TypedClient.Text.Regex (Goes Spells Takes lineAfter)
open TypedClient.Proofs.LiteralGrammar TypedClient.Proofs.RegexChoices TypedClient.Proofs.RegexMatches

variable {s t : Cursor} {source before front back rest rest' b w w' : List Char} {word : String}
  {p more : Char → Bool}

def EndsLine (before : List Char) : Prop :=
  ∀ c, before.getLast? = some c → c = '\n'

/-- Behind `before` a line begins with `export` and a word, and `rest` stands behind them. -/
def Exports (word : String) (source before rest : List Char) : Prop :=
  EndsLine before ∧ ∃ b b' b'', Blanks b ∧ (Blanks b' ∧ b' ≠ []) ∧ (Blanks b'' ∧ b'' ≠ []) ∧
    source = before ++ (b ++ ("export".toList ++ (b' ++ (word.toList ++ (b'' ++ rest)))))

def isName (more : Char → Bool) : List Char → Bool
  | [] => false
  | c :: cs => isWordStart c && cs.all more

def Halts (p : Char → Bool) (cs : List Char) : Prop :=
  ∀ c, cs.head? = some c → p c = false

def opening (word : String) : List Regex :=
  [.lineStart, View.blanks, View.keyword "export", View.someBlanks, View.keyword word,
    View.someBlanks]

section Halts

theorem halts_cons {c : Char} (hc : p c = false) (cs : List Char) : Halts p (c :: cs) :=
  fun _ hd => Option.some.inj hd ▸ hc

theorem halts_append (h : w.head?.map p = some false) (rest : List Char) : Halts p (w ++ rest) := by
  cases w with
  | nil => cases h
  | cons c w => exact halts_cons (Option.some.inj h) _

/-- A text is cut in one way into characters of a class and what does not begin with one. -/
theorem append_inj_of_halts (hw : ∀ c ∈ w, p c = true) (hw' : ∀ c ∈ w', p c = true)
    (hrest : Halts p rest) (hrest' : Halts p rest') (h : w ++ rest = w' ++ rest') :
    w = w' ∧ rest = rest' := by
  induction w generalizing w' with
  | nil =>
    cases w' with
    | nil => exact ⟨rfl, h⟩
    | cons d w' => exact absurd (hw' d List.mem_cons_self) (by simp [hrest d (congrArg List.head? h)])
  | cons c w ih =>
    rw [List.forall_mem_cons] at hw
    cases w' with
    | nil => exact absurd hw.1 (by simp [hrest' c (congrArg List.head? h).symm])
    | cons d w' =>
      rw [List.forall_mem_cons] at hw'
      obtain ⟨rfl, hcut⟩ := List.cons.inj h
      obtain ⟨rfl, hrests⟩ := ih hw.2 hw'.2 hcut
      exact ⟨rfl, hrests⟩

end Halts

section Names

theorem exists_of_isName (h : isName more w = true) :
    ∃ c cs, w = c :: cs ∧ isWordStart c = true ∧ ∀ d ∈ cs, more d = true := by
  cases w with
  | nil => cases h
  | cons c cs =>
    rw [isName, Bool.and_eq_true, List.all_eq_true] at h
    exact ⟨c, cs, rfl, h⟩

theorem goes_identifier (h : Goes (View.identifier more) s t) :
    ∃ w, isName more w = true ∧ s.rest = w ++ t.rest ∧ t.groups = s.groups := by
  cases h with
  | seq hone hmany =>
    cases hone with
    | @one _ c _ _ _ hc =>
      obtain ⟨cs, hcs, hrest, hgroups⟩ := goes_many hmany
      refine ⟨c :: cs, ?_, congrArg (List.cons c) hrest, hgroups⟩
      rw [isName, Bool.and_eq_true, List.all_eq_true]
      exact ⟨hc, hcs⟩

theorem spells_identifier (h : isName more w = true) : Spells (View.identifier more) w := by
  obtain ⟨c, cs, rfl, hc, hcs⟩ := exists_of_isName h
  exact (spells_one hc).seq (spells_many hcs)

theorem takes_identifier (h : isName more w = true) (hrest : Halts more rest) (start : Bool)
    (groups : List (Nat × Span)) :
    Takes (View.identifier more) ⟨w ++ rest, start, groups⟩ ⟨rest, lineAfter start w, groups⟩ := by
  obtain ⟨c, cs, rfl, hc, hcs⟩ := exists_of_isName h
  exact (takes_one (p := fun c => isLetter c || c = '_' || c = '$') hc).seq
    (takes_many hcs hrest _ groups)

end Names

section Lines

theorem exports_of_goes (h : Goes (.seqs (opening word)) ⟨back, lineAfter true front, []⟩ t) :
    Exports word (front ++ back) front t.rest ∧ t.groups = [] := by
  simp only [opening, goes_seqs_cons, goes_seqs_nil] at h
  obtain ⟨s₀, hstart, s₁, hindent, s₂, hexport, s₃, hspace, s₄, hword, s₅, hspace', rfl⟩ := h
  cases hstart with
  | lineStart hline =>
    obtain ⟨b, hb, hrest, hgroups⟩ := goes_many hindent
    obtain ⟨hrestExport, hgroupsExport⟩ := goes_text hexport
    obtain ⟨b', hne', hb', hrest', hgroups'⟩ := goes_some hspace
    obtain ⟨hrestWord, hgroupsWord⟩ := goes_text hword
    obtain ⟨b'', hne'', hb'', hrest'', hgroups''⟩ := goes_some hspace'
    have hback : back = b ++ s₁.rest := hrest
    refine ⟨⟨(lineAfter_true_iff front).mp hline, b, b', b'', hb, ⟨hb', hne'⟩, ⟨hb'', hne''⟩,
      congrArg (front ++ ·) ?_⟩, ?_⟩
    · rw [hback, hrestExport, hrest', hrestWord, hrest'']
    · rw [hgroups'', hgroupsWord, hgroups', hgroupsExport, hgroups]

theorem takes_blanks (hb : Blanks b) (hrest : Halts isBlank rest) (start : Bool)
    (groups : List (Nat × Span)) :
    Takes View.blanks ⟨b ++ rest, start, groups⟩ ⟨rest, lineAfter start b, groups⟩ :=
  takes_many hb hrest start groups

theorem takes_someBlanks (hb : Blanks b ∧ b ≠ []) (hrest : Halts isBlank rest) (start : Bool)
    (groups : List (Nat × Span)) :
    Takes View.someBlanks ⟨b ++ rest, start, groups⟩ ⟨rest, lineAfter start b, groups⟩ :=
  takes_some hb.2 hb.1 hrest start groups

theorem takes_opening (h : Exports word source before rest)
    (hword : word.toList.head?.map isBlank = some false) (hrest : Halts isBlank rest) :
    ∃ back start, source = before ++ back ∧
      Takes (.seqs (opening word)) ⟨back, lineAfter true before, []⟩ ⟨rest, start, []⟩ := by
  obtain ⟨hline, b, b', b'', hb, hb', hb'', rfl⟩ := h
  have htakes := (takes_lineStart (s := ⟨_, _, []⟩) ((lineAfter_true_iff before).mpr hline)).seq
    ((takes_blanks hb (halts_append (w := "export".toList) (by decide) _) _ _).seq ((takes_text _ _ _ _).seq
      ((takes_someBlanks hb' (halts_append hword _) _ _).seq ((takes_text _ _ _ _).seq
        ((takes_someBlanks hb'' hrest _ _).seq (takes_empty _))))))
  exact ⟨_, _, rfl, htakes⟩

end Lines

end TypedClient.Proofs.ExportLines
