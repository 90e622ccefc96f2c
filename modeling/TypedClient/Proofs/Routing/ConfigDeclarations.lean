import TypedClient.Proofs.Routing.ExportLines

namespace TypedClient.Proofs.ConfigDeclarations

open TypedClient.Routing TypedClient.Text
open TypedClient.Text.Regex (Goes Spells lineAfter search? searchFrom?)
open TypedClient.Proofs.ExportLines TypedClient.Proofs.LiteralGrammar TypedClient.Proofs.RegexChoices
open TypedClient.Proofs.RegexMatches

variable {s t : Cursor} {source front back typing rest name w : List Char}

inductive Typing : List Char → Prop
  | none {b : List Char} (hb : Blanks b) : Typing b
  | type {b b' b'' name : List Char} (hb : Blanks b) (hb' : Blanks b')
      (hname : isName View.inTypeName name = true) (hb'' : Blanks b'') :
      Typing (b ++ ':' :: (b' ++ (name ++ b'')))

/-- Behind `before` a line declares the constant `config`; `typing` stands up to an equals sign, and
`rest` behind that. -/
def Declares (source before typing rest : List Char) : Prop :=
  Exports "const" source before ("config".toList ++ (typing ++ '=' :: rest))

def settingsAt (url : String) (rest : List Char) : Except View.Fault ViewConfig :=
  match Literal.parsePrefix (String.ofList rest) with
  | .error e => .error (.literal url e)
  | .ok (l, _) => (ViewConfig.decode l.toJson).mapError (.form url)

def typeOption : Regex :=
  .opt (.seqs [.char ':', View.blanks, View.identifier View.inTypeName, View.blanks])

theorem typing_of_goes {u : Cursor} (hblanks : Goes View.blanks s t) (htype : Goes typeOption t u) :
    ∃ typing, Typing typing ∧ s.rest = typing ++ u.rest := by
  obtain ⟨b, hb, hrest, -⟩ := goes_many hblanks
  obtain htype | rfl := goes_opt htype
  · simp only [goes_seqs_cons, goes_seqs_nil] at htype
    obtain ⟨t₀, hcolon, t₁, hblanks', t₂, hname, t₃, hblanks'', rfl⟩ := htype
    obtain ⟨b', hb', hrest', -⟩ := goes_many hblanks'
    obtain ⟨name, hname, hrestName, -⟩ := goes_identifier hname
    obtain ⟨b'', hb'', hrest'', -⟩ := goes_many hblanks''
    refine ⟨_, .type hb hb' hname hb'', ?_⟩
    rw [hrest, (goes_char hcolon).1, hrest', hrestName, hrest'']
    simp only [List.append_assoc, List.cons_append]
  · exact ⟨b, .none hb, hrest⟩

theorem spells_typing {a : Regex} (h : Typing typing) (ha : Spells a w) :
    Spells (.seq View.blanks (.seq typeOption a)) (typing ++ w) := by
  cases h with
  | none hb => exact (spells_many hb).seq (spells_empty.right.seq ha)
  | type hb hb' hname hb'' =>
    have hblanks : Spells View.blanks _ := spells_many hb
    have htype : Spells typeOption _ := Spells.left ((spells_char ':').seq ((spells_many hb').seq
      ((spells_identifier hname).seq ((spells_many hb'').seq spells_empty))))
    simpa using hblanks.seq (htype.seq ha)

def declaration : List Regex :=
  [View.keyword "config", View.blanks, typeOption, .char '=']

theorem configExport_eq : View.configExport = .seqs (opening "const" ++ declaration) :=
  rfl

theorem declares_of_goes (h : Goes View.configExport ⟨back, lineAfter true front, []⟩ t) :
    ∃ typing, Typing typing ∧ Declares (front ++ back) front typing t.rest := by
  rw [configExport_eq, goes_seqs_append] at h
  obtain ⟨s₀, hopening, hdeclaration⟩ := h
  simp only [declaration, goes_seqs_cons, goes_seqs_nil] at hdeclaration
  obtain ⟨s₁, hconfig, s₂, hblanks, s₃, htype, s₄, hsign, rfl⟩ := hdeclaration
  obtain ⟨hexports, -⟩ := exports_of_goes hopening
  obtain ⟨typing, htyping, hrest⟩ := typing_of_goes hblanks htype
  refine ⟨typing, htyping, ?_⟩
  rw [Declares, ← (goes_char hsign).1, ← hrest, ← (goes_text hconfig).1]
  exact hexports

theorem goes_of_declares (h : Declares source front typing rest) (ha : Typing typing) :
    ∃ back, source = front ++ back ∧
      ∃ t, Goes View.configExport ⟨back, lineAfter true front, []⟩ t := by
  have hsign : Spells (.seqs [.char '=']) ['='] := (spells_char '=').seq spells_empty
  have hdeclaration : Spells (.seqs declaration) _ :=
    (spells_text "config".toList).seq (spells_typing ha hsign)
  obtain ⟨back, start, hback, htakes⟩ := takes_opening h (by decide) (halts_append (by decide) _)
  obtain ⟨start', hgoes⟩ := hdeclaration rest start []
  rw [List.append_assoc, List.append_assoc] at hgoes
  exact ⟨back, hback, _, goes_seqs_append.mpr ⟨_, htakes.goes, hgoes⟩⟩

theorem sign_not_mem_blanks {b : List Char} (hb : Blanks b) : '=' ∉ b := fun h =>
  absurd (hb _ h) (by decide)

theorem sign_not_mem_typing (h : Typing typing) : '=' ∉ typing := by
  cases h with
  | none hb => exact sign_not_mem_blanks hb
  | @type b b' b'' name hb hb' hname hb'' =>
    have hname : '=' ∉ name := by
      obtain ⟨c, cs, rfl, hc, hcs⟩ := exists_of_isName hname
      rw [List.mem_cons, not_or]
      exact ⟨fun h => absurd (h ▸ hc) (by decide), fun h => absurd (hcs _ h) (by decide)⟩
    simp [sign_not_mem_blanks, hb, hb', hb'', hname]

theorem exists_sign (h : Declares source front typing rest) (ha : Typing typing) :
    ∃ w, '=' ∉ w ∧ source = front ++ (w ++ '=' :: rest) := by
  obtain ⟨-, b, b', b'', hb, hb', hb'', rfl⟩ := h
  refine ⟨b ++ ("export".toList ++ (b' ++ ("const".toList ++ (b'' ++ ("config".toList ++ typing))))),
    ?_, by simp⟩
  simp [sign_not_mem_blanks, sign_not_mem_typing ha, hb, hb'.1, hb''.1]

theorem rest_unique {typing' rest' : List Char} (h : Declares source front typing rest)
    (ha : Typing typing) (h' : Declares source front typing' rest')
    (ha' : Typing typing') : rest = rest' := by
  obtain ⟨w, hw, rfl⟩ := exists_sign h ha
  obtain ⟨w', hw', heq⟩ := exists_sign h' ha'
  have hbefore : ∀ {v : List Char}, '=' ∉ v → ∀ c ∈ v, (c != '=') = true := fun hv c hc =>
    bne_iff_ne.mpr fun heq => hv (heq ▸ hc)
  have hcut := append_inj_of_halts (hbefore hw) (hbefore hw') (halts_cons (by decide) rest)
    (halts_cons (by decide) rest') (List.append_cancel_left heq)
  exact (List.cons.inj hcut.2).2

theorem search?_eq_none_iff : View.configExport.search? source = none ↔
    ∀ front typing rest, Declares source front typing rest → ¬ Typing typing := by
  rw [search?, searchFrom?_eq_none_iff]
  constructor
  · intro hnone front typing rest h ha
    obtain ⟨back, rfl, t, hgoes⟩ := goes_of_declares h ha
    exact hnone front back rfl t hgoes
  · rintro hnone front back rfl t hgoes
    obtain ⟨typing, ha, h⟩ := declares_of_goes hgoes
    exact hnone front typing _ h ha

theorem search?_of_first (h : Declares source front typing rest) (ha : Typing typing)
    (hfirst : ∀ front' typing' rest', Declares source front' typing' rest' →
      Typing typing' → front.length ≤ front'.length) :
    ∃ t, View.configExport.search? source = some t ∧ t.rest = rest := by
  obtain ⟨t, ht⟩ : ∃ t, View.configExport.search? source = some t := by
    rw [← Option.ne_none_iff_exists']
    exact fun hnone => search?_eq_none_iff.mp hnone front typing rest h ha
  refine ⟨t, ht, ?_⟩
  obtain ⟨front', back', rfl, hrun, hnone⟩ := searchFrom?_eq_some_iff.mp ht
  obtain ⟨u, hgoes, hu⟩ := exists_goes_of_run hrun
  obtain rfl := Option.some.inj hu
  obtain ⟨typing', ha', h'⟩ := declares_of_goes hgoes
  obtain ⟨back, hback, u, hgoes⟩ := goes_of_declares h ha
  have hle : front'.length ≤ front.length := Nat.le_of_not_lt fun hlt => hnone front back hback hlt u hgoes
  have hlength := hle.antisymm (hfirst front' typing' _ h' ha')
  obtain ⟨rfl, -⟩ := List.append_inj hback hlength
  exact rest_unique h' ha' h ha

theorem map_config_parse (url source : String) :
    (View.parse url source).map View.config = View.readConfig url source.toList := by
  rw [View.parse]
  cases View.readConfig url source.toList <;> rfl

theorem readConfig_of_found {url : String} (h : View.configExport.search? source = some t) :
    View.readConfig url source = (settingsAt url t.rest).map some := by
  rw [View.readConfig, h, settingsAt]
  dsimp only
  cases Literal.parsePrefix (String.ofList t.rest) with
  | error e => rfl
  | ok r =>
    obtain ⟨l, n⟩ := r
    dsimp only
    cases ViewConfig.decode l.toJson <;> rfl

theorem readConfig_eq_none_iff (url : String) (source : List Char) :
    View.readConfig url source = .ok none ↔ View.configExport.search? source = none := by
  constructor
  · intro hread
    by_contra hsome
    obtain ⟨t, ht⟩ := Option.ne_none_iff_exists'.mp hsome
    rw [readConfig_of_found ht] at hread
    cases hsettings : settingsAt url t.rest <;> rw [hsettings] at hread <;> cases hread
  · intro hnone
    rw [View.readConfig, hnone]

/-- The settings of a view are those behind the first line that declares them, with no type or one that
is a single name; without such a line there are none. -/
theorem parse_config (url source : String) :
    ((View.parse url source).map View.config = .ok none ↔
      ∀ before typing rest,
        Declares source.toList before typing rest → ¬ Typing typing) ∧
    ∀ before typing rest,
      Declares source.toList before typing rest → Typing typing →
      (∀ before' typing' rest', Declares source.toList before' typing' rest' →
        Typing typing' → before.length ≤ before'.length) →
      (View.parse url source).map View.config = (settingsAt url rest).map some := by
  rw [map_config_parse]
  refine ⟨(readConfig_eq_none_iff url _).trans search?_eq_none_iff, fun before typing rest h ha hfirst => ?_⟩
  obtain ⟨t, ht, rfl⟩ := search?_of_first h ha hfirst
  exact readConfig_of_found ht

/-- A constant whose type is more than a name is passed over, and the view is open to all. -/
theorem record_ignored :
    let source := "export const config: Record<string, unknown> = { loginRequired: true };"
    Declares source.toList [] ": Record<string, unknown> ".toList " { loginRequired: true };".toList ∧
      (View.parse "views/admin.tsx" source).map View.config = .ok none := by
  intro source
  have hspace : Blanks [' '] ∧ [' '] ≠ [] := ⟨List.forall_mem_singleton.mpr (by decide), by decide⟩
  refine ⟨⟨nofun, [], [' '], [' '], nofun, hspace, hspace, by decide⟩, ?_⟩
  rw [map_config_parse, readConfig_eq_none_iff]
  decide +kernel

end TypedClient.Proofs.ConfigDeclarations
