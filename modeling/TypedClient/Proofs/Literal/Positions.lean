import TypedClient.Proofs.Literal.OffsetReading
import TypedClient.Proofs.Text.RegexChoices
import TypedClient.Routing.View

namespace TypedClient.Proofs.Positions

open TypedClient.Literal TypedClient.Routing TypedClient.Text
open TypedClient.Proofs.LiteralGrammar TypedClient.Proofs.LiteralReading
open TypedClient.Proofs.OffsetReading TypedClient.Proofs.RegexChoices

section Places

variable {s : String} {front rest : List Char} {l : Literal}

theorem slice?_front (h : front ++ rest = s.toList) :
    slice? s 0 (offset s rest) = some (String.ofList front) := by
  have hsuffix : front ++ rest <:+ s.toList := h ▸ List.suffix_refl _
  have hslice := slice?_offset hsuffix
  rwa [h, offset_toList] at hslice

theorem left_readFront_suffix (s : String) : left (readFront s.toList) <:+ s.toList :=
  (follows_front s).left

theorem parse_front (h : readFront s.toList = .ok (l, rest)) :
    ∃ front, front ++ rest = s.toList ∧ parse (String.ofList front) = .ok l := by
  obtain ⟨b, v, hsplit, hb, hv⟩ := (derives _).value h
  refine ⟨b ++ v, hsplit.symm, (parse_iff_element _ l).mpr ?_⟩
  rw [String.toList_ofList, ← List.append_nil (b ++ v)]
  exact .mk hb hv blanks_nil

theorem exists_rest_of_error {e : ReadError} (h : parsePrefix s = .error e ∨ parse s = .error e) :
    ∃ rest, rest <:+ s.toList ∧ e.offset = offset s rest := by
  obtain h | h := h
  · rw [parsePrefix_eq_located] at h
    exact ⟨_, left_readFront_suffix s, located_eq_error h⟩
  · have hwhole := located_wholeReading s
    rw [h] at hwhole
    exact ⟨_, (follows_whole s).left, located_eq_error hwhole⟩

end Places

def scanConfig (url source : String) : Option (Except View.Fault (Option ViewConfig)) :=
  match View.configExport.search? source.toList with
  | none => some (.ok none)
  | some k => do
    let text ← slice? source (offset source k.rest) source.utf8ByteSize
    match ← Scan.parsePrefix text with
    | .error e => return .error (.literal url e)
    | .ok (l, _) => match ViewConfig.decode l.toJson with
      | .error e => return .error (.form url e)
      | .ok c => return .ok (some c)

theorem scanConfig_eq (url source : String) :
    scanConfig url source = some (View.readConfig url source.toList) := by
  rw [scanConfig, View.readConfig]
  cases hfound : View.configExport.search? source.toList with
  | none => rfl
  | some k =>
    dsimp only
    rw [slice?_to_end (suffix_of_search? hfound)]
    simp only [Option.bind_eq_bind, Option.bind_some, scan_parsePrefix]
    cases parsePrefix (String.ofList k.rest) with
    | error e => rfl
    | ok r =>
      dsimp only
      cases ViewConfig.decode r.1.toJson <;> rfl

/-- A literal takes the first bytes of a text up to an end of a character, and these are that literal by
themselves; an error is at an end of a character too. Read by offsets, the front of a text, the whole of it
and the settings in it come out the same, so every slice that is taken on the way exists. -/
theorem positions_sound (s : String) :
    (∀ l n, parsePrefix s = .ok (l, n) →
      n ≤ s.utf8ByteSize ∧ String.Pos.Raw.IsValid s ⟨n⟩ ∧
        ∃ front, slice? s 0 n = some front ∧ parse front = .ok l) ∧
    (∀ e, parsePrefix s = .error e ∨ parse s = .error e →
      e.offset ≤ s.utf8ByteSize ∧ String.Pos.Raw.IsValid s ⟨e.offset⟩) ∧
    Scan.parsePrefix s = some (parsePrefix s) ∧ Scan.parse s = some (parse s) ∧
    ∀ url, scanConfig url s = some (View.readConfig url s.toList) := by
  refine ⟨fun l n h => ?_, fun e h => ?_, scan_parsePrefix s, scan_parse s,
    fun url => scanConfig_eq url s⟩
  · rw [parsePrefix_eq_located] at h
    obtain ⟨hread, rfl⟩ := located_eq_ok h
    obtain ⟨front, hfront, hparse⟩ := parse_front hread
    exact ⟨offset_le s _, isValid_offset (left_readFront_suffix s), _, slice?_front hfront, hparse⟩
  · obtain ⟨rest, hrest, hoffset⟩ := exists_rest_of_error h
    rw [hoffset]
    exact ⟨offset_le s rest, isValid_offset hrest⟩

/-- Texts with characters of two and of three bytes: a list that something follows, and an object that is
not closed. -/
theorem accented_positions_sound :
    (∃ l, parsePrefix " ['é', 1.5]…" = .ok (l, 12) ∧
      String.Pos.Raw.IsValid " ['é', 1.5]…" ⟨12⟩ ∧
      ∃ front, slice? " ['é', 1.5]…" 0 12 = some front ∧ parse front = .ok l) ∧
    parse "\x7b a: 'é' €" = .error ⟨.braceExpected, 10⟩ ∧
      String.Pos.Raw.IsValid "\x7b a: 'é' €" ⟨10⟩ := by
  have hmap : (parsePrefix " ['é', 1.5]…").map Prod.snd = .ok 12 := by decide +kernel
  obtain ⟨⟨l, n⟩, hread, rfl⟩ := Outcome.map_eq_ok_iff.mp hmap
  obtain ⟨-, hvalid, hfront⟩ := (positions_sound _).1 l _ hread
  have hunclosed : (parse "\x7b a: 'é' €").map (fun _ => ()) = .error ⟨.braceExpected, 10⟩ := by
    decide +kernel
  have hfault := Outcome.map_eq_error_iff.mp hunclosed
  exact ⟨⟨l, hread, hvalid, hfront⟩, hfault, ((positions_sound _).2.1 _ (.inr hfault)).2⟩

end TypedClient.Proofs.Positions
