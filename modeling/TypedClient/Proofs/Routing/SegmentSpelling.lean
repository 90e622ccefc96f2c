import TypedClient.Proofs.Text.RegexMatches
import TypedClient.Routing.Segment

namespace TypedClient.Routing.Segment

def bracketed (c : Char) : Char :=
  if c = '{' then '[' else if c = '}' then ']' else c

end TypedClient.Routing.Segment

namespace TypedClient.Proofs.SegmentSpelling

open TypedClient.Text TypedClient.Text.Regex TypedClient.Routing TypedClient.Routing.Segment
open TypedClient.Proofs.RegexMatches

variable {left right before after cs : List Char} {opening closing : Char} {s t : Cursor}
  {name name' : String}

theorem goes_marked (h : Goes (marked left right opening closing) s t) : ∃ w, closing ∉ w ∧
    s.rest = left ++ w ++ right ++ t.rest ∧ (t.group? 1).map Span.text = some w := by
  cases h with
  | @seq _ _ _ u _ hleft h =>
    cases h with
    | seq hgroup h =>
      cases h with
      | seq hright h =>
        cases h
        cases hgroup with
        | @group _ _ _ v hname =>
          obtain ⟨hu, -⟩ := goes_text hleft
          obtain ⟨w, -, hw, hv, -⟩ := goes_some hname
          obtain ⟨ht, hgroups⟩ := goes_text hright
          have ht : v.rest = right ++ t.rest := ht
          have hclosing : closing ∉ w := fun hmem => by simpa using hw closing hmem
          refine ⟨w, hclosing, by rw [hu, hv, ht]; simp, ?_⟩
          rw [Cursor.group?, hgroups]
          simp [Span.text, hv]

theorem map_exchange (hbefore : before.map bracketed = left.map bracketed)
    (hafter : after.map bracketed = right.map bracketed) (cs : List Char) :
    (exchange (marked left right opening closing) before after cs).map bracketed =
      cs.map bracketed := by
  refine map_replaceAll (fun s t h => ?_) cs
  obtain ⟨w, -, hw, hname⟩ := goes_marked h
  refine ⟨left ++ w ++ right, hw, ?_⟩
  rw [hname]
  simp only [List.map_append, hbefore, hafter, Option.getD_some]

theorem map_normalizeChars (cs : List Char) :
    (normalizeChars cs).map bracketed = cs.map bracketed := by
  rw [normalizeChars, map_exchange (by decide) (by decide), map_exchange (by decide) (by decide),
    map_exchange (by decide) (by decide)]

theorem spelled_alike (h : Segment.normalize name = Segment.normalize name') :
    name.toList.map bracketed = name'.toList.map bracketed := by
  have hchars : normalizeChars name.toList = normalizeChars name'.toList := String.ofList_injective h
  rw [← map_normalizeChars, hchars, map_normalizeChars]

end TypedClient.Proofs.SegmentSpelling
