import TypedClient.Proofs.Path.Specifier
import TypedClient.Schema.Reference

namespace TypedClient.Proofs.Location

open TypedClient.Text TypedClient.Proofs.Pieces TypedClient.Proofs.Specifier

/-- A name of parts between points, none of them empty or with a slash. -/
def Proper (name : String) : Prop :=
  ∀ part ∈ pieces '.' name, part ≠ "" ∧ '/' ∉ part.toList

instance (name : String) : Decidable (Proper name) :=
  inferInstanceAs (Decidable (∀ part ∈ pieces '.' name, _))

def place (c : Char) : Char :=
  if (if c = '$' then '_' else c) = '.' then '/' else if c = '$' then '_' else c

theorem toList_location (r : Reference) : r.location.toList = r.fullName.toList.map place := by
  simp [Reference.location, replaceChar, place, Function.comp_def]

theorem place_cases (c : Char) : place c = '/' ∨ place c = '_' ∨ place c = c := by
  unfold place
  by_cases hd : c = '$'
  · simp [hd]
  · by_cases hp : c = '.' <;> simp [hd, hp]

theorem place_ne_dot (c : Char) : place c ≠ '.' := by
  unfold place
  by_cases hd : c = '$'
  · simp [hd]
  · by_cases hp : c = '.' <;> simp [hd, hp]

theorem place_eq_slash_iff {c : Char} (h : c ≠ '/') : place c = '/' ↔ c = '.' := by
  unfold place
  by_cases hd : c = '$'
  · simp [hd]
  · by_cases hp : c = '.' <;> simp [hd, hp, h]

theorem dot_not_mem_location (r : Reference) : '.' ∉ r.location.toList := by
  rw [toList_location]
  intro h
  obtain ⟨c, -, hc⟩ := List.mem_map.mp h
  exact place_ne_dot c hc

theorem slash_not_mem {name : String} (h : Proper name) : '/' ∉ name.toList := by
  intro hm
  obtain ⟨p, hp, hc⟩ := exists_mem_pieces (d := '.') hm (by decide)
  exact (h p hp).2 hc

theorem pieces_location {r : Reference} (h : Proper r.fullName) :
    pieces '/' r.location =
      (pieces '.' r.fullName).map fun p => String.ofList (p.toList.map place) := by
  have hs : ∀ c ∈ r.fullName.toList, place c = '/' ↔ c = '.' := fun c hc =>
    place_eq_slash_iff fun he => slash_not_mem h (he ▸ hc)
  simp only [pieces, toList_location, splitOn_map place _ hs, List.map_map, Function.comp_def,
    String.toList_ofList]

theorem ne_steps_of_head {n : String} {c : Char} {cs : List Char} (h : n.toList = c :: cs)
    (hc : c ≠ '.') : n ≠ "" ∧ n ≠ "." ∧ n ≠ ".." := by
  refine ⟨?_, ?_, ?_⟩ <;> (rintro rfl; simp_all [eq_comm])

/-- The module of a component is located among plain names, if what is added to its location adds
none but plain ones. -/
theorem plain_location {r : Reference} (h : Proper r.fullName) {suffix : String}
    (hs : Plain (pieces '/' suffix).tail) : Plain (pieces '/' (r.location ++ suffix)) := by
  have hhead : ∀ n ∈ pieces '/' r.location, ∃ c cs, n.toList = c :: cs ∧ c ≠ '.' := by
    intro n hn
    rw [pieces_location h] at hn
    obtain ⟨p, hp, rfl⟩ := List.mem_map.mp hn
    have hne : p.toList ≠ [] := by simpa using (h p hp).1
    obtain ⟨c, cs, hc⟩ := List.exists_cons_of_ne_nil hne
    exact ⟨place c, cs.map place, by simp [hc], place_ne_dot c⟩
  obtain ⟨ps, p, hp⟩ := exists_pieces_eq '/' r.location
  obtain ⟨q, qs, hq⟩ := List.exists_cons_of_ne_nil (pieces_ne_nil '/' suffix)
  rw [hp, List.forall_mem_append] at hhead
  rw [hq, List.tail_cons] at hs
  rw [pieces_append hp hq]
  refine List.forall_mem_append.mpr ⟨fun n hn => ?_, List.forall_mem_cons.mpr ⟨?_, hs⟩⟩
  · obtain ⟨c, cs, hc, hd⟩ := hhead.1 n hn
    exact ne_steps_of_head hc hd
  · obtain ⟨c, cs, hc, hd⟩ := hhead.2 p (by simp)
    have hpq : (p ++ q).toList = c :: (cs ++ q.toList) := by simp [hc]
    exact ne_steps_of_head hpq hd

end TypedClient.Proofs.Location
