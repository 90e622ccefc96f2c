import Mathlib.Data.List.Basic
import TypedClient.Text.Split

namespace TypedClient.Proofs.Pieces

open TypedClient.Text

variable {d : Char} {s t : String} {ps : List String} {p : String}

theorem pieces_ne_nil (d : Char) (s : String) : pieces d s ≠ [] := by
  simp [pieces]

theorem not_mem_of_mem_splitOn (d : Char) (cs : List Char) :
    ∀ l ∈ cs.splitOn d, d ∉ l := by
  induction cs with
  | nil => simp
  | cons c cs ih =>
    rw [List.splitOn_cons_eq_if_modifyHead]
    by_cases h : c = d
    · simpa [h] using ih
    · have hne := List.splitOn_ne_nil d cs
      rw [if_neg (by simpa using h)]
      generalize cs.splitOn d = ls at ih hne
      cases ls with
      | nil => exact absurd rfl hne
      | cons l ls => simpa [Ne.symm h] using ih

theorem not_mem_of_mem_pieces (h : p ∈ pieces d s) : d ∉ p.toList := by
  obtain ⟨l, hl, rfl⟩ := List.mem_map.mp h
  simpa using not_mem_of_mem_splitOn d s.toList l hl

theorem subset_of_mem_splitOn (d : Char) (cs : List Char) : ∀ l ∈ cs.splitOn d, l ⊆ cs := by
  induction cs with
  | nil => simp
  | cons c cs ih =>
    rw [List.splitOn_cons_eq_if_modifyHead]
    have hne := List.splitOn_ne_nil d cs
    generalize cs.splitOn d = ls at ih hne
    cases ls with
    | nil => exact absurd rfl hne
    | cons m ms =>
      rw [List.forall_mem_cons] at ih
      have htail : ∀ l ∈ ms, l ⊆ c :: cs := fun l hl => List.subset_cons_of_subset c (ih.2 l hl)
      split
      · exact List.forall_mem_cons.mpr ⟨List.nil_subset _,
          List.forall_mem_cons.mpr ⟨List.subset_cons_of_subset c ih.1, htail⟩⟩
      · exact List.forall_mem_cons.mpr ⟨List.cons_subset_cons c ih.1, htail⟩

theorem mem_of_mem_pieces {c : Char} (hp : p ∈ pieces d s) (hc : c ∈ p.toList) : c ∈ s.toList := by
  obtain ⟨l, hl, rfl⟩ := List.mem_map.mp hp
  exact subset_of_mem_splitOn d s.toList l hl (by simpa using hc)

theorem exists_mem_splitOn {c : Char} (cs : List Char) (hc : c ∈ cs) (hd : c ≠ d) :
    ∃ l ∈ cs.splitOn d, c ∈ l := by
  induction cs with
  | nil => simp at hc
  | cons b cs ih =>
    have hne := List.splitOn_ne_nil d cs
    rw [List.splitOn_cons_eq_if_modifyHead]
    generalize cs.splitOn d = ls at ih hne
    obtain rfl | hc := List.mem_cons.mp hc
    · rw [if_neg (by simpa using hd)]
      cases ls with
      | nil => exact absurd rfl hne
      | cons l ls => exact ⟨c :: l, by simp, by simp⟩
    · obtain ⟨l, hl, hcl⟩ := ih hc
      split
      · exact ⟨l, List.mem_cons_of_mem _ hl, hcl⟩
      · cases ls with
        | nil => exact absurd rfl hne
        | cons m ms =>
          obtain rfl | hl := List.mem_cons.mp hl
          · exact ⟨b :: l, by simp, List.mem_cons_of_mem b hcl⟩
          · exact ⟨l, by simp [hl], hcl⟩

theorem exists_mem_pieces {c : Char} (hc : c ∈ s.toList) (hd : c ≠ d) :
    ∃ p ∈ pieces d s, c ∈ p.toList := by
  obtain ⟨l, hl, hcl⟩ := exists_mem_splitOn s.toList hc hd
  exact ⟨String.ofList l, List.mem_map_of_mem hl, by simpa using hcl⟩

theorem intercalate_pieces (d : Char) (s : String) :
    (String.singleton d).intercalate (pieces d s) = s := by
  have hl : ((String.singleton d).intercalate (pieces d s)).toList = s.toList := by
    simp [pieces, Function.comp_def]
  exact String.toList_inj.mp hl

theorem pieces_eq_singleton (h : d ∉ s.toList) : pieces d s = [s] := by
  rw [pieces, List.splitOn_eq_singleton h]
  simp

theorem pieces_intercalate (hp : ∀ p ∈ ps, d ∉ p.toList) (hne : ps ≠ []) :
    pieces d ((String.singleton d).intercalate ps) = ps := by
  have hs : (ps.map String.toList) ≠ [] := by simpa using hne
  rw [pieces, String.toList_intercalate, String.toList_singleton,
    List.splitOn_intercalate d (by simpa using hp) hs]
  simp [Function.comp_def]

theorem pieces_eq_iff (hp : ∀ p ∈ ps, d ∉ p.toList) (hne : ps ≠ []) :
    pieces d s = ps ↔ s = (String.singleton d).intercalate ps := by
  constructor
  · rintro rfl
    exact (intercalate_pieces d s).symm
  · rintro rfl
    exact pieces_intercalate hp hne

theorem intercalate_append (d : String) (ps : List String) (p q : String) (qs : List String) :
    d.intercalate (ps ++ [p]) ++ d.intercalate (q :: qs) =
      d.intercalate (ps ++ (p ++ q) :: qs) := by
  induction ps with
  | nil => simp
  | cons r rs ih =>
    rw [List.cons_append, List.cons_append,
      String.intercalate_cons_of_ne_nil (List.append_ne_nil_of_right_ne_nil rs (List.cons_ne_nil p [])),
      String.intercalate_cons_of_ne_nil (List.append_ne_nil_of_right_ne_nil rs (List.cons_ne_nil _ qs)),
      ← ih]
    simp only [String.append_assoc]

theorem pieces_append {q : String} {qs : List String} (hs : pieces d s = ps ++ [p])
    (ht : pieces d t = q :: qs) : pieces d (s ++ t) = ps ++ (p ++ q) :: qs := by
  have hmem : ∀ r ∈ ps ++ [p], d ∉ r.toList := fun r hr => not_mem_of_mem_pieces (hs ▸ hr)
  have hmem' : ∀ r ∈ q :: qs, d ∉ r.toList := fun r hr => not_mem_of_mem_pieces (ht ▸ hr)
  rw [List.forall_mem_append] at hmem
  rw [List.forall_mem_cons] at hmem'
  have hp : d ∉ (p ++ q).toList := by simp [hmem.2 p (by simp), hmem'.1]
  rw [pieces_eq_iff (List.forall_mem_append.mpr ⟨hmem.1, List.forall_mem_cons.mpr ⟨hp, hmem'.2⟩⟩)
    (by simp), ← intercalate_append, ← hs, ← ht, intercalate_pieces, intercalate_pieces]

theorem pieces_append_separator (h : d ∉ p.toList) (s : String) :
    pieces d (p ++ String.singleton d ++ s) = p :: pieces d s := by
  simp only [pieces, String.toList_append, String.toList_singleton, List.append_assoc,
    List.singleton_append, List.splitOn_append_cons_self_of_not_mem h, List.map_cons,
    String.ofList_toList]

theorem exists_pieces_eq (d : Char) (s : String) : ∃ ps p, pieces d s = ps ++ [p] :=
  ⟨_, _, (List.dropLast_append_getLast (pieces_ne_nil d s)).symm⟩

theorem pieces_append_slash (s : String) : pieces '/' (s ++ "/") = pieces '/' s ++ [""] := by
  have hslash : pieces '/' "/" = ["", ""] := by decide
  obtain ⟨ps, p, hs⟩ := exists_pieces_eq '/' s
  rw [pieces_append hs hslash, hs, String.append_empty, List.append_assoc]
  rfl

theorem pieces_append_of_not_mem (s : String) (ht : d ∉ t.toList) :
    ∃ ps p, pieces d s = ps ++ [p] ∧ pieces d (s ++ t) = ps ++ [p ++ t] := by
  obtain ⟨ps, p, hs⟩ := exists_pieces_eq d s
  exact ⟨ps, p, hs, pieces_append hs (pieces_eq_singleton ht)⟩

/-- Where only separators become separators, the pieces are replaced one by one. -/
theorem splitOn_map {e : Char} (f : Char → Char) (cs : List Char)
    (h : ∀ c ∈ cs, f c = e ↔ c = d) :
    (cs.map f).splitOn e = (cs.splitOn d).map (List.map f) := by
  induction cs with
  | nil => simp
  | cons c cs ih =>
    rw [List.forall_mem_cons] at h
    rw [List.map_cons, List.splitOn_cons_eq_if_modifyHead, List.splitOn_cons_eq_if_modifyHead,
      ih h.2]
    by_cases hc : c = d
    · rw [if_pos (by simpa using h.1.mpr hc), if_pos (by simpa using hc)]
      simp
    · rw [if_neg (by simpa using mt h.1.mp hc), if_neg (by simpa using hc)]
      cases cs.splitOn d <;> simp

theorem afterPrefix?_eq_some_iff : afterPrefix? p s = some t ↔ s = p ++ t := by
  simp only [afterPrefix?, Option.map_eq_some_iff, List.isPrefixOf?_eq_some_iff_append_eq]
  constructor
  · rintro ⟨cs, h, rfl⟩
    rw [← String.toList_inj, String.toList_append, String.toList_ofList, h]
  · rintro rfl
    exact ⟨t.toList, by simp, by simp⟩

theorem beforeSuffix?_eq_some_iff : beforeSuffix? p s = some t ↔ s = t ++ p := by
  simp only [beforeSuffix?, Option.map_eq_some_iff, List.isSuffixOf?_eq_some_iff_append_eq]
  constructor
  · rintro ⟨cs, h, rfl⟩
    rw [← String.toList_inj, String.toList_append, String.toList_ofList, h]
  · rintro rfl
    exact ⟨t.toList, by simp, by simp⟩

theorem endsWith_iff : endsWith p s = true ↔ ∃ t, s = t ++ p := by
  rw [endsWith, List.isSuffixOf_iff_suffix]
  constructor
  · rintro ⟨cs, hcs⟩
    refine ⟨String.ofList cs, String.toList_inj.mp ?_⟩
    simp only [← hcs, String.toList_append, String.toList_ofList]
  · rintro ⟨t, rfl⟩
    exact ⟨t.toList, by rw [String.toList_append]⟩

end TypedClient.Proofs.Pieces
