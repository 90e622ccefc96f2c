import TypedClient.Path.Basic
import TypedClient.FileTree.Access
import TypedClient.Proofs.Text.Pieces

namespace TypedClient.Proofs.Ancestors

open TypedClient.Text TypedClient.Path TypedClient.FileTree TypedClient.Proofs.Pieces

variable {p q r : String}

structure Below (q p : String) : Prop where
  ne_empty : q ≠ ""
  no_slash : q.toList.getLast? ≠ some '/'
  more : ∃ m, p = q ++ "/" ++ m

theorem Below.trans (h : Below q p) (h' : Below p r) : Below q r := by
  obtain ⟨m, rfl⟩ := h.more
  obtain ⟨m', rfl⟩ := h'.more
  exact ⟨h.ne_empty, h.no_slash, m ++ "/" ++ m', by simp only [String.append_assoc]⟩

def Above (p q : String) : Prop :=
  q = "" ∨ q = "/" ∨ Below q p

theorem dropEmptyNames_suffix (cs : List Char) : dropEmptyNames cs <:+ cs := by
  induction cs using dropEmptyNames.induct with
  | case1 cs ih =>
    rw [dropEmptyNames]
    exact ih.trans (List.suffix_cons _ cs)
  | case2 cs ih =>
    rw [dropEmptyNames]
    exact ih.trans (List.suffix_append ['.', '/'] cs)
  | case3 cs hslash hdot =>
    exact ⟨[], dropEmptyNames.eq_3 cs hslash hdot⟩

theorem dropEmptyNames_slash (cs : List Char) :
    ∃ before, '/' :: cs = before ++ '/' :: dropEmptyNames cs := by
  induction cs using dropEmptyNames.induct with
  | case1 cs ih =>
    obtain ⟨before, h⟩ := ih
    rw [dropEmptyNames]
    exact ⟨'/' :: before, congrArg _ h⟩
  | case2 cs ih =>
    obtain ⟨before, h⟩ := ih
    rw [dropEmptyNames]
    exact ⟨'/' :: '.' :: before, congrArg _ (congrArg _ h)⟩
  | case3 cs hslash hdot =>
    rw [dropEmptyNames.eq_3 cs hslash hdot]
    exact ⟨[], rfl⟩

theorem head?_dropEmptyNames (cs : List Char) : (dropEmptyNames cs).head? ≠ some '/' := by
  induction cs using dropEmptyNames.induct with
  | case1 cs ih | case2 cs ih => rwa [dropEmptyNames]
  | case3 cs hslash hdot =>
    rw [dropEmptyNames.eq_3 cs hslash hdot]
    intro h
    obtain ⟨ds, rfl⟩ := List.head?_eq_some_iff.mp h
    exact hslash ds rfl

theorem above_of_parent? (h : parent? p = some q) : Above p q := by
  rw [parent?] at h
  split at h
  · cases h
  · cases h
  dsimp only at h
  obtain ⟨past, hpast⟩ := dropEmptyNames_suffix p.toList.reverse
  have hname : (dropEmptyNames p.toList.reverse).takeWhile (· ≠ '/') ++
      (dropEmptyNames p.toList.reverse).dropWhile (· ≠ '/') = dropEmptyNames p.toList.reverse :=
    List.takeWhile_append_dropWhile
  have hfirst := List.head?_dropWhile_not (· ≠ '/') (dropEmptyNames p.toList.reverse)
  generalize (dropEmptyNames p.toList.reverse).takeWhile (· ≠ '/') = name at hname
  generalize (dropEmptyNames p.toList.reverse).dropWhile (· ≠ '/') = front at h hname hfirst
  split at h
  · obtain rfl := Option.some.inj h
    split
    · exact .inr (.inl rfl)
    · exact .inl rfl
  rename_i hne
  obtain rfl := Option.some.inj h
  cases front with
  | nil => exact absurd rfl hne
  | cons c cs =>
    obtain rfl : c = '/' := by simpa using hfirst
    rw [dropEmptyNames] at hne ⊢
    obtain ⟨before, hbefore⟩ := dropEmptyNames_slash cs
    have hhead := head?_dropEmptyNames cs
    generalize dropEmptyNames cs = left at *
    have hp : p.toList = left.reverse ++ '/' :: (past ++ name ++ before).reverse := by
      rw [← List.reverse_inj, ← hpast, ← hname, hbefore]
      simp
    refine .inr (.inr ⟨?_, ?_, String.ofList (past ++ name ++ before).reverse, ?_⟩)
    · simpa [← String.toList_inj] using hne
    · simpa using hhead
    · rw [← String.toList_inj, hp]
      simp

theorem not_below (h : Below q p) : p ≠ "" ∧ p ≠ "/" := by
  obtain ⟨m, rfl⟩ := h.more
  have hq := String.length_eq_zero_iff.not.mpr h.ne_empty
  constructor <;>
  · intro he
    have hlen := congrArg String.length he
    simp only [String.length_append] at hlen
    have hslash : "/".length = 1 := rfl
    have hnil : "".length = 0 := rfl
    omega

theorem Above.parent (h : Above p q) (hr : parent? q = some r) : Above p r := by
  obtain rfl | rfl | hr := above_of_parent? hr
  · exact .inl rfl
  · exact .inr (.inl rfl)
  obtain ⟨hne, hroot⟩ := not_below hr
  obtain rfl | rfl | hq := h
  · exact absurd rfl hne
  · exact absurd rfl hroot
  · exact .inr (.inr (hr.trans hq))

theorem above_of_mem_lineage {fuel : Nat} (h : Above p q) : ∀ r ∈ lineage fuel q, Above p r := by
  induction fuel generalizing q with
  | zero => simp [lineage]
  | succ fuel ih =>
    rw [lineage, List.forall_mem_cons]
    refine ⟨h, ?_⟩
    cases hr : parent? q with
    | none => simp
    | some r => exact ih (h.parent hr)

theorem bare_of_below (h : Below q p) : bare q = q := by
  have hkeep : q.toList.reverse.dropWhile (· == '/') = q.toList.reverse := by
    cases hq : q.toList.reverse with
    | nil => rfl
    | cons c cs =>
      have hc : c ≠ '/' := by
        rintro rfl
        exact h.no_slash (by rw [← List.head?_reverse, hq]; rfl)
      rw [List.dropWhile_cons_of_neg (by simpa using hc)]
  rw [bare, trimEnd, hkeep, List.reverse_reverse, String.ofList_toList]
  exact if_neg h.ne_empty

theorem isAbsolute_of_below (h : Below q p) : isAbsolute p = isAbsolute q := by
  obtain ⟨m, rfl⟩ := h.more
  have hq : q.toList ≠ [] := String.toList_eq_nil_iff.not.mpr h.ne_empty
  simp only [isAbsolute, startsWith, String.toList_append]
  cases hcs : q.toList with
  | nil => exact absurd hcs hq
  | cons c cs => simp [List.isPrefixOf]

theorem steps_of_below (h : Below q p) : ∃ rest, steps p = steps q ++ rest := by
  obtain ⟨m, rfl⟩ := h.more
  have hend : endsWith "/" q = false := by
    rw [endsWith, Bool.eq_false_iff, ne_eq, List.isSuffixOf_iff_suffix]
    rintro ⟨front, hfront⟩
    refine h.no_slash ?_
    rw [← hfront]
    exact List.getLast?_concat
  obtain ⟨ps, l, hps⟩ := exists_pieces_eq '/' q
  have hm : pieces '/' ("/" ++ m) = "" :: pieces '/' m :=
    pieces_append_separator (p := "") (by simp) m
  have hpieces := pieces_append hps hm
  rw [String.append_assoc, steps, steps, hpieces, hps, hend, String.append_empty,
    List.append_cons, List.filter_append, List.append_assoc, if_neg Bool.false_ne_true,
    List.append_nil]
  exact ⟨_, rfl⟩

end TypedClient.Proofs.Ancestors
