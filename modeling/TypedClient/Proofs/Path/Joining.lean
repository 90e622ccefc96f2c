import TypedClient.Path.Basic
import TypedClient.Proofs.Text.Pieces

namespace TypedClient.Proofs.Joining

open TypedClient.Text TypedClient.Path TypedClient.Proofs.Pieces

variable {p root : String} {names : List String}

def StaysBelow (p : String) : Prop :=
  ∀ root, ∃ names, names ≠ [] ∧
    components (join root p) = components root ++ names.map Component.name

/-- The component in front of the names of a path that is absolute or begins with `first`. -/
def leading (absolute : Bool) (first : Option String) : List Component :=
  if absolute then [.root] else if first = some "." then [.here] else []

def inner (ps : List String) : List Component :=
  ps.filterMap Component.ofPiece?

theorem components_eq (p : String) :
    components p = leading (isAbsolute p) (pieces '/' p).head? ++ inner (pieces '/' p) := by
  unfold components leading inner
  dsimp only
  cases isAbsolute p with
  | true => rfl
  | false =>
    rw [if_neg Bool.false_ne_true, if_neg Bool.false_ne_true]
    split <;> rfl

theorem inner_append (ps qs : List String) : inner (ps ++ qs) = inner ps ++ inner qs :=
  List.filterMap_append

theorem inner_empty : inner [""] = [] := rfl

theorem isAbsolute_iff : isAbsolute p = true ↔ ∃ cs, p.toList = '/' :: cs := by
  rw [isAbsolute, startsWith, List.isPrefixOf_iff_prefix]
  constructor
  · rintro ⟨cs, hcs⟩
    exact ⟨cs, hcs.symm⟩
  · rintro ⟨cs, hcs⟩
    exact ⟨cs, hcs.symm⟩

theorem isAbsolute_append_of_ne (h : root ≠ "") (p : String) :
    isAbsolute (root ++ p) = isAbsolute root := by
  obtain ⟨c, cs, hc⟩ := List.exists_cons_of_ne_nil (String.toList_eq_nil_iff.not.mpr h)
  simp [isAbsolute, startsWith, hc, List.isPrefixOf]

/-- Where two paths meet in a slash, the names of the second follow those of the first. -/
theorem components_append {ps : List String} (hps : ps ≠ [])
    (hroot : pieces '/' root = ps ++ [""]) (p : String) :
    components (root ++ p) = components root ++ inner (pieces '/' p) := by
  obtain ⟨q, qs, hp⟩ := List.exists_cons_of_ne_nil (pieces_ne_nil '/' p)
  have happ : pieces '/' (root ++ p) = ps ++ pieces '/' p := by
    rw [pieces_append hroot hp, String.empty_append, hp]
  have hne : root ≠ "" := by
    rintro rfl
    have hempty : pieces '/' "" = [] ++ [""] := rfl
    exact hps (List.append_inj' (hroot.symm.trans hempty) rfl).1
  rw [components_eq, components_eq, isAbsolute_append_of_ne hne, happ, hroot,
    List.head?_append_of_ne_nil _ hps, List.head?_append_of_ne_nil _ hps, inner_append,
    inner_append, inner_empty, List.append_nil, List.append_assoc]

theorem components_append_slash (h : root ≠ "") : components (root ++ "/") = components root := by
  rw [components_eq, components_eq, isAbsolute_append_of_ne h, pieces_append_slash, inner_append,
    List.head?_append_of_ne_nil _ (pieces_ne_nil '/' root), inner_empty, List.append_nil]

theorem relative_of_names (h : components p = names.map .name) :
    isAbsolute p = false ∧ inner (pieces '/' p) = names.map .name := by
  rw [components_eq] at h
  cases habs : isAbsolute p with
  | true =>
    rw [habs] at h
    cases names <;> cases h
  | false =>
    refine ⟨rfl, ?_⟩
    rw [habs, leading, if_neg Bool.false_ne_true] at h
    split at h
    · cases names <;> cases h
    · exact h

theorem components_join (h : components p = names.map .name) (root : String) :
    components (join root p) = components root ++ names.map .name := by
  obtain ⟨hrelative, hinner⟩ := relative_of_names h
  have hslash : ∀ front : String,
      components (front ++ "/" ++ p) = components (front ++ "/") ++ names.map .name := by
    intro front
    rw [components_append (pieces_ne_nil '/' front) (pieces_append_slash front), hinner]
  rw [join, hrelative, if_neg Bool.false_ne_true]
  by_cases hempty : root = ""
  · rw [if_pos (by simp [hempty]), hempty, String.empty_append]
    exact h
  by_cases hend : endsWith "/" root = true
  · obtain ⟨front, rfl⟩ := endsWith_iff.mp hend
    rw [if_pos (by simp [hend])]
    exact hslash front
  · rw [if_neg (by simp [hend, hempty]), hslash root, components_append_slash hempty]

theorem staysBelow_iff : StaysBelow p ↔ ∃ names, names ≠ [] ∧ components p = names.map .name := by
  constructor
  · intro h
    have hjoin : join "" p = p := by
      rw [join]
      split
      · rfl
      · rw [if_pos (by simp), String.empty_append]
    obtain ⟨names, hne, hnames⟩ := h ""
    rw [hjoin] at hnames
    exact ⟨names, hne, hnames⟩
  · rintro ⟨names, hne, hnames⟩ root
    exact ⟨names, hne, components_join hnames root⟩

theorem StaysBelow.relative (h : StaysBelow p) : isAbsolute p = false := by
  obtain ⟨names, -, hnames⟩ := staysBelow_iff.mp h
  exact (relative_of_names hnames).1

def IsStep (s : String) : Prop :=
  s ≠ "" ∧ '/' ∉ s.toList

instance (s : String) : Decidable (IsStep s) :=
  inferInstanceAs (Decidable (_ ∧ _))

theorem IsStep.relative (h : IsStep p) : isAbsolute p = false := by
  obtain ⟨c, cs, hc⟩ := List.exists_cons_of_ne_nil (String.toList_eq_nil_iff.not.mpr h.1)
  have hslash := h.2
  rw [hc, List.mem_cons, not_or] at hslash
  simp [isAbsolute, startsWith, hc, List.isPrefixOf, hslash.1]

theorem exists_pieces_join (root : String) :
    ∃ ps, ∀ s, IsStep s → pieces '/' (join root s) = ps ++ [s] := by
  by_cases hempty : root = ""
  · refine ⟨[], fun s hs => ?_⟩
    rw [join, hs.relative, if_neg Bool.false_ne_true, if_pos (by simp [hempty]), hempty,
      String.empty_append, pieces_eq_singleton hs.2, List.nil_append]
  by_cases hend : endsWith "/" root = true
  · obtain ⟨front, rfl⟩ := endsWith_iff.mp hend
    refine ⟨pieces '/' front, fun s hs => ?_⟩
    rw [join, hs.relative, if_neg Bool.false_ne_true, if_pos (by simp [hend]),
      pieces_append (pieces_append_slash front) (pieces_eq_singleton hs.2), String.empty_append]
  · refine ⟨pieces '/' root, fun s hs => ?_⟩
    rw [join, hs.relative, if_neg Bool.false_ne_true, if_neg (by simp [hend, hempty]),
      pieces_append (pieces_append_slash root) (pieces_eq_singleton hs.2), String.empty_append]

theorem pieces_foldl_join {q : String} {qs steps : List String} (hsteps : ∀ s ∈ steps, IsStep s)
    (hq : q ≠ "") (hp : pieces '/' p = qs ++ [q]) :
    pieces '/' (steps.foldl join p) = qs ++ q :: steps := by
  induction steps generalizing p q qs with
  | nil => exact hp
  | cons s steps ih =>
    rw [List.forall_mem_cons] at hsteps
    have hempty : p ≠ "" := by
      rintro rfl
      have hnone : pieces '/' "" = [] ++ [""] := rfl
      exact hq (List.singleton_inj.mp (List.append_inj' (hp.symm.trans hnone) rfl).2)
    have hend : endsWith "/" p = false := by
      rw [Bool.eq_false_iff]
      intro hend
      obtain ⟨front, rfl⟩ := endsWith_iff.mp hend
      rw [pieces_append_slash] at hp
      exact hq (List.singleton_inj.mp (List.append_inj' hp rfl).2).symm
    have hjoin : pieces '/' (join p s) = (qs ++ [q]) ++ [s] := by
      rw [join, hsteps.1.relative, if_neg Bool.false_ne_true, if_neg (by simp [hend, hempty]),
        pieces_append (pieces_append_slash p) (pieces_eq_singleton hsteps.1.2), String.empty_append,
        hp]
    rw [List.foldl_cons, ih hsteps.2 hsteps.1.1 hjoin, List.append_assoc, List.singleton_append]

theorem foldl_join_inj {s s' : String} {steps steps' : List String}
    (hsteps : ∀ r ∈ s :: steps, IsStep r) (hsteps' : ∀ r ∈ s' :: steps', IsStep r)
    (h : (s :: steps).foldl join root = (s' :: steps').foldl join root) :
    s = s' ∧ steps = steps' := by
  obtain ⟨ps, hps⟩ := exists_pieces_join root
  rw [List.forall_mem_cons] at hsteps hsteps'
  have heq := congrArg (pieces '/') h
  rw [List.foldl_cons, List.foldl_cons, pieces_foldl_join hsteps.2 hsteps.1.1 (hps s hsteps.1),
    pieces_foldl_join hsteps'.2 hsteps'.1.1 (hps s' hsteps'.1)] at heq
  exact List.cons.inj (List.append_cancel_left heq)

end TypedClient.Proofs.Joining
