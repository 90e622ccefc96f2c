import Mathlib.Data.List.TakeWhile
import TypedClient.Path.Relative
import TypedClient.Proofs.Path.Ancestors
import TypedClient.Proofs.Path.Joining

namespace TypedClient.Proofs.Parent

open TypedClient.Text TypedClient.Path
open TypedClient.Proofs.Ancestors TypedClient.Proofs.Joining TypedClient.Proofs.Pieces

variable {p q : String}

def backwards (cs : List Char) : String :=
  String.ofList cs.reverse

theorem backwards_append (cs ds : List Char) : backwards (cs ++ ds) = backwards ds ++ backwards cs := by
  simp [backwards]

theorem backwards_reverse (s : String) : backwards s.toList.reverse = s := by
  simp [backwards]

theorem inner_slash (s : String) : inner (pieces '/' (s ++ "/")) = inner (pieces '/' s) := by
  rw [pieces_append_slash, inner_append, inner_empty, List.append_nil]

theorem inner_dropEmptyNames (cs : List Char) :
    inner (pieces '/' (backwards (dropEmptyNames cs))) = inner (pieces '/' (backwards cs)) := by
  induction cs using dropEmptyNames.induct with
  | case1 cs ih =>
    have hslash : backwards ('/' :: cs) = backwards cs ++ "/" := backwards_append ['/'] cs
    rw [dropEmptyNames, ih, hslash, inner_slash]
  | case2 cs ih =>
    have hdot : backwards ('.' :: '/' :: cs) = (backwards cs ++ "/") ++ "." := by
      rw [String.append_assoc]
      exact backwards_append ['.', '/'] cs
    have hpiece : pieces '/' "." = ["."] := by decide
    have hskip : inner ["" ++ "."] = [] := rfl
    rw [dropEmptyNames, ih, hdot, pieces_append (pieces_append_slash _) hpiece, inner_append, hskip,
      List.append_nil]
  | case3 cs hslash hdot => rw [dropEmptyNames.eq_3 cs hslash hdot]

theorem dropEmptyNames_ne_dot (cs ds : List Char) : dropEmptyNames cs ≠ '.' :: '/' :: ds := by
  induction cs using dropEmptyNames.induct with
  | case1 cs ih | case2 cs ih => rwa [dropEmptyNames]
  | case3 cs hslash hdot =>
    rw [dropEmptyNames.eq_3 cs hslash hdot]
    exact hdot ds

theorem length_inner_le (ps : List String) : (inner ps).length ≤ ps.length :=
  List.length_filterMap_le _ ps

theorem inner_dropWhile {cs : List Char} (hslash : cs.head? ≠ some '/')
    (hdot : ∀ ds, cs ≠ '.' :: '/' :: ds) :
    inner (pieces '/' (backwards (cs.dropWhile (· ≠ '/')))) =
      (inner (pieces '/' (backwards cs))).dropLast := by
  have hparts : cs.takeWhile (· ≠ '/') ++ cs.dropWhile (· ≠ '/') = cs :=
    List.takeWhile_append_dropWhile
  have hfirst := List.head?_dropWhile_not (· ≠ '/') cs
  have hname : '/' ∉ cs.takeWhile (· ≠ '/') := fun h => by simpa using List.mem_takeWhile_imp h
  generalize cs.takeWhile (· ≠ '/') = name at hparts hname
  generalize cs.dropWhile (· ≠ '/') = front at hparts hfirst
  have hlast : pieces '/' (backwards name) = [backwards name] :=
    pieces_eq_singleton (by simpa [backwards] using hname)
  cases front with
  | nil =>
    rw [← hparts, List.append_nil, hlast]
    have hlen := length_inner_le [backwards name]
    refine (List.eq_nil_of_length_eq_zero ?_).symm
    rw [List.length_dropLast]
    exact Nat.sub_eq_zero_of_le hlen
  | cons c front =>
    obtain rfl : c = '/' := by simpa using hfirst
    have hfront : backwards ('/' :: front) = backwards front ++ "/" := backwards_append ['/'] front
    have hpiece : ∃ c, inner [backwards name] = [c] := by
      have hempty : backwards name ≠ "" := by
        rw [backwards, ne_eq, String.ofList_eq_empty_iff, List.reverse_eq_nil_iff]
        rintro rfl
        exact hslash (by rw [← hparts]; rfl)
      have hhere : backwards name ≠ "." := by
        rw [backwards, ne_eq, ← String.toList_inj, String.toList_ofList, List.reverse_eq_iff]
        rintro rfl
        exact hdot front hparts.symm
      by_cases hup : backwards name = ".."
      · exact ⟨.up, by rw [hup]; rfl⟩
      · exact ⟨.name (backwards name), by simp [Joining.inner, Component.ofPiece?, hempty, hhere, hup]⟩
    obtain ⟨c, hc⟩ := hpiece
    rw [← hparts, backwards_append, hfront, inner_slash,
      pieces_append (pieces_append_slash _) hlast, inner_append, String.empty_append, hc,
      List.dropLast_concat]

theorem inner_parent? (h : parent? p = some q) :
    inner (pieces '/' q) = (inner (pieces '/' p)).dropLast := by
  rw [← backwards_reverse p, ← inner_dropEmptyNames, ← inner_dropWhile (head?_dropEmptyNames _)
    (dropEmptyNames_ne_dot _)]
  rw [parent?] at h
  split at h
  · cases h
  · cases h
  dsimp only at h
  rw [← inner_dropEmptyNames]
  split at h
  · rename_i hnone
    rw [hnone]
    obtain rfl := Option.some.inj h
    split <;> rfl
  · obtain rfl := Option.some.inj h
    rfl

theorem ne_root_of_mem_inner {ps : List String} {c : Component} (h : c ∈ inner ps) : c ≠ .root := by
  obtain ⟨s, -, hs⟩ := List.mem_filterMap.mp h
  rintro rfl
  unfold Component.ofPiece? at hs
  split_ifs at hs <;> cases hs

theorem exists_parent? (h : inner (pieces '/' p) ≠ []) : ∃ q, parent? p = some q := by
  have hlast : (components p).getLast? = some ((inner (pieces '/' p)).getLast h) := by
    rw [components_eq, List.getLast?_append, List.getLast?_eq_getLast_of_ne_nil h, Option.some_or]
  have hroot := ne_root_of_mem_inner (List.getLast_mem h)
  rw [parent?, hlast]
  split
  · rename_i h
    cases h
  · rename_i h
    exact absurd (Option.some.inj h) hroot
  · dsimp only
    split <;> exact ⟨_, rfl⟩

theorem isAbsolute_parent? (habs : isAbsolute p = true) (h : parent? p = some q) :
    isAbsolute q = true := by
  obtain rfl | rfl | hbelow := above_of_parent? h
  · exfalso
    rw [parent?, habs] at h
    split at h
    · cases h
    · cases h
    dsimp only at h
    split at h
    · exact absurd h (by decide)
    · rename_i hne
      rw [Option.some.injEq, String.ofList_eq_empty_iff, List.reverse_eq_nil_iff] at h
      exact hne h
  · decide
  · rwa [← isAbsolute_of_below hbelow]

theorem inner_join (hq : isAbsolute q = false) (p : String) :
    inner (pieces '/' (join p q)) = inner (pieces '/' p) ++ inner (pieces '/' q) := by
  have hslash : ∀ front : String,
      inner (pieces '/' (front ++ "/" ++ q)) = inner (pieces '/' front) ++ inner (pieces '/' q) := by
    intro front
    obtain ⟨r, rs, hr⟩ := List.exists_cons_of_ne_nil (pieces_ne_nil '/' q)
    rw [pieces_append (pieces_append_slash front) hr, String.empty_append, ← hr, inner_append]
  rw [join, hq, if_neg Bool.false_ne_true]
  by_cases hempty : p = ""
  · have hnone : inner (pieces '/' "") = [] := rfl
    rw [if_pos (by simp [hempty]), hempty, String.empty_append, hnone, List.nil_append]
  by_cases hend : endsWith "/" p = true
  · obtain ⟨front, rfl⟩ := endsWith_iff.mp hend
    rw [if_pos (by simp [hend]), hslash, inner_slash]
  · rw [if_neg (by simp [hend, hempty]), hslash]

theorem isAbsolute_join (hp : isAbsolute p = true) (q : String) : isAbsolute (join p q) = true := by
  have hne : p ≠ "" := by
    rintro rfl
    cases hp
  rw [join]
  split
  · assumption
  split
  · rwa [isAbsolute_append_of_ne hne]
  · rwa [String.append_assoc, isAbsolute_append_of_ne hne]

def stepNames (p : String) : List String :=
  (components p).filterMap Component.step?

theorem stepNames_eq (p : String) :
    stepNames p = (inner (pieces '/' p)).filterMap Component.step? := by
  rw [stepNames, components_eq, List.filterMap_append]
  have hleading : (leading (isAbsolute p) (pieces '/' p).head?).filterMap Component.step? = [] := by
    unfold leading
    split_ifs <;> rfl
  rw [hleading, List.nil_append]

theorem step?_of_mem_inner {ps : List String} {c : Component} (h : c ∈ inner ps) :
    ∃ s ∈ ps, c.step? = some s ∧ s ≠ "" ∧ s ≠ "." ∧ (s = ".." → c = .up) := by
  obtain ⟨s, hs, hc⟩ := List.mem_filterMap.mp h
  unfold Component.ofPiece? at hc
  split_ifs at hc with hempty hup
  · obtain rfl := Option.some.inj hc
    exact ⟨s, hs, by rw [hup]; rfl, by simp [hup], by simp [hup], fun _ => rfl⟩
  · obtain rfl := Option.some.inj hc
    simp only [Bool.or_eq_true, decide_eq_true_eq, not_or] at hempty
    exact ⟨s, hs, rfl, hempty.1, hempty.2, fun h => absurd h hup⟩

theorem mem_stepNames {n : String} (h : n ∈ stepNames p) :
    n ≠ "" ∧ n ≠ "." ∧ '/' ∉ n.toList ∧ (n = ".." → .up ∈ components p) := by
  rw [stepNames_eq] at h
  obtain ⟨c, hc, hn⟩ := List.mem_filterMap.mp h
  obtain ⟨s, hs, hstep, hempty, hhere, hup⟩ := step?_of_mem_inner hc
  obtain rfl := Option.some.inj (hn.symm.trans hstep)
  refine ⟨hempty, hhere, not_mem_of_mem_pieces hs, fun h => ?_⟩
  rw [components_eq]
  exact List.mem_append_right _ (hup h ▸ hc)

theorem stepNames_parent? (h : parent? p = some q) : stepNames q = (stepNames p).dropLast := by
  have hall : ∀ cs : List Component, (∀ c ∈ cs, ∃ s, c.step? = some s) →
      cs.dropLast.filterMap Component.step? = (cs.filterMap Component.step?).dropLast := by
    intro cs hcs
    obtain rfl | ⟨front, c, rfl⟩ := List.eq_nil_or_concat' cs
    · rfl
    · obtain ⟨s, hs⟩ := hcs c (by simp)
      simp [List.filterMap_append, hs]
  rw [stepNames_eq, stepNames_eq, inner_parent? h]
  refine hall _ fun c hc => ?_
  obtain ⟨s, -, hs, -⟩ := step?_of_mem_inner hc
  exact ⟨s, hs⟩

theorem stepNames_join (hq : isAbsolute q = false) (p : String) :
    stepNames (join p q) = stepNames p ++ stepNames q := by
  rw [stepNames_eq, stepNames_eq, stepNames_eq, inner_join hq, List.filterMap_append]

end TypedClient.Proofs.Parent
