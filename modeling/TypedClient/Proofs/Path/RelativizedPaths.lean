import TypedClient.Proofs.Path.ShortestSpecifier
import TypedClient.Proofs.Routing.ViewSpecifiers

namespace TypedClient.Proofs.RelativizedPaths

open TypedClient.Text TypedClient.Path
open TypedClient.Proofs.Joining TypedClient.Proofs.Parent TypedClient.Proofs.Pieces
open TypedClient.Proofs.ShortestSpecifier TypedClient.Proofs.Specifier
open TypedClient.Proofs.ViewSpecifiers

variable {here there rest below : List String} {q : String}

theorem ups_add_downs (h : ∀ n ∈ below, n ≠ "" ∧ n ≠ ".") : ups below + downs below = below.length := by
  induction below with
  | nil => rfl
  | cons n ns ih =>
    rw [List.forall_mem_cons] at h
    have hups : ups (n :: ns) = ups [n] + ups ns := ups_append [n] ns
    have hdowns : downs (n :: ns) = downs [n] + downs ns := downs_append [n] ns
    have hone : ups [n] + downs [n] = 1 := by
      by_cases hup : n = ".."
      · rw [hup]
        rfl
      · simp [ups, downs, h.1, hup]
    rw [hups, hdowns, List.length_cons, ← ih h.2]
    omega

theorem length_foldl_follow_le (hle : here.length ≤ there.length) (rest : List String) :
    (rest.foldl follow here).length ≤ (rest.foldl follow there).length := by
  induction rest generalizing here there with
  | nil => exact hle
  | cons step rest ih =>
    refine ih ?_
    unfold follow
    split_ifs
    · exact hle
    · rw [List.length_dropLast, List.length_dropLast]
      exact Nat.sub_le_sub_right hle 1
    · rw [List.length_append, List.length_append]
      exact Nat.add_le_add_right hle _

/-- A deeper directory stays deeper along a way that does not lead it to the root. -/
theorem length_foldl_follow_lt (hlt : here.length < there.length)
    (hroot : ∀ front, front <+: rest → front.foldl follow there ≠ []) :
    (rest.foldl follow here).length < (rest.foldl follow there).length := by
  induction rest generalizing here there with
  | nil => exact hlt
  | cons step rest ih =>
    have hnext := hroot [step] (List.prefix_append [step] rest)
    rw [List.foldl_cons, List.foldl_nil, ← List.length_pos_iff] at hnext
    refine ih ?_ fun front hfront => hroot (step :: front) (List.cons_prefix_cons.mpr ⟨rfl, hfront⟩)
    unfold follow at hnext ⊢
    split_ifs at hnext ⊢
    · exact hlt
    · rw [List.length_dropLast] at hnext
      rw [List.length_dropLast, List.length_dropLast]
      omega
    · rw [List.length_append, List.length_append]
      exact Nat.add_lt_add_right hlt _

/-- From directories of different depth a way leads to the same place just if it passes the root. -/
theorem foldl_follow_eq_iff (hlt : here.length < there.length) :
    rest.foldl follow here = rest.foldl follow there ↔
      ∃ front, front <+: rest ∧ front.foldl follow there = [] := by
  constructor
  · intro heq
    by_contra hnone
    push Not at hnone
    exact (length_foldl_follow_lt hlt hnone).ne (congrArg List.length heq)
  · rintro ⟨front, ⟨back, rfl⟩, hroot⟩
    have hempty : front.foldl follow here = [] := by
      have hle := length_foldl_follow_le hlt.le front
      rw [hroot, List.length_nil] at hle
      exact List.eq_nil_of_length_eq_zero (Nat.le_zero.mp hle)
    rw [List.foldl_append, List.foldl_append, hempty, hroot]

theorem take_foldl_follow_plain (hplain : Plain below) (there : List String) :
    (below.foldl follow there).take ((below.foldl follow there).length - below.length) = there := by
  rw [foldl_follow_plain hplain, List.length_append, Nat.add_sub_cancel, List.take_left]

/-- Where a way goes up itself, as many steps up as it has lead above where it began. -/
theorem length_take_foldl_follow (hsteps : ∀ n ∈ below, n ≠ "" ∧ n ≠ ".") (hup : ".." ∈ below)
    (there : List String) :
    (below.foldl follow there).length - below.length ≤ there.length - 1 := by
  have hkept := (prefix_of_follow below there).length_le
  have hcount := ups_add_downs hsteps
  have hpos : 0 < ups below := List.count_pos_iff.mpr hup
  rw [List.length_take] at hkept
  omega

/-- After as many steps up as a way has, the same steps lead where they lead from its beginning just
if the way does not go up itself, or if they pass the root. -/
theorem foldl_follow_taken_back_iff (hsteps : ∀ n ∈ below, n ≠ "" ∧ n ≠ ".") (there rest : List String) :
    rest.foldl follow
        ((below.foldl follow there).take ((below.foldl follow there).length - below.length)) =
      rest.foldl follow there ↔
    ".." ∉ below ∨ ∃ front, front <+: rest ∧ front.foldl follow there = [] := by
  by_cases hup : ".." ∈ below
  · have hle := length_take_foldl_follow hsteps hup there
    rw [or_iff_right (not_not_intro hup)]
    by_cases hroot : there = []
    · -- at the root, steps up lead nowhere else
      subst hroot
      rw [Nat.le_zero.mp hle, List.take_zero]
      exact iff_of_true rfl ⟨[], List.nil_prefix, rfl⟩
    · refine foldl_follow_eq_iff ?_
      have hpos := List.length_pos_iff.mpr hroot
      rw [List.length_take]
      omega
  · have hplain : Plain below := fun n hn =>
      ⟨(hsteps n hn).1, (hsteps n hn).2, fun heq => hup (heq ▸ hn)⟩
    rw [take_foldl_follow_plain hplain]
    exact iff_of_true rfl (.inl hup)

theorem filterMap_inner (ps : List String) :
    (Joining.inner ps).filterMap Component.step? = ps.filter fun s => s ≠ "" && s ≠ "." := by
  induction ps with
  | nil => rfl
  | cons s ps ih =>
    have hcons : Joining.inner (s :: ps) = (Component.ofPiece? s).toList ++ Joining.inner ps := by
      rw [Joining.inner, List.filterMap_cons]
      cases Component.ofPiece? s <;> rfl
    rw [hcons, List.filterMap_append, ih, Component.ofPiece?]
    by_cases hempty : s = ""
    · simp [hempty]
    by_cases hhere : s = "."
    · simp [hhere]
    by_cases hup : s = ".." <;> simp [hempty, hhere, hup, Component.step?]

theorem foldl_follow_filter (ps there : List String) :
    (ps.filter fun s => s ≠ "" && s ≠ ".").foldl follow there = ps.foldl follow there := by
  induction ps generalizing there with
  | nil => rfl
  | cons s ps ih =>
    by_cases hstay : s = "" ∨ s = "."
    · have hfollow : follow there s = there := if_pos hstay
      rw [List.filter_cons_of_neg (by simpa [or_iff_not_imp_left] using hstay), ih, List.foldl_cons,
        hfollow]
    · rw [List.filter_cons_of_pos (by simpa using hstay), List.foldl_cons, List.foldl_cons, ih]

theorem place_join (hq : isAbsolute q = false) (p : String) :
    place (join p q) = resolve (place p) q := by
  rw [place, stepNames_join hq, List.foldl_append, stepNames_eq q, filterMap_inner,
    foldl_follow_filter]
  rfl

theorem isAbsolute_ascend (dir goal : List String) : isAbsolute (ascend dir goal) = false := by
  have hpoint : ∀ p, p.toList.head? = some '.' → startsWith p (ascend dir goal) = true →
      isAbsolute (ascend dir goal) = false := by
    intro p hp hstart
    obtain ⟨cs, hcs⟩ := List.head?_eq_some_iff.mp hp
    obtain ⟨rest, hrest⟩ := List.isPrefixOf_iff_prefix.mp hstart
    rw [hcs] at hrest
    rw [isAbsolute, startsWith, ← hrest]
    rfl
  obtain h | h := startsWith_ascend dir goal
  · exact hpoint "./" rfl h
  · exact hpoint "../" rfl h

/-- The relative path of `f` from the directory `d` leads to `f` unless `d` goes up where it does not
share the names of `f`; it also does if `f` passes the root behind the names that both share. -/
theorem relativize_leads_iff (d f : String) :
    ∃ shared below rest, stepNames d = shared ++ below ∧ stepNames f = shared ++ rest ∧
      (∀ p, p <+: stepNames d → p <+: stepNames f → p <+: shared) ∧
      (place (join d (relativize d f)) = place f ↔
        ".." ∉ below ∨ ∃ front, front <+: rest ∧ (shared ++ front).foldl follow [] = []) := by
  obtain ⟨shared, below, rest, hdir, hgoal, hlongest, hlength⟩ :=
    exists_shared (stepNames d) (stepNames f)
  refine ⟨shared, below, rest, hdir, hgoal, hlongest, ?_⟩
  have hbelow : ∀ n ∈ below, n ≠ "" ∧ n ≠ "." := fun n hn => by
    obtain ⟨hempty, hhere, -⟩ := mem_stepNames (hdir ▸ List.mem_append_right shared hn)
    exact ⟨hempty, hhere⟩
  have hslash : ∀ n ∈ stepNames f, '/' ∉ n.toList := fun n hn => (mem_stepNames hn).2.2.1
  have hd : place d = below.foldl follow (shared.foldl follow []) := by
    rw [place, hdir, List.foldl_append]
  have hf : place f = rest.foldl follow (shared.foldl follow []) := by
    rw [place, hgoal, List.foldl_append]
  have hup : (stepNames d).length - common (stepNames d) (stepNames f) = below.length := by
    rw [← hlength, hdir, List.length_append, Nat.add_sub_cancel_left]
  have hdown : (stepNames f).drop (common (stepNames d) (stepNames f)) = rest := by
    rw [← hlength, hgoal, List.drop_left]
  have hspecifier : relativize d f = ascend (stepNames d) (stepNames f) := rfl
  rw [hspecifier, place_join (isAbsolute_ascend _ _), resolve_ascend_from _ _ hslash, hup, hdown, hf,
    hd, foldl_follow_taken_back_iff hbelow]
  simp only [List.foldl_append]

/-- From a directory that goes up behind a name that it does not share, a view is not found. -/
theorem view_not_found :
    isAbsolute "/project/gen/../out" = true ∧ isAbsolute "/project/views/index.js" = true ∧
    relativize "/project/gen/../out" "/project/views/index.js" = "../../../views/index.js" ∧
    place (join "/project/gen/../out" (relativize "/project/gen/../out" "/project/views/index.js")) ≠
      place "/project/views/index.js" := by
  decide

end TypedClient.Proofs.RelativizedPaths
