import TypedClient.Proofs.Path.Specifier

namespace TypedClient.Proofs.ShortestSpecifier

open TypedClient.Text TypedClient.Path TypedClient.Proofs.Pieces TypedClient.Proofs.Specifier

variable {dir goal ns p : List String}

def ups (way : List String) : Nat :=
  way.count ".."

def downs (way : List String) : Nat :=
  way.countP fun s => s ≠ "" && s ≠ "." && s ≠ ".."

@[simp] theorem ups_append (v w : List String) : ups (v ++ w) = ups v + ups w :=
  List.count_append

@[simp] theorem downs_append (v w : List String) : downs (v ++ w) = downs v + downs w :=
  List.countP_append

theorem ups_plain (h : Plain ns) : ups ns = 0 :=
  List.count_eq_zero.mpr fun hup => (h _ hup).2.2 rfl

theorem downs_plain (h : Plain ns) : downs ns = ns.length :=
  List.countP_eq_length.mpr fun n hn => by simp [h n hn]

theorem follow_cases (dir : List String) (step : String) :
    (follow dir step = dir ∧ ups [step] = 0 ∧ downs [step] = 0) ∨
    (follow dir step = dir.dropLast ∧ ups [step] = 1 ∧ downs [step] = 0) ∨
    (follow dir step = dir ++ [step] ∧ ups [step] = 0 ∧ downs [step] = 1) := by
  unfold follow
  split_ifs with hstay hup
  · obtain rfl | rfl := hstay <;> exact .inl ⟨rfl, rfl, rfl⟩
  · subst hup
    exact .inr (.inl ⟨rfl, rfl, rfl⟩)
  · rw [not_or] at hstay
    exact .inr (.inr ⟨rfl, by simp [ups, hup], by simp [downs, hstay, hup]⟩)

theorem take_prefix_follow (way dir : List String) :
    dir.take (dir.length - ups way) <+: way.foldl follow dir := by
  induction way generalizing dir with
  | nil => exact List.take_prefix _ _
  | cons step way ih =>
    have hups : ups (step :: way) = ups [step] + ups way := ups_append [step] way
    have hrest := ih (follow dir step)
    rw [List.foldl_cons, hups]
    refine List.IsPrefix.trans ?_ hrest
    obtain ⟨hf, hu, -⟩ | ⟨hf, hu, -⟩ | ⟨hf, hu, -⟩ := follow_cases dir step <;> rw [hf, hu]
    · simp
    · rw [List.length_dropLast, List.dropLast_eq_take, List.take_take]
      exact List.take_prefix_take_left (by omega)
    · rw [List.length_append, List.take_append, List.length_singleton, Nat.zero_add]
      exact (List.take_prefix_take_left (by omega)).trans (List.prefix_append _ _)

theorem prefix_of_follow (way dir : List String) :
    (way.foldl follow dir).take ((way.foldl follow dir).length - downs way) <+: dir := by
  induction way generalizing dir with
  | nil => exact List.take_prefix _ _
  | cons step way ih =>
    have hdowns : downs (step :: way) = downs [step] + downs way := downs_append [step] way
    have hrest := ih (follow dir step)
    rw [List.foldl_cons, hdowns]
    generalize way.foldl follow (follow dir step) = there at hrest
    obtain ⟨hf, -, hd⟩ | ⟨hf, -, hd⟩ | ⟨hf, -, hd⟩ := follow_cases dir step <;> rw [hf] at hrest <;>
      rw [hd]
    · rwa [Nat.zero_add]
    · rw [Nat.zero_add]
      exact hrest.trans (List.dropLast_prefix dir)
    · -- the name that this step adds can only be the last one that is kept
      have hdrop : there.take (there.length - (1 + downs way)) =
          (there.take (there.length - downs way)).dropLast := by
        rw [List.dropLast_eq_take, List.take_take, List.length_take]
        congr 1
        omega
      rw [hdrop]
      obtain hall | hbefore := List.prefix_concat_iff.mp hrest
      · simp [hall]
      · exact (List.dropLast_prefix _).trans hbefore

theorem length_le_common (hdir : p <+: dir) (hgoal : p <+: goal) : p.length ≤ common dir goal := by
  induction p generalizing dir goal with
  | nil => exact Nat.zero_le _
  | cons n p ih =>
    obtain ⟨ds, rfl⟩ := hdir
    obtain ⟨gs, rfl⟩ := hgoal
    rw [List.cons_append, List.cons_append, common, if_pos rfl, List.length_cons]
    exact Nat.succ_le_succ (ih (List.prefix_append p ds) (List.prefix_append p gs))

theorem exists_shared (dir goal : List String) :
    ∃ shared below rest, dir = shared ++ below ∧ goal = shared ++ rest ∧
      (∀ p, p <+: dir → p <+: goal → p <+: shared) ∧ shared.length = common dir goal := by
  refine ⟨dir.take (common dir goal), dir.drop (common dir goal), goal.drop (common dir goal),
    (List.take_append_drop _ _).symm, ?_, fun p hdir hgoal => ?_, ?_⟩
  · rw [take_common, List.take_append_drop]
  · rw [List.prefix_iff_eq_take.mp hdir]
    exact List.take_prefix_take_left (length_le_common hdir hgoal)
  · exact List.length_take_of_le (common_le_left dir goal)

theorem startsWith_append (p s : String) : startsWith p (p ++ s) = true := by
  rw [startsWith, String.toList_append, List.isPrefixOf_iff_prefix]
  exact List.prefix_append _ _

theorem startsWith_ascend (dir goal : List String) :
    startsWith "./" (ascend dir goal) = true ∨ startsWith "../" (ascend dir goal) = true := by
  unfold ascend
  dsimp only
  split_ifs with h
  · exact .inl (startsWith_append _ _)
  · obtain ⟨k, hk⟩ := Nat.exists_eq_succ_of_ne_zero h
    rw [hk, copies, List.replicate_succ, String.join_cons, String.append_assoc]
    exact .inr (startsWith_append _ _)

theorem ups_climb (n : Nat) : ups (climb n) = n := by
  by_cases h : n = 0
  · rw [h]
    rfl
  · rw [climb, if_neg h, ups, List.count_replicate_self]

theorem downs_climb (n : Nat) : downs (climb n) = 0 := by
  by_cases h : n = 0
  · rw [h]
    rfl
  · simp [climb, h, downs, List.countP_replicate]

theorem counts_ascend (dir : List String) (hgoal : Plain goal)
    (hslash : ∀ n ∈ goal, '/' ∉ n.toList) :
    ups (pieces '/' (ascend dir goal)) = dir.length - common dir goal ∧
      downs (pieces '/' (ascend dir goal)) = goal.length - common dir goal := by
  have hrest : ups (pieces '/' ("/".intercalate (goal.drop (common dir goal)))) = 0 ∧
      downs (pieces '/' ("/".intercalate (goal.drop (common dir goal)))) =
        goal.length - common dir goal := by
    have hplain : Plain (goal.drop (common dir goal)) := fun n hn => hgoal n (List.mem_of_mem_drop hn)
    rw [← List.length_drop]
    generalize hrest : goal.drop (common dir goal) = rest at hplain
    by_cases hnone : rest = []
    · rw [hnone]
      exact ⟨rfl, rfl⟩
    · have hpieces : pieces '/' ("/".intercalate rest) = rest :=
        pieces_intercalate (fun n hn => hslash n (List.mem_of_mem_drop (hrest ▸ hn))) hnone
      rw [hpieces]
      exact ⟨ups_plain hplain, downs_plain hplain⟩
  have hpieces := pieces_ascend dir goal ""
  rw [String.append_empty, String.append_empty] at hpieces
  rw [hpieces, ups_append, downs_append, hrest.1, hrest.2, ups_climb, downs_climb, Nat.zero_add]
  exact ⟨rfl, rfl⟩

/-- The specifier of a location leads to it, and no way to it is shorter. -/
theorem relativeSpecifier_shortest (source : String) {goal : String} (hgoal : ".." ∉ pieces '/' goal) :
    let dir := (names source).dropLast
    let specifier := relativeSpecifier source goal
    (startsWith "./" specifier = true ∨ startsWith "../" specifier = true) ∧
    resolve dir specifier = names goal ∧
    (∃ shared below rest, dir = shared ++ below ∧ names goal = shared ++ rest ∧
      (∀ p, p <+: dir → p <+: names goal → p <+: shared) ∧
      ups (pieces '/' specifier) = below.length) ∧
    ∀ way, way.foldl follow dir = names goal →
      ups (pieces '/' specifier) ≤ ups way ∧ downs (pieces '/' specifier) ≤ downs way := by
  intro dir specifier
  have hplain : Plain (names goal) := by
    intro n hn
    obtain ⟨hmem, hcounts⟩ := List.mem_filter.mp hn
    rw [Bool.and_eq_true, decide_eq_true_eq, decide_eq_true_eq] at hcounts
    exact ⟨hcounts.1, hcounts.2, fun hup => hgoal (hup ▸ hmem)⟩
  have hslash : ∀ n ∈ names goal, '/' ∉ n.toList := fun n hn =>
    not_mem_of_mem_pieces (List.mem_filter.mp hn).1
  obtain ⟨hups, hdowns⟩ := counts_ascend dir hplain hslash
  refine ⟨startsWith_ascend _ _, resolve_ascend_self hplain hslash, ?_, fun way hway => ⟨?_, ?_⟩⟩
  · obtain ⟨shared, below, rest, hdir, hgoal, hlongest, hlength⟩ := exists_shared dir (names goal)
    refine ⟨shared, below, rest, hdir, hgoal, hlongest, hups.trans ?_⟩
    rw [← hlength, hdir, List.length_append, Nat.add_sub_cancel_left]
  · have hkept := take_prefix_follow way dir
    rw [hway] at hkept
    have hle := length_le_common (List.take_prefix _ dir) hkept
    rw [List.length_take] at hle
    calc
      ups (pieces '/' specifier) = dir.length - common dir (names goal) := hups
      _ ≤ ups way := by omega
  · have hkept := prefix_of_follow way dir
    rw [hway] at hkept
    have hle := length_le_common hkept (List.take_prefix _ (names goal))
    rw [List.length_take] at hle
    calc
      downs (pieces '/' specifier) = (names goal).length - common dir (names goal) := hdowns
      _ ≤ downs way := by omega

theorem relativeSpecifier_other :
    ".." ∉ pieces '/' "./com/other//B" ∧
      resolve ["com", "example"] (relativeSpecifier "com/example/./AModel" "./com/other//B") =
        ["com", "other", "B"] := by
  have hup : ".." ∉ pieces '/' "./com/other//B" := by decide
  exact ⟨hup, (relativeSpecifier_shortest "com/example/./AModel" hup).2.1⟩

end TypedClient.Proofs.ShortestSpecifier
