import TypedClient.Path.Relative
import TypedClient.Proofs.Text.Pieces

namespace TypedClient.Proofs.Specifier

open TypedClient.Text TypedClient.Path TypedClient.Proofs.Pieces

def follow (dir : List String) (step : String) : List String :=
  if step = "" ∨ step = "." then dir
  else if step = ".." then dir.dropLast
  else dir ++ [step]

def resolve (dir : List String) (specifier : String) : List String :=
  (pieces '/' specifier).foldl follow dir

def directory (path : String) : List String :=
  (pieces '/' path).dropLast

def Plain (names : List String) : Prop :=
  ∀ n ∈ names, n ≠ "" ∧ n ≠ "." ∧ n ≠ ".."

instance (names : List String) : Decidable (Plain names) :=
  inferInstanceAs (Decidable (∀ n ∈ names, _))

variable {dir goal : List String}

theorem foldl_follow_plain (h : Plain goal) : goal.foldl follow dir = dir ++ goal := by
  induction goal generalizing dir with
  | nil => simp
  | cons n ns ih =>
    obtain ⟨hn, hns⟩ := List.forall_mem_cons.mp h
    rw [List.foldl_cons, ih hns, follow, if_neg (by simp [hn.1, hn.2.1]), if_neg hn.2.2,
      List.append_assoc, List.singleton_append]

theorem foldl_follow_up (k : Nat) :
    (List.replicate k "..").foldl follow dir = dir.take (dir.length - k) := by
  induction k generalizing dir with
  | zero => simp
  | succ k ih =>
    have hup : follow dir ".." = dir.dropLast := rfl
    rw [List.replicate_succ, List.foldl_cons, hup, ih, List.length_dropLast, List.dropLast_eq_take,
      List.take_take]
    congr 1
    omega

theorem pieces_copies (k : Nat) (s : String) :
    pieces '/' (copies k "../" ++ s) = List.replicate k ".." ++ pieces '/' s := by
  induction k with
  | zero => simp [copies]
  | succ k ih =>
    have hup : copies (k + 1) "../" ++ s = ".." ++ String.singleton '/' ++ (copies k "../" ++ s) := by
      simp only [copies, List.replicate_succ, String.join_cons, String.append_assoc]
      rfl
    rw [hup, pieces_append_separator (by decide), ih, List.replicate_succ, List.cons_append]

theorem common_le_left (dir goal : List String) : common dir goal ≤ dir.length := by
  induction dir generalizing goal with
  | nil => simp [common]
  | cons a as ih =>
    cases goal with
    | nil => simp [common]
    | cons b bs =>
      have := ih bs
      rw [common, List.length_cons]
      split <;> omega

theorem take_common (dir goal : List String) :
    dir.take (common dir goal) = goal.take (common dir goal) := by
  induction dir generalizing goal with
  | nil => cases goal <;> simp [common]
  | cons a as ih =>
    cases goal with
    | nil => simp [common]
    | cons b bs =>
      rw [common]
      split
      · rename_i h
        rw [List.take_succ_cons, List.take_succ_cons, ih bs, h]
      · simp

theorem common_lt_iff (dir goal : List String) :
    common dir goal < goal.length ↔ ¬ goal <+: dir := by
  induction dir generalizing goal with
  | nil => cases goal <;> simp [common]
  | cons a as ih =>
    cases goal with
    | nil => simp [common]
    | cons b bs =>
      rw [common, List.cons_prefix_cons, List.length_cons]
      split
      · rename_i h
        simp [h, ih bs]
      · rename_i h
        simp [Ne.symm h]

def climb (n : Nat) : List String :=
  if n = 0 then ["."] else List.replicate n ".."

theorem foldl_climb (n : Nat) (here : List String) :
    (climb n).foldl follow here = here.take (here.length - n) := by
  by_cases h : n = 0
  · subst h
    exact (List.take_length).symm
  · rw [climb, if_neg h, foldl_follow_up]

theorem foldl_follow_down {rest : List String} (h : ∀ n ∈ rest, '/' ∉ n.toList) (here : List String) :
    (pieces '/' ("/".intercalate rest)).foldl follow here = rest.foldl follow here := by
  by_cases hnone : rest = []
  · rw [hnone]
    rfl
  · have hpieces : pieces '/' ("/".intercalate rest) = rest := pieces_intercalate h hnone
    rw [hpieces]

theorem pieces_ascend (dir goal : List String) (x : String) :
    pieces '/' (ascend dir goal ++ x) = climb (dir.length - common dir goal) ++
      pieces '/' ("/".intercalate (goal.drop (common dir goal)) ++ x) := by
  unfold ascend climb
  dsimp only
  split_ifs
  · rw [String.append_assoc]
    exact pieces_append_separator (p := ".") (by decide) _
  · rw [String.append_assoc, pieces_copies]

theorem resolve_ascend (dir goal : List String) (x : String) :
    resolve dir (ascend dir goal ++ x) =
      (pieces '/' ("/".intercalate (goal.drop (common dir goal)) ++ x)).foldl follow
        (goal.take (common dir goal)) := by
  have hshared : dir.length - (dir.length - common dir goal) = common dir goal :=
    Nat.sub_sub_self (common_le_left dir goal)
  rw [resolve, pieces_ascend, List.foldl_append, foldl_climb, hshared, take_common]

theorem plain_append (n : String) {x : String} (hx : 3 ≤ x.length) : Plain [n ++ x] := by
  have hlen : 3 ≤ (n ++ x).length := by
    rw [String.length_append]
    omega
  intro m hm
  obtain rfl := List.mem_singleton.mp hm
  refine ⟨?_, ?_, ?_⟩ <;> (intro h; rw [h] at hlen; revert hlen; decide)

/-- The specifier of a file from a directory leads to the file unless the directory is that of the
same name or lies below it. -/
theorem resolve_ascend_iff {names : List String} {last : String}
    (hp : ∀ n ∈ names ++ [last], '/' ∉ n.toList) (hnames : Plain names) :
    resolve dir (ascend dir (names ++ [last]) ++ ".js") = names ++ [last ++ ".js"] ↔
      ¬ names ++ [last] <+: dir := by
  rw [resolve_ascend, ← common_lt_iff]
  have hjs : '/' ∉ ".js".toList := by decide
  generalize hn : common dir (names ++ [last]) = n
  have hle : n ≤ (names ++ [last]).length := by
    rw [← hn, ← List.length_take_of_le (common_le_left dir _), take_common]
    exact List.length_take_le' _ _
  constructor
  · intro h
    by_contra hge
    -- all of the goal is shared, so nothing is left to put the extension behind
    have hall : n = (names ++ [last]).length := by omega
    rw [hall, List.drop_length, List.take_length, String.intercalate_nil, String.empty_append,
      pieces_eq_singleton hjs] at h
    have hlen := congrArg List.length h
    simp [follow] at hlen
  · intro hlt
    have hin : n ≤ names.length := by simpa [Nat.lt_succ_iff] using hlt
    have hdrop : (names ++ [last]).drop n = names.drop n ++ [last] := List.drop_append_of_le_length hin
    have htake : (names ++ [last]).take n = names.take n := List.take_append_of_le_length hin
    have hsub : ∀ m ∈ names.drop n ++ [last], '/' ∉ m.toList := fun m hm =>
      hp m (List.mem_of_mem_drop (hdrop ▸ hm))
    have hpieces : pieces '/' ("/".intercalate (names.drop n ++ [last])) = names.drop n ++ [last] :=
      pieces_intercalate hsub (by simp)
    have hplain : Plain (names.drop n ++ [last ++ ".js"]) :=
      List.forall_mem_append.mpr ⟨fun m hm => hnames m (List.mem_of_mem_drop hm), plain_append last (by decide)⟩
    rw [hdrop, htake, pieces_append hpieces (pieces_eq_singleton hjs), foldl_follow_plain hplain, ← List.append_assoc,
      List.take_append_drop]

theorem names_eq_pieces {location : String} (h : Plain (pieces '/' location)) :
    names location = pieces '/' location := by
  refine List.filter_eq_self.mpr fun n hn => ?_
  simp [(h n hn).1, (h n hn).2.1]

theorem directory_append (location : String) {x : String} (hx : '/' ∉ x.toList) :
    directory (location ++ x) = (pieces '/' location).dropLast := by
  obtain ⟨ps, p, hs, hx⟩ := pieces_append_of_not_mem location hx
  rw [directory, hx, hs, List.dropLast_concat, List.dropLast_concat]

/-- The specifier of a generated file leads to it from every other one, unless that lies in the
directory of its name or below. -/
theorem resolve_relativeSpecifier_iff {source goal : String} (hs : Plain (pieces '/' source))
    (hg : Plain (pieces '/' goal)) :
    resolve (directory (source ++ ".ts")) (relativeSpecifier source goal ++ ".js") =
        pieces '/' (goal ++ ".js") ↔
      ¬ pieces '/' goal <+: directory (source ++ ".ts") := by
  obtain ⟨ps, p, hp, hjs⟩ := pieces_append_of_not_mem goal (d := '/') (t := ".js") (by decide)
  have hslash : ∀ n ∈ ps ++ [p], '/' ∉ n.toList := fun n hn => not_mem_of_mem_pieces (hp ▸ hn)
  have hps : Plain ps := fun n hn => hg n (hp ▸ List.mem_append_left _ hn)
  rw [relativeSpecifier, names_eq_pieces hs, names_eq_pieces hg, directory_append source (by decide),
    hjs, hp]
  exact resolve_ascend_iff hslash hps

theorem resolve_ascend_self (h : Plain goal) (hslash : ∀ n ∈ goal, '/' ∉ n.toList) :
    resolve dir (ascend dir goal) = goal := by
  have hup := resolve_ascend dir goal ""
  rw [String.append_empty, String.append_empty] at hup
  rw [hup]
  have hp : Plain (goal.drop (common dir goal)) := fun m hm => h m (List.mem_of_mem_drop hm)
  rw [foldl_follow_down fun m hm => hslash m (List.mem_of_mem_drop hm), foldl_follow_plain hp,
    List.take_append_drop]

theorem plain_names {location : String} (h : '.' ∉ location.toList) : Plain (names location) := by
  intro n hn
  obtain ⟨hmem, hn⟩ := List.mem_filter.mp hn
  simp only [ne_eq, decide_not, Bool.and_eq_true, Bool.not_eq_true', decide_eq_false_iff_not] at hn
  refine ⟨hn.1, hn.2, ?_⟩
  rintro rfl
  exact h (mem_of_mem_pieces hmem (by decide))

theorem relativeSpecifier_inj {source goal goal' : String} (h : '.' ∉ goal.toList)
    (h' : '.' ∉ goal'.toList)
    (he : relativeSpecifier source goal = relativeSpecifier source goal') :
    names goal = names goal' := by
  have hself : ∀ {g : String}, '.' ∉ g.toList →
      resolve (names source).dropLast (relativeSpecifier source g) = names g := fun hg =>
    resolve_ascend_self (plain_names hg) fun n hn =>
      not_mem_of_mem_pieces (List.mem_filter.mp hn).1
  rw [← hself h, he, hself h']

end TypedClient.Proofs.Specifier
