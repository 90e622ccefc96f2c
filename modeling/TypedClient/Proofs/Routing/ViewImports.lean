import TypedClient.Proofs.Module.ImportRequests
import TypedClient.Routing.RouteModule

namespace TypedClient.Proofs.ViewImports

open TypedClient.Module TypedClient.Routing TypedClient.Routing.RouteModule
open TypedClient.Proofs.ImportRequests TypedClient.Proofs.FreshName

mutual

def nodesIn : Tree → List Tree
  | ⟨segment, page, layout, children⟩ => ⟨segment, page, layout, children⟩ :: nodesOf children

def nodesOf : List Tree → List Tree
  | [] => []
  | t :: ts => nodesIn t ++ nodesOf ts

end

def label (t : Tree) : String :=
  if t.page.isSome then "Page" else "Layout"

def viewRequest (outputDir : String) (n : Nat) (t : Tree) : List Request :=
  (t.module?.map fun m =>
    Request.namespaceImport (specifier outputDir m) (label t ++ toString n)).toList

def viewRequests (outputDir : String) : Nat → List Tree → List Request
  | _, [] => []
  | n, t :: ts => viewRequest outputDir n t ++ viewRequests outputDir (n + 1) ts

variable {outputDir : String} {n : Nat} {t : ImportTable} {rs : List Request}

theorem viewRequests_append (n : Nat) (as bs : List Tree) :
    viewRequests outputDir n (as ++ bs) =
      viewRequests outputDir n as ++ viewRequests outputDir (n + as.length) bs := by
  induction as generalizing n with
  | nil => rfl
  | cons a as ih =>
    rw [List.cons_append, viewRequests, viewRequests, ih, List.append_assoc, List.length_cons,
      Nat.add_right_comm, Nat.add_assoc n]

theorem run_events (rs ss : List Request) : (run rs).1 <+: (run (rs ++ ss)).1 := by
  induction ss using List.reverseRecOn with
  | nil => simp
  | append_singleton ss r ih =>
    rw [← List.append_assoc, run_append]
    exact ih.trans (List.prefix_append _ _)

theorem digits_append {w : String} (hw : w.toList.filter Char.isDigit = []) (n : Nat) :
    (w ++ toString n).toList.filter Char.isDigit = Nat.toDigits 10 n := by
  have hn : (toString n).toList = Nat.toDigits 10 n := Nat.toList_repr
  rw [String.toList_append, List.filter_append, hw, List.nil_append, hn, List.filter_eq_self]
  intro c hc
  exact Nat.isDigit_of_mem_toDigits (by decide) (by decide) hc

theorem digits_label (s : Tree) (n : Nat) :
    (label s ++ toString n).toList.filter Char.isDigit = Nat.toDigits 10 n := by
  refine digits_append ?_ n
  rw [label]
  split <;> decide

theorem label_ne {w : String} (hw : w.toList.filter Char.isDigit = []) (s : Tree) (n : Nat) :
    label s ++ toString n ≠ w := by
  intro h
  have hdigits := digits_label s n
  rw [h, hw] at hdigits
  exact Nat.toDigits_ne_nil hdigits.symm

theorem eq_of_label_eq {w : String} (hw : w.toList.filter Char.isDigit = []) {s : Tree} {k : Nat}
    (h : label s ++ toString n = w ++ toString k) : n = k := by
  have hdigits : Nat.toDigits 10 n = Nat.toDigits 10 k := by
    rw [← digits_label s n, h, digits_append hw]
  simpa using congrArg (fun ds => Nat.ofDigitChars 10 ds 0) hdigits

theorem label_isIdentifier (s : Tree) (n : Nat) : IsIdentifier (label s ++ toString n) := by
  have hlabel : IsIdentifier (label s) := by
    rw [label]
    split
    · exact ⟨'P', ['a', 'g', 'e'], rfl, rfl, List.all_eq_true.mp (by decide)⟩
    · exact ⟨'L', ['a', 'y', 'o', 'u', 't'], rfl, rfl, List.all_eq_true.mp (by decide)⟩
  obtain ⟨c, cs, hc, hd, hp⟩ := hlabel
  have hn : (toString n).toList = Nat.toDigits 10 n := Nat.toList_repr
  refine ⟨c, cs ++ Nat.toDigits 10 n, ?_, hd, ?_⟩
  · rw [String.toList_append, hc, hn, List.cons_append]
  rw [← List.cons_append, List.forall_mem_append]
  refine ⟨hp, fun x hx => ?_⟩
  have hx : x.isDigit = true := Nat.isDigit_of_mem_toDigits (by decide) (by decide) hx
  simp [Identifier.isPart, Text.isLetterOrDigit, Text.isDigit, hx]

/-- The names in use before the node with a number: those of the module itself and those of nodes
with smaller numbers. -/
def NamesBelow (n : Nat) (t : ImportTable) : Prop :=
  ∀ b ∈ t.taken, b = "createRoute" ∨ b = "routes" ∨
    ∃ k < n, b = "Page" ++ toString k ∨ b = "Layout" ++ toString k

theorem freshName_label (h : NamesBelow n t) (s : Tree) :
    t.freshName (label s ++ toString n) = label s ++ toString n := by
  -- no reserved word and no name of the module itself ends in a number
  have hreserved : Identifier.isReserved (label s ++ toString n) = false := by
    have hwords : ∀ w ∈ Identifier.reservedWords, w.toList.filter Char.isDigit = [] := by decide
    rw [← Bool.not_eq_true, Identifier.isReserved, List.contains_iff_mem]
    exact fun hmem => label_ne (hwords _ hmem) s n rfl
  have hfree : label s ++ toString n ∉ t.taken := by
    intro hmem
    obtain hb | hb | ⟨k, hk, hb | hb⟩ := h _ hmem
    · exact label_ne (by decide) s n hb
    · exact label_ne (by decide) s n hb
    · exact (Nat.ne_of_lt hk) (eq_of_label_eq (by decide) hb).symm
    · exact (Nat.ne_of_lt hk) (eq_of_label_eq (by decide) hb).symm
  rw [ImportTable.freshName, sanitize_eq_self (label_isIdentifier s n), hreserved,
    if_neg (by simpa using hfree)]

theorem NamesBelow.mono (h : NamesBelow n t) : NamesBelow (n + 1) t := by
  intro b hb
  obtain hb | hb | ⟨k, hk, hb⟩ := h b hb
  · exact .inl hb
  · exact .inr (.inl hb)
  · exact .inr (.inr ⟨k, Nat.lt_succ_of_lt hk, hb⟩)

theorem NamesBelow.add (h : NamesBelow n t) (s : Tree) (p : String) (k : ImportKind) :
    NamesBelow (n + 1) (t.add p k (label s ++ toString n) false).2 := by
  cases hi : t.find? p k with
  | some i =>
    rw [ImportTable.add, hi]
    exact h.mono
  | none =>
    rw [ImportTable.add, hi]
    simp only [ImportTable.reserve, freshName_label h]
    refine List.forall_mem_cons.mpr ⟨.inr (.inr ⟨n, n.lt_succ_self, ?_⟩), h.mono⟩
    rw [label]
    split
    · exact .inl rfl
    · exact .inr rfl

theorem NamesBelow.viewRequest (h : NamesBelow n (run rs).2) (s : Tree) :
    NamesBelow (n + 1) (run (rs ++ viewRequest outputDir n s)).2 := by
  cases hm : s.module? with
  | none =>
    rw [ViewImports.viewRequest, hm, Option.map_none, Option.toList_none, List.append_nil]
    exact h.mono
  | some m =>
    rw [ViewImports.viewRequest, hm, Option.map_some, Option.toList_some, run_append]
    exact h.add s _ _

theorem NamesBelow.viewRequests {ts : List Tree} (h : NamesBelow n (run rs).2) :
    NamesBelow (n + ts.length) (run (rs ++ viewRequests outputDir n ts)).2 := by
  induction ts generalizing n rs with
  | nil =>
    rw [ViewImports.viewRequests, List.append_nil]
    exact h
  | cons s ts ih =>
    rw [ViewImports.viewRequests, ← List.append_assoc, List.length_cons, Nat.add_left_comm,
      Nat.add_comm]
    exact ih (h.viewRequest s)

def ownRequests (router : String) : List Request :=
  [.namedImport router "createRoute" false, .reserve "routes"]

variable {router : String} {m : String} {s : Tree} {before : List Tree}

theorem namesBelow_own (router : String) : NamesBelow 0 (run (ownRequests router)).2 := by
  have htaken : (run (ownRequests router)).2.taken = ["routes", "createRoute"] := rfl
  intro b hb
  rw [htaken, List.mem_pair] at hb
  obtain hb | hb := hb
  · exact .inr (.inl hb)
  · exact .inl hb

theorem mem_viewRequests {ts : List Tree} {r : Request} (hr : r ∈ viewRequests outputDir n ts) :
    ∃ u ∈ ts, r.key? = u.module?.map fun m => (specifier outputDir m, ImportKind.everything) := by
  induction ts generalizing n with
  | nil => cases hr
  | cons u ts ih =>
    rw [viewRequests, List.mem_append] at hr
    obtain hr | hr := hr
    · refine ⟨u, List.mem_cons_self, ?_⟩
      rw [viewRequest, Option.mem_toList, Option.map_eq_some_iff] at hr
      obtain ⟨m, hm, rfl⟩ := hr
      rw [hm]
      rfl
    · obtain ⟨v, hv, hkey⟩ := ih hr
      exact ⟨v, List.mem_cons_of_mem u hv, hkey⟩

theorem not_requested_before
    (hfirst : ∀ u ∈ before,
      u.module?.map (specifier outputDir) ≠ some (specifier outputDir m)) :
    ∀ e ∈ (run (ownRequests router ++ viewRequests outputDir 0 before)).1,
      e.request.key? ≠ some (specifier outputDir m, .everything) := by
  intro e he heq
  have hmem := List.mem_map_of_mem (f := Event.request) he
  rw [requests_run, List.mem_append] at hmem
  obtain hown | hview := hmem
  · rw [ownRequests, List.mem_pair] at hown
    obtain hown | hown := hown <;> simp [hown, Request.key?] at heq
  · obtain ⟨u, hu, hkey⟩ := mem_viewRequests hview
    rw [heq] at hkey
    obtain ⟨m', hm', hpair⟩ := Option.map_eq_some_iff.mp hkey.symm
    have hne := hfirst u hu
    rw [hm', Option.map_some, (Prod.mk.inj hpair).1] at hne
    exact hne rfl

theorem import_of_first (router : String) (hm : s.module? = some m)
    (hfirst : ∀ u ∈ before,
      u.module?.map (specifier outputDir) ≠ some (specifier outputDir m)) (after : List Tree) :
    ∃ i ∈ (run (ownRequests router ++ viewRequests outputDir 0 (before ++ s :: after))).2.imports,
      i.path = specifier outputDir m ∧ i.kind = .everything ∧
        i.binding = label s ++ toString before.length := by
  let rs := ownRequests router ++ viewRequests outputDir 0 before
  let r := Request.namespaceImport (specifier outputDir m) (label s ++ toString before.length)
  have hrs : ownRequests router ++ viewRequests outputDir 0 (before ++ s :: after) =
      rs ++ [r] ++ viewRequests outputDir (before.length + 1) after := by
    have hs : viewRequest outputDir before.length s = [r] := by
      rw [viewRequest, hm]
      rfl
    rw [viewRequests_append, viewRequests, Nat.zero_add, hs]
    simp only [rs, List.append_assoc]
  have hnames : NamesBelow before.length (run rs).2 := by
    have h : NamesBelow (0 + before.length) (run rs).2 := (namesBelow_own router).viewRequests
    rwa [Nat.zero_add] at h
  have hanswer : (r.apply (run rs).2).1 = some (label s ++ toString before.length) := by
    have hnew := (run_consistent rs).apply_new (r := r) rfl fun e he =>
      .inr (not_requested_before hfirst e he)
    rw [hnew, freshName_label hnames]
  have hevent : ⟨r, some (label s ++ toString before.length)⟩ ∈
      (run (rs ++ [r] ++ viewRequests outputDir (before.length + 1) after)).1 := by
    refine (run_events _ _).subset ?_
    rw [run_append, step, hanswer]
    exact List.mem_append_right _ List.mem_cons_self
  rw [hrs]
  obtain ⟨i, hi, hkey, hbinding⟩ := (run_consistent _).recorded _ hevent _ rfl
  obtain ⟨hpath, hkind⟩ := Prod.mk.inj hkey
  exact ⟨i, hi, hpath, hkind, (Option.some.inj hbinding).symm⟩

end TypedClient.Proofs.ViewImports
