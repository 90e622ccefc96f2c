import Mathlib.Data.List.Sort
import TypedClient.Proofs.FileTree.Ways
import TypedClient.Proofs.Path.Joining
import TypedClient.Routing.Loading

namespace TypedClient.Proofs.Listing

open TypedClient.FileTree TypedClient.Routing TypedClient.Proofs.Ways TypedClient.Proofs.Joining

/-- A tree in which every name stands once and is made of steps between slashes. -/
structure WellNamed (t : FileTree) : Prop extends WellFormed t where
  nodup : (t.entries.map Prod.fst).Nodup
  steps : ∀ e ∈ t.entries, ∀ s ∈ e.1, IsStep s

instance (t : FileTree) : Decidable (WellNamed t) :=
  decidable_of_iff (WellFormed t ∧ (t.entries.map Prod.fst).Nodup ∧
      ∀ e ∈ t.entries, ∀ s ∈ e.1, IsStep s)
    ⟨fun h => ⟨h.1, h.2.1, h.2.2⟩, fun h => ⟨h.1, h.2, h.3⟩⟩

inductive Lists (t : FileTree) : Name → List DirEntry → Prop
  | intro {n : Name} {es : List DirEntry}
      (sorted : (es.map DirEntry.name).Pairwise (· < ·))
      (complete : ∀ s, s ∈ es.map DirEntry.name ↔ ∃ e ∈ t.entries, e.1 = n ++ [s])
      (files : ∀ s, .file s ∈ es → t.node? (n ++ [s]) ≠ some .directory)
      (directories : ∀ s sub, .directory s sub ∈ es → t.node? (n ++ [s]) = some .directory)
      (below : ∀ s sub, .directory s sub ∈ es → Lists t (n ++ [s]) sub) : Lists t n es

variable {t : FileTree} {n : Name} {es es' : List DirEntry} {dir : String}

theorem mem_stepsIn {s : String} : s ∈ t.stepsIn n ↔ ∃ e ∈ t.entries, e.1 = n ++ [s] := by
  rw [stepsIn, List.mem_mergeSort, List.mem_filterMap]
  refine exists_congr fun e => and_congr_right fun _ => ?_
  constructor
  · intro h
    split at h
    · rename_i hn
      rw [← hn]
      exact (List.dropLast_append_getLast? s h).symm
    · cases h
  · intro h
    rw [h, List.dropLast_concat, if_pos rfl, List.getLast?_concat]

theorem nodup_stepsIn (ht : WellNamed t) (n : Name) : (t.stepsIn n).Nodup := by
  have hkeys : (t.entries.filterMap fun e => if e.1.dropLast = n then e.1.getLast? else none) =
      (t.entries.map Prod.fst).filterMap fun k => if k.dropLast = n then k.getLast? else none := by
    rw [List.filterMap_map]
    rfl
  rw [stepsIn, List.nodup_mergeSort, hkeys]
  refine ht.nodup.filterMap fun k k' s hk hk' => ?_
  rw [Option.mem_def, Option.ite_none_right_eq_some] at hk hk'
  rw [← List.dropLast_append_getLast? s hk.2, ← List.dropLast_append_getLast? s hk'.2, hk.1, hk'.1]

theorem sorted_stepsIn (ht : WellNamed t) (n : Name) : (t.stepsIn n).Pairwise (· < ·) := by
  have hle : (t.stepsIn n).Pairwise (· ≤ ·) := by
    have h := @List.pairwise_mergeSort String (fun a b => decide (a ≤ b))
      (fun a b c hab hbc => by simpa using String.le_trans (by simpa using hab) (by simpa using hbc))
      (fun a b => by simpa using String.le_total a b)
      (t.entries.filterMap fun e => if e.1.dropLast = n then e.1.getLast? else none)
    simpa [stepsIn] using h
  exact hle.imp₂ (fun a b hab hne => String.not_le.mp fun hba => hne (String.le_antisymm hab hba))
    (nodup_stepsIn ht n)

theorem length_le_deepestName {e : Name × Node} (he : e ∈ t.entries) :
    e.1.length ≤ deepestName t := by
  have hmax : ∀ (es : List (Name × Node)) (k : Nat), k ≤ es.foldl (fun n e => max n e.1.length) k ∧
      ∀ e ∈ es, e.1.length ≤ es.foldl (fun n e => max n e.1.length) k := by
    intro es
    induction es with
    | nil => simp
    | cons x xs ih =>
      intro k
      obtain ⟨hk, hxs⟩ := ih (max k x.1.length)
      rw [List.foldl_cons, List.forall_mem_cons]
      exact ⟨by omega, by omega, hxs⟩
  exact (hmax t.entries 0).2 e he

def entryAt (t : FileTree) (depth : Nat) (n : Name) (s : String) : DirEntry :=
  match t.node? (n ++ [s]) with
  | some .directory => .directory s (entriesBelow t depth (n ++ [s]))
  | _ => .file s

theorem entryAt_cases (t : FileTree) (depth : Nat) (n : Name) (s : String) :
    (t.node? (n ++ [s]) = some .directory ∧
        entryAt t depth n s = .directory s (entriesBelow t depth (n ++ [s]))) ∨
      (t.node? (n ++ [s]) ≠ some .directory ∧ entryAt t depth n s = .file s) := by
  rw [entryAt]
  split
  · rename_i h
    exact .inl ⟨h, rfl⟩
  · rename_i h
    exact .inr ⟨h, rfl⟩

theorem entriesBelow_succ (t : FileTree) (depth : Nat) (n : Name) :
    entriesBelow t (depth + 1) n = (t.stepsIn n).map (entryAt t depth n) :=
  rfl

theorem names_entriesBelow (t : FileTree) (depth : Nat) (n : Name) :
    (entriesBelow t (depth + 1) n).map DirEntry.name = t.stepsIn n := by
  have hname : ∀ s, (entryAt t depth n s).name = s := by
    intro s
    obtain ⟨-, hs⟩ | ⟨-, hs⟩ := entryAt_cases t depth n s <;> rw [hs] <;> rfl
  rw [entriesBelow_succ, List.map_map]
  exact (List.map_congr_left fun s _ => hname s).trans (List.map_id' _)

/-- The entries below a directory are its listing when the depth reaches all names. -/
theorem lists_entriesBelow (ht : WellNamed t) {depth : Nat} (hn : n.length ≤ deepestName t)
    (hdepth : deepestName t < depth + n.length) : Lists t n (entriesBelow t depth n) := by
  induction depth generalizing n with
  | zero => omega
  | succ depth ih =>
    have hentry : ∀ e ∈ entriesBelow t (depth + 1) n, ∃ s ∈ t.stepsIn n, entryAt t depth n s = e :=
      fun e he => List.mem_map.mp (entriesBelow_succ t depth n ▸ he)
    refine .intro ?_ (fun s => ?_) (fun s hs => ?_) (fun s sub hs => ?_) (fun s sub hs => ?_)
    · rw [names_entriesBelow]
      exact sorted_stepsIn ht n
    · rw [names_entriesBelow]
      exact mem_stepsIn
    · obtain ⟨r, -, hr⟩ := hentry _ hs
      obtain ⟨-, he⟩ | ⟨hnode, he⟩ := entryAt_cases t depth n r <;> cases he.symm.trans hr
      exact hnode
    · obtain ⟨r, -, hr⟩ := hentry _ hs
      obtain ⟨hnode, he⟩ | ⟨-, he⟩ := entryAt_cases t depth n r <;> cases he.symm.trans hr
      exact hnode
    · obtain ⟨r, hmem, hr⟩ := hentry _ hs
      obtain ⟨-, he⟩ | ⟨-, he⟩ := entryAt_cases t depth n r <;> cases he.symm.trans hr
      obtain ⟨e, he, hname⟩ := mem_stepsIn.mp hmem
      have hlen := length_le_deepestName he
      rw [hname] at hlen
      refine ih hlen ?_
      rw [List.length_append, List.length_singleton]
      omega

/-- Lists of entries with the same names are the same if entries of one name are. -/
theorem eq_of_map_name_eq (hnames : es.map DirEntry.name = es'.map DirEntry.name)
    (h : ∀ e ∈ es, ∀ e' ∈ es', e.name = e'.name → e = e') : es = es' := by
  induction es generalizing es' with
  | nil => exact (List.map_eq_nil_iff.mp hnames.symm).symm
  | cons e es ih =>
    cases es' with
    | nil => cases hnames
    | cons e' es' =>
      obtain ⟨hname, hnames⟩ := List.cons.inj hnames
      rw [List.forall_mem_cons, List.forall_mem_cons] at h
      rw [h.1.1 hname, ih hnames fun x hx y hy => (List.forall_mem_cons.mp (h.2 x hx)).2 y hy]

theorem Lists.unique (h : Lists t n es) (h' : Lists t n es') : es = es' := by
  induction h generalizing es' with
  | @intro n es sorted complete files directories below ih =>
    cases h' with
    | intro sorted' complete' files' directories' below' =>
      refine eq_of_map_name_eq
        (sorted.eq_of_mem_iff sorted' fun s => (complete s).trans (complete' s).symm) ?_
      intro e he e' he' hname
      cases e with
      | file s =>
        cases e' with
        | file s' => exact congrArg _ hname
        | directory s' sub' =>
          obtain rfl : s = s' := hname
          exact absurd (directories' s sub' he') (files s he)
      | directory s sub =>
        cases e' with
        | file s' =>
          obtain rfl : s = s' := hname
          exact absurd (directories s sub he) (files' s he')
        | directory s' sub' =>
          obtain rfl : s = s' := hname
          rw [ih s sub he (below' s sub' he')]

theorem Lists.steps (ht : WellNamed t) (h : Lists t n es) :
    ∀ e ∈ es, IsStep e.name := by
  intro e he
  cases h with
  | intro _ complete _ _ _ =>
    obtain ⟨x, hx, hname⟩ := (complete e.name).mp (List.mem_map_of_mem he)
    exact ht.steps x hx e.name (hname ▸ List.mem_append_right n List.mem_cons_self)

/-- A directory that a path leads to has a listing, and its views are collected from that. -/
theorem exists_lists (ht : WellNamed t) (hdir : t.locate true dir = .found n .directory) :
    ∃ es, Lists t n es ∧
      ∀ settings, Tree.collect t settings dir = .ok (Tree.ofEntries settings dir es) := by
  have hn : t.node? n = some .directory := by
    have hsound := locate_sound ht.toWellFormed true dir
    rwa [hdir] at hsound
  have hlen : n.length ≤ deepestName t := by
    obtain rfl | ⟨front, s, rfl⟩ := List.eq_nil_or_concat' n
    · exact Nat.zero_le _
    · obtain ⟨e, he, hname⟩ := node?_ne_none_iff.mp (hn ▸ Option.some_ne_none _)
      exact hname ▸ length_le_deepestName he
  have hdepth : deepestName t < deepestName t + 1 + n.length := by omega
  refine ⟨_, lists_entriesBelow ht hlen hdepth, fun settings => ?_⟩
  rw [Tree.collect, Tree.collect?, dirEntries?, hdir]
  rfl

end TypedClient.Proofs.Listing
