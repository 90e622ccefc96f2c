import TypedClient.Proofs.FileTree.Listing
import TypedClient.Proofs.FileTree.UserFiles

namespace TypedClient.Routing

def DirEntry.relist (s : String) (f : List DirEntry → List DirEntry) : DirEntry → DirEntry
  | file name => file name
  | directory name sub => directory name (if name = s then f sub else sub)

def relisted (new : List DirEntry) : List String → List DirEntry → List DirEntry
  | [], _ => new
  | s :: ds, es => es.map (DirEntry.relist s (relisted new ds))

end TypedClient.Routing

namespace TypedClient.Proofs.Relisting

open TypedClient.FileTree TypedClient.Routing TypedClient.Proofs.Directories
open TypedClient.Proofs.Joining TypedClient.Proofs.Listing TypedClient.Proofs.UserFiles
open TypedClient.Proofs.Ways

variable {t u : FileTree} {n : Name} {ds : List String} {es new sub : List DirEntry} {e : DirEntry}
  {f s dir : String} {φ : List DirEntry → List DirEntry}

@[simp] theorem name_relist : (e.relist s φ).name = e.name := by
  cases e <;> rfl

@[simp] theorem map_name_relist : (es.map (DirEntry.relist s φ)).map DirEntry.name =
    es.map DirEntry.name := by
  rw [List.map_map]
  exact List.map_congr_left fun e _ => name_relist

theorem file_mem_relist : .file f ∈ es.map (DirEntry.relist s φ) ↔ .file f ∈ es := by
  rw [List.mem_map]
  constructor
  · rintro ⟨e, he, hrelist⟩
    cases e with
    | file g => rwa [← hrelist]
    | directory => cases hrelist
  · exact fun h => ⟨_, h, rfl⟩

theorem exists_of_directory_mem_relist {d : String}
    (h : .directory d new ∈ es.map (DirEntry.relist s φ)) :
    ∃ sub, .directory d sub ∈ es ∧ new = if d = s then φ sub else sub := by
  obtain ⟨e, he, hrelist⟩ := List.mem_map.mp h
  cases e with
  | file => cases hrelist
  | directory d' sub =>
    cases hrelist
    exact ⟨sub, he, rfl⟩

theorem mem_names_iff (h : Lists t n es) :
    s ∈ es.map DirEntry.name ↔ t.node? (n ++ [s]) ≠ none := by
  cases h with
  | intro _ complete _ _ _ => exact (complete s).trans node?_ne_none_iff.symm

theorem lists_congr (h : Lists t n es)
    (hsame : ∀ r, r ≠ [] → u.node? (n ++ r) = t.node? (n ++ r)) : Lists u n es := by
  induction h with
  | intro sorted complete files directories below ih =>
    refine .intro sorted (fun s => ?_) (fun s hs => ?_) (fun s sub hs => ?_) fun s sub hs => ?_
    · rw [complete, ← node?_ne_none_iff, ← node?_ne_none_iff, hsame [s] (by simp)]
    · rw [hsame [s] (by simp)]
      exact files s hs
    · rw [hsame [s] (by simp)]
      exact directories s sub hs
    · refine ih s sub hs fun r _ => ?_
      rw [List.append_assoc]
      exact hsame _ (by simp)

/-- Where two trees differ only below one directory, so do the listings of those above it. -/
theorem lists_relisted (h : Lists t n es) (hnew : Lists u (n ++ ds) new)
    (hsame : ∀ r, (∀ r', r' ≠ [] → r ≠ ds ++ r') → u.node? (n ++ r) = t.node? (n ++ r)) :
    Lists u n (relisted new ds es) := by
  induction ds generalizing n es with
  | nil => rwa [List.append_nil] at hnew
  | cons s ds ih =>
    have hstep : ∀ x, u.node? (n ++ [x]) = t.node? (n ++ [x]) := fun x =>
      hsame [x] fun r' hr' heq => hr' (List.append_eq_nil_iff.mp (List.cons.inj heq).2.symm).2
    cases h with
    | intro sorted complete files directories below =>
      refine .intro ?_ (fun x => ?_) (fun x hx => ?_) (fun x sub hx => ?_) fun x sub hx => ?_
      · rwa [relisted, map_name_relist]
      · rw [relisted, map_name_relist, complete, ← node?_ne_none_iff, ← node?_ne_none_iff, hstep]
      · rw [hstep]
        exact files x (file_mem_relist.mp hx)
      · obtain ⟨_, hmem, -⟩ := exists_of_directory_mem_relist hx
        rw [hstep]
        exact directories x _ hmem
      · obtain ⟨old, hmem, rfl⟩ := exists_of_directory_mem_relist hx
        split
        · rename_i hxs
          subst hxs
          refine ih (below x old hmem) (by rwa [List.append_assoc]) fun r hr => ?_
          rw [List.append_assoc]
          exact hsame _ fun r' hr' heq => hr r' hr' (List.cons.inj heq).2
        · rename_i hxs
          refine lists_congr (below x old hmem) fun r _ => ?_
          rw [List.append_assoc]
          exact hsame _ fun r' _ heq => hxs (List.cons.inj heq).1

theorem exists_split (hsorted : (es.map DirEntry.name).Pairwise (· < ·))
    (hf : f ∉ es.map DirEntry.name) : ∃ front back, es = front ++ back ∧
      ((front ++ .file f :: back).map DirEntry.name).Pairwise (· < ·) := by
  induction es with
  | nil => exact ⟨[], [], rfl, List.pairwise_singleton _ _⟩
  | cons e es ih =>
    rw [List.map_cons, List.pairwise_cons] at hsorted
    rw [List.map_cons, List.mem_cons, not_or] at hf
    by_cases hlt : e.name < f
    · obtain ⟨front, back, rfl, hpairwise⟩ := ih hsorted.2 hf.2
      refine ⟨e :: front, back, rfl, ?_⟩
      rw [List.cons_append, List.map_cons, List.pairwise_cons]
      refine ⟨fun s hs => ?_, hpairwise⟩
      simp only [List.map_append, List.map_cons, List.mem_append, List.mem_cons] at hs hsorted
      obtain hs | rfl | hs := hs
      · exact hsorted.1 s (.inl hs)
      · exact hlt
      · exact hsorted.1 s (.inr hs)
    · have hgt : f < e.name :=
        String.not_le.mp fun hle => hf.1 (String.le_antisymm (String.not_lt.mp hlt) hle)
      refine ⟨[], e :: es, rfl, ?_⟩
      rw [List.nil_append, List.map_cons, List.pairwise_cons, List.map_cons, List.pairwise_cons]
      refine ⟨fun s hs => ?_, hsorted⟩
      obtain rfl | hs := List.mem_cons.mp hs
      · exact hgt
      · exact String.lt_trans hgt (hsorted.1 s hs)

theorem lists_insert (h : Lists t n es) (hfree : t.node? (n ++ [f]) = none) (c : Contents) :
    ∃ front back, es = front ++ back ∧
      Lists (t.insert (n ++ [f]) (.file c)) n (front ++ .file f :: back) := by
  have hne : n ++ [f] ≠ [] := by simp
  have hf : f ∉ es.map DirEntry.name := fun hmem => (mem_names_iff h).mp hmem hfree
  have hnode : ∀ s, (t.insert (n ++ [f]) (.file c)).node? (n ++ [s]) =
      if s = f then some (.file c) else t.node? (n ++ [s]) := by
    intro s
    rw [node?_insert t hne]
    simp
  cases h with
  | intro sorted complete files directories below =>
    obtain ⟨front, back, rfl, hsorted⟩ := exists_split sorted hf
    have hother : ∀ e ∈ front ++ back, e.name ≠ f := fun e he heq =>
      hf (List.mem_map.mpr ⟨e, he, heq⟩)
    have hmem : ∀ e, e ∈ front ++ .file f :: back ↔ e = .file f ∨ e ∈ front ++ back := by
      simp only [List.mem_append, List.mem_cons]
      tauto
    refine ⟨front, back, rfl, .intro hsorted (fun s => ?_) (fun s hs => ?_) (fun s sub hs => ?_)
      fun s sub hs => ?_⟩
    · rw [← node?_ne_none_iff, hnode, List.mem_map]
      simp only [hmem]
      split
      · rename_i hs
        exact iff_of_true ⟨.file f, .inl rfl, hs.symm⟩ (Option.some_ne_none _)
      · rename_i hs
        rw [node?_ne_none_iff, ← complete, List.mem_map]
        constructor
        · rintro ⟨e, rfl | he, hname⟩
          · exact absurd hname.symm hs
          · exact ⟨e, he, hname⟩
        · rintro ⟨e, he, hname⟩
          exact ⟨e, .inr he, hname⟩
    · rw [hnode]
      split
      · simp
      · rename_i hne
        obtain heq | hs := (hmem _).mp hs
        · cases heq
          exact absurd rfl hne
        · exact files s hs
    · obtain heq | hs := (hmem _).mp hs
      · cases heq
      · have hne : s ≠ f := hother _ hs
        rw [hnode, if_neg hne]
        exact directories s sub hs
    · obtain heq | hs := (hmem _).mp hs
      · cases heq
      · refine lists_congr (below s sub hs) fun r _ => ?_
        rw [node?_insert t hne, if_neg]
        intro heq
        rw [List.append_assoc, List.append_cancel_left_eq] at heq
        exact hother _ hs (List.cons.inj heq).1

theorem map_fst_setEntry {entries : List (Name × Node)} {x : Node}
    (h : n ∉ entries.map Prod.fst) :
    (setEntry n x entries).map Prod.fst = entries.map Prod.fst ++ [n] := by
  induction entries with
  | nil => rfl
  | cons e entries ih =>
    rw [List.map_cons, List.mem_cons, not_or] at h
    rw [setEntry, if_neg (Ne.symm h.1), List.map_cons, ih h.2, List.map_cons, List.cons_append]

theorem wellNamed_insert (ht : WellNamed t) (hn : t.node? n = some .directory)
    (hfree : t.node? (n ++ [f]) = none) (hf : IsStep f) (c : Contents) :
    WellNamed (t.insert (n ++ [f]) (.file c)) := by
  have hnot : n ++ [f] ∉ t.entries.map Prod.fst := by
    intro hmem
    obtain ⟨e, he, hname⟩ := List.mem_map.mp hmem
    exact node?_ne_none_iff.mpr ⟨e, he, hname⟩ hfree
  have hkeys : (t.insert (n ++ [f]) (.file c)).entries.map Prod.fst =
      t.entries.map Prod.fst ++ [n ++ [f]] := map_fst_setEntry hnot
  have hwell : WellFormed (t.insert (n ++ [f]) (.file c)) :=
    wellFormed_insert_free ht.toWellFormed ⟨hfree, by rwa [List.dropLast_concat]⟩ _
  refine ⟨hwell, ?_, fun e he s hs => ?_⟩
  · rw [hkeys, ← List.concat_eq_append]
    exact ht.nodup.concat hnot
  · have hkey := List.mem_map_of_mem (f := Prod.fst) he
    rw [hkeys, List.mem_append, List.mem_singleton] at hkey
    obtain hkey | hkey := hkey
    · obtain ⟨e', he', hname⟩ := List.mem_map.mp hkey
      exact ht.steps e' he' s (hname ▸ hs)
    · rw [hkey, List.mem_append, List.mem_singleton] at hs
      obtain hs | rfl := hs
      · obtain rfl | ⟨front, step, rfl⟩ := List.eq_nil_or_concat' n
        · cases hs
        · obtain ⟨e', he', hname⟩ := node?_ne_none_iff.mp (hn ▸ Option.some_ne_none _)
          exact ht.steps e' he' s (hname ▸ hs)
      · exact hf

theorem locate_insert (ht : WellNamed t) (hn : t.node? n = some .directory)
    (hfree : t.node? (n ++ [f]) = none) (c : Contents) {m : Name}
    (hdir : t.locate true dir = .found m .directory) :
    (t.insert (n ++ [f]) (.file c)).locate true dir = .found m .directory := by
  have hkeeps := Keeps.insert_free ht.toWellFormed
    (n := n ++ [f]) ⟨hfree, by rwa [List.dropLast_concat]⟩ c
  obtain ⟨hpath, hwalk⟩ := walk_of_locate hdir (by simp) (by simp)
  obtain ⟨y, hy, hkept⟩ := walk_again hkeeps.later hwalk
  cases hkept
  rw [locate, if_pos hpath]
  exact hy

end TypedClient.Proofs.Relisting
