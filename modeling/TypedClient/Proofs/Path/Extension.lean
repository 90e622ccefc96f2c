import TypedClient.Proofs.Path.Parent

namespace TypedClient.Proofs.Extension

open TypedClient.Text TypedClient.Path
open TypedClient.Proofs.Ancestors TypedClient.Proofs.Joining TypedClient.Proofs.Parent
open TypedClient.Proofs.Pieces

variable {p name : String}

theorem isAbsolute_append_take {k : Nat} (h : isAbsolute p = true) (hk : 0 < k) (cs : List Char) :
    isAbsolute (String.ofList (p.toList.take k ++ cs)) = true := by
  obtain ⟨ds, hds⟩ := isAbsolute_iff.mp h
  obtain ⟨k, rfl⟩ := Nat.exists_eq_succ_of_ne_zero hk.ne'
  rw [isAbsolute_iff, String.toList_ofList, hds, List.take_succ_cons]
  exact ⟨_, rfl⟩

theorem length_le_of_mem_pieces {s : String} (h : s ∈ pieces '/' p) : s.length ≤ p.length := by
  have hjoin : ∀ ps : List String, s ∈ ps → s.length ≤ ((String.singleton '/').intercalate ps).length := by
    intro ps
    induction ps with
    | nil => simp
    | cons r rs ih =>
      intro hs
      by_cases hrs : rs = []
      · subst hrs
        rw [List.mem_singleton.mp hs, String.intercalate_singleton]
      · rw [String.intercalate_cons_of_ne_nil hrs, String.length_append, String.length_append]
        obtain rfl | hs := List.mem_cons.mp hs
        · omega
        · have := ih hs
          omega
  have hp := hjoin _ h
  rwa [intercalate_pieces] at hp

theorem mem_of_name_mem_inner {ps : List String} {s : String} (h : .name s ∈ inner ps) :
    s ∈ ps ∧ s ≠ "" := by
  obtain ⟨r, hr, hstep, hempty, -, -⟩ := step?_of_mem_inner h
  obtain rfl : s = r := Option.some.inj hstep
  exact ⟨hr, hempty⟩

theorem fileName?_mem {s : String} (h : fileName? p = some s) : .name s ∈ inner (pieces '/' p) := by
  rw [fileName?] at h
  split at h
  · rename_i r hlast
    obtain rfl := Option.some.inj h
    have hmem := List.mem_of_getLast? hlast
    rw [components_eq, List.mem_append] at hmem
    refine hmem.resolve_left fun hleading => ?_
    unfold leading at hleading
    split_ifs at hleading <;> simp at hleading
  · cases h

/-- A path is no shorter than its file name, also without what is written behind that. -/
theorem length_fileName?_le {s : String} (h : fileName? p = some s) :
    s ≠ "" ∧ s.length ≤ p.length ∧ s.length ≤ (upToLast p).length := by
  have hmem := fileName?_mem h
  have hback : p = backwards p.toList.reverse := (backwards_reverse p).symm
  have hlast := hmem
  rw [hback, ← inner_dropEmptyNames] at hlast
  obtain ⟨hpiece, hne⟩ := mem_of_name_mem_inner hmem
  have hle := length_le_of_mem_pieces (mem_of_name_mem_inner hlast).1
  exact ⟨hne, length_le_of_mem_pieces hpiece, by simpa [backwards, upToLast] using hle⟩

theorem stem_ne_empty (h : name ≠ "") : (splitExtension name).1 ≠ "" := by
  unfold splitExtension
  split_ifs
  · exact h
  · dsimp only
    split
    · exact h
    · exact h
    · rename_i c stem hne _
      rw [ne_eq, String.ofList_eq_empty_iff, List.reverse_eq_nil_iff]
      exact hne

theorem stem_prefix (name : String) : (splitExtension name).1.toList <+: name.toList := by
  unfold splitExtension
  split_ifs
  · exact List.prefix_refl _
  · dsimp only
    split
    · exact List.prefix_refl _
    · exact List.prefix_refl _
    · rename_i c stem _ hdrop
      rw [String.toList_ofList, ← List.reverse_suffix, List.reverse_reverse]
      have hsuffix := List.dropWhile_suffix (l := name.toList.reverse) (· ≠ '.')
      rw [hdrop] at hsuffix
      exact (List.suffix_cons c stem).trans hsuffix

theorem length_extension_lt {old : String} (h : (splitExtension name).2 = some old) :
    old.length < name.length := by
  unfold splitExtension at h
  split_ifs at h
  dsimp only at h
  split at h
  · cases h
  · cases h
  · rename_i c stem _ hdrop
    obtain rfl := Option.some.inj h
    have hparts := List.takeWhile_append_dropWhile (p := (· ≠ '.')) (l := name.toList.reverse)
    have hlen := congrArg List.length hparts
    rw [hdrop, List.length_append, List.length_cons, List.length_reverse] at hlen
    rw [String.length_ofList, List.length_reverse, ← String.length_toList]
    omega

theorem isAbsolute_setExtension (h : isAbsolute p = true) (extension : String) :
    isAbsolute (setExtension p extension) = true := by
  rw [setExtension]
  split
  · exact h
  · rename_i name hname
    obtain ⟨hne, -, hle⟩ := length_fileName?_le hname
    have hstem := String.length_eq_zero_iff.not.mpr (stem_ne_empty hne)
    have hpos := String.length_eq_zero_iff.not.mpr hne
    obtain ⟨cs, hcs⟩ := isAbsolute_iff.mp h
    have hfront : isAbsolute (String.ofList (upToLast p)) = true := by
      have hpre : upToLast p <+: p.toList := by
        have hsuffix := List.reverse_prefix.mpr (dropEmptyNames_suffix p.toList.reverse)
        rwa [List.reverse_reverse] at hsuffix
      have hne : upToLast p ≠ [] := fun hnil => by
        rw [hnil, List.length_nil] at hle
        omega
      obtain ⟨c, ds, hds⟩ := List.exists_cons_of_ne_nil hne
      rw [hds, hcs, List.cons_prefix_cons] at hpre
      rw [isAbsolute_iff, String.toList_ofList, hds, hpre.1]
      exact ⟨ds, rfl⟩
    have htake := isAbsolute_append_take (k := (upToLast p).length -
      (name.length - (splitExtension name).1.length)) hfront (by omega)
    simpa using htake _

theorem isAbsolute_withExtension (h : isAbsolute p = true) (extension : String) :
    isAbsolute (withExtension p extension) = true := by
  rw [withExtension]
  refine isAbsolute_setExtension ?_ extension
  cases hold : extension? p with
  | none => exact h
  | some old =>
    obtain ⟨name, hname, hold⟩ := Option.bind_eq_some_iff.mp hold
    have hlt := length_extension_lt hold
    obtain ⟨-, hle, -⟩ := length_fileName?_le hname
    have htake := isAbsolute_append_take (k := p.length - old.length) h (by omega) []
    rwa [List.append_nil] at htake

end TypedClient.Proofs.Extension
