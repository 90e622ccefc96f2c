import Mathlib.Data.List.Nodup
import Mathlib.Data.List.Perm.Subperm
import TypedClient.Module.ImportTable

namespace TypedClient.Proofs.FreshName

open TypedClient.Module TypedClient.Identifier TypedClient.Text

/-- A letter, an underscore or a dollar sign, and further ones or digits behind it. -/
def IsIdentifier (name : String) : Prop :=
  ∃ c cs, name.toList = c :: cs ∧ isDigit c = false ∧ ∀ x ∈ c :: cs, isPart x = true

theorem sanitize_isIdentifier (name : String) : IsIdentifier (sanitize name) := by
  have hp : ∀ x ∈ name.toList.map (fun c => if isPart c then c else '_'), isPart x = true := by
    intro x hx
    obtain ⟨c, -, rfl⟩ := List.mem_map.mp hx
    cases hc : isPart c with
    | true => simpa using hc
    | false => simp [isPart]
  unfold IsIdentifier sanitize sanitizeChars
  rw [String.toList_ofList]
  generalize name.toList.map (fun c => if isPart c then c else '_') = ds at hp
  cases ds with
  | nil => exact ⟨'_', [], rfl, rfl, by simp [isPart]⟩
  | cons d ds =>
    cases hd : isDigit d with
    | true => exact ⟨'_', d :: ds, by simp [hd], rfl, List.forall_mem_cons.mpr ⟨by simp [isPart], hp⟩⟩
    | false => exact ⟨d, ds, by simp [hd], hd, hp⟩

theorem map_isPart {cs : List Char} (h : ∀ c ∈ cs, isPart c = true) :
    cs.map (fun c => if isPart c then c else '_') = cs :=
  (List.map_congr_left fun c hc => if_pos (h c hc)).trans (List.map_id' _)

theorem sanitize_eq_self {name : String} (h : IsIdentifier name) : sanitize name = name := by
  obtain ⟨c, cs, hc, hd, hp⟩ := h
  rw [sanitize, sanitizeChars, hc, map_isPart hp]
  simp only [hd, Bool.false_eq_true, if_false]
  rw [← hc, String.ofList_toList]

theorem sanitize_cases (name : String) : sanitize name = name ∨ '_' ∈ (sanitize name).toList := by
  rw [sanitize, sanitizeChars, String.toList_ofList]
  by_cases hpart : ∀ c ∈ name.toList, isPart c = true
  · rw [map_isPart hpart]
    split
    · exact .inr List.mem_cons_self
    · rename_i c cs hc
      split
      · exact .inr List.mem_cons_self
      · exact .inl (by rw [← hc, String.ofList_toList])
  · push Not at hpart
    obtain ⟨c, hc, hpart⟩ := hpart
    have hmem : '_' ∈ name.toList.map (fun c => if isPart c then c else '_') :=
      List.mem_map.mpr ⟨c, hc, if_neg hpart⟩
    right
    split
    · exact List.mem_cons_self
    · rename_i d ds hd
      rw [hd] at hmem
      split
      · exact List.mem_cons_self
      · exact hmem

theorem toList_numbered (base : String) (n : Nat) :
    (numbered base n).toList = base.toList ++ '_' :: Nat.toDigits 10 n := by
  simp [numbered, Nat.toList_repr]

theorem numbered_isIdentifier {base : String} (h : IsIdentifier base) (n : Nat) :
    IsIdentifier (numbered base n) := by
  obtain ⟨c, cs, hc, hd, hp⟩ := h
  refine ⟨c, cs ++ '_' :: Nat.toDigits 10 n, by rw [toList_numbered, hc, List.cons_append], hd, ?_⟩
  intro x hx
  rw [← List.cons_append, List.mem_append] at hx
  rcases hx with hx | hx
  · exact hp x hx
  obtain rfl | hx := List.mem_cons.mp hx
  · simp [isPart]
  · have hx : x.isDigit = true := Nat.isDigit_of_mem_toDigits (by decide) (by decide) hx
    simp [isPart, isLetterOrDigit, isDigit, hx]

theorem underscore_mem_numbered (base : String) (n : Nat) : '_' ∈ (numbered base n).toList := by
  simp [toList_numbered]

theorem numbered_injective (base : String) : Function.Injective (numbered base) := by
  intro m n h
  have hl := congrArg String.toList h
  rw [toList_numbered, toList_numbered, List.append_cancel_left_eq, List.cons.injEq] at hl
  have hd := congrArg (fun ds => Nat.ofDigitChars 10 ds 0) hl.2
  simpa using hd

theorem underscore_not_mem_of_isReserved {name : String} (h : isReserved name = true) :
    '_' ∉ name.toList := by
  have hw : ∀ w ∈ reservedWords, '_' ∉ w.toList := by decide
  exact hw name (by simpa [isReserved] using h)

theorem isReserved_numbered (base : String) (n : Nat) : isReserved (numbered base n) = false := by
  rw [← Bool.not_eq_true]
  intro h
  exact underscore_not_mem_of_isReserved h (underscore_mem_numbered base n)

theorem exists_numbered_not_mem (taken : List String) (base : String) :
    ∃ n ∈ List.range (taken.length + 1), numbered base (n + 1) ∉ taken := by
  by_contra h
  push Not at h
  have hs : (List.range (taken.length + 1)).map (fun n => numbered base (n + 1)) ⊆ taken := by
    intro x hx
    obtain ⟨n, hn, rfl⟩ := List.mem_map.mp hx
    exact h n hn
  have hinj : Function.Injective fun n => numbered base (n + 1) := fun m n he =>
    Nat.succ.inj (numbered_injective base he)
  have hd := (List.nodup_map_iff hinj).mpr (List.nodup_range (n := taken.length + 1))
  have hl := (List.subperm_of_subset hd hs).length_le
  rw [List.length_map, List.length_range] at hl
  omega

theorem firstFree_eq (taken : List String) (base : String) :
    ∃ n, 1 ≤ n ∧ firstFree taken base = numbered base n ∧ numbered base n ∉ taken ∧
      ∀ k, 1 ≤ k → k < n → numbered base k ∈ taken := by
  obtain ⟨m, hm, hfree⟩ := exists_numbered_not_mem taken base
  have hsome : ((List.range (taken.length + 1)).find?
      fun n => !taken.contains (numbered base (n + 1))).isSome = true :=
    List.find?_isSome.mpr ⟨m, hm, by simpa using hfree⟩
  obtain ⟨n, hn⟩ := Option.isSome_iff_exists.mp hsome
  obtain ⟨hp, -, hleast⟩ := List.find?_range_eq_some.mp hn
  refine ⟨n + 1, by omega, ?_, by simpa using hp, fun k hk hkn => ?_⟩
  · unfold firstFree
    rw [List.find?_map]
    simp only [Function.comp_def, hn, Option.map_some, Option.getD_some]
  · have hk' := hleast (k - 1) (by omega)
    rw [Nat.sub_add_cancel hk] at hk'
    simpa using hk'

/-- A name made unique is the base, or where that is taken a free numbered one. -/
theorem unique_cases (taken : List String) (base : String) :
    (base ∉ taken ∧ unique taken base = base) ∨
      (base ∈ taken ∧ ∃ n, unique taken base = numbered base n ∧ numbered base n ∉ taken) := by
  unfold unique
  by_cases h : base ∈ taken
  · obtain ⟨n, -, he, hfree, -⟩ := firstFree_eq taken base
    exact .inr ⟨h, n, by rw [if_pos (List.contains_iff_mem.mpr h), he], hfree⟩
  · exact .inl ⟨h, by rw [if_neg (by simpa using h)]⟩

theorem unique_not_mem (taken : List String) (base : String) : unique taken base ∉ taken := by
  obtain ⟨h, he⟩ | ⟨-, n, he, h⟩ := unique_cases taken base <;> rwa [he]

def uniques : List String → List String → List String
  | _, [] => []
  | taken, name :: names =>
    unique taken name :: uniques (unique taken name :: taken) names

theorem nodup_uniques (taken names : List String) :
    (uniques taken names).Nodup ∧ ∀ n ∈ uniques taken names, n ∉ taken := by
  induction names generalizing taken with
  | nil => exact ⟨List.nodup_nil, by simp [uniques]⟩
  | cons name names ih =>
    obtain ⟨hnodup, hapart⟩ := ih (unique taken name :: taken)
    refine ⟨List.nodup_cons.mpr ⟨fun h => hapart _ h List.mem_cons_self, hnodup⟩, ?_⟩
    refine List.forall_mem_cons.mpr ⟨unique_not_mem taken name, fun n hn h => ?_⟩
    exact hapart n hn (List.mem_cons_of_mem _ h)

/-- The name for a suggestion when the names that are `Used` cannot be given: the sanitized
suggestion, or that with the least number behind it that makes it free. -/
def IsNameFor (Used : String → Prop) (suggested name : String) : Prop :=
  (¬ Used (sanitize suggested) ∧ sanitize suggested ∉ reservedWords ∧ name = sanitize suggested) ∨
    ((Used (sanitize suggested) ∨ sanitize suggested ∈ reservedWords) ∧
      ∃ n, 1 ≤ n ∧ name = numbered (sanitize suggested) n ∧ ¬ Used name ∧
        ∀ k, 1 ≤ k → k < n → Used (numbered (sanitize suggested) k))

theorem freshName_isNameFor (t : ImportTable) (suggested : String) :
    IsNameFor (· ∈ t.taken) suggested (t.freshName suggested) := by
  unfold IsNameFor ImportTable.freshName
  simp only [Bool.or_eq_true, List.contains_iff_mem, isReserved]
  by_cases h : sanitize suggested ∈ t.taken ∨ sanitize suggested ∈ reservedWords
  · rw [if_pos h]
    obtain ⟨n, hn, he, hfree, hleast⟩ := firstFree_eq t.taken (sanitize suggested)
    exact .inr ⟨h, n, hn, he, he ▸ hfree, hleast⟩
  · rw [if_neg h]
    rw [not_or] at h
    exact .inl ⟨h.1, h.2, rfl⟩

variable {Used : String → Prop} {suggested name : String}

theorem IsNameFor.not_used (h : IsNameFor Used suggested name) : ¬ Used name := by
  obtain ⟨hu, -, rfl⟩ | ⟨-, n, -, -, hu, -⟩ := h <;> exact hu

theorem IsNameFor.isIdentifier (h : IsNameFor Used suggested name) : IsIdentifier name := by
  obtain ⟨-, -, rfl⟩ | ⟨-, n, -, rfl, -⟩ := h
  · exact sanitize_isIdentifier suggested
  · exact numbered_isIdentifier (sanitize_isIdentifier suggested) n

theorem IsNameFor.eq_or_underscore (h : IsNameFor Used suggested name) :
    name = suggested ∨ '_' ∈ name.toList := by
  obtain ⟨-, -, rfl⟩ | ⟨-, n, -, rfl, -⟩ := h
  · exact sanitize_cases suggested
  · exact .inr (underscore_mem_numbered _ n)

theorem IsNameFor.not_mem_reservedWords (h : IsNameFor Used suggested name) :
    name ∉ reservedWords := by
  obtain ⟨-, hr, rfl⟩ | ⟨-, n, -, rfl, -⟩ := h
  · exact hr
  · have hn := isReserved_numbered (sanitize suggested) n
    rw [isReserved, ← Bool.not_eq_true, List.contains_iff_mem] at hn
    exact hn

end TypedClient.Proofs.FreshName
