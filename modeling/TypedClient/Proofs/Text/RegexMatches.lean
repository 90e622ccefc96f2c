import TypedClient.Text.Regex

namespace TypedClient.Text.Regex

inductive Goes : Regex → Cursor → Cursor → Prop
  | empty {s : Cursor} : Goes .empty s s
  | one {p : Char → Bool} {c : Char} {cs : List Char} {start : Bool} {groups : List (Nat × Span)}
      (hc : p c = true) : Goes (.one p) ⟨c :: cs, start, groups⟩ (Cursor.advance c cs groups)
  | stop {p : Char → Bool} {s : Cursor} : Goes (.many p) s s
  | more {p : Char → Bool} {c : Char} {cs : List Char} {start : Bool} {groups : List (Nat × Span)}
      {t : Cursor} (hc : p c = true) (h : Goes (.many p) (Cursor.advance c cs groups) t) :
      Goes (.many p) ⟨c :: cs, start, groups⟩ t
  | seq {a b : Regex} {s t u : Cursor} (ha : Goes a s t) (hb : Goes b t u) : Goes (.seq a b) s u
  | left {a b : Regex} {s t : Cursor} (h : Goes a s t) : Goes (.alt a b) s t
  | right {a b : Regex} {s t : Cursor} (h : Goes b s t) : Goes (.alt a b) s t
  | group {n : Nat} {a : Regex} {s t : Cursor} (h : Goes a s t) :
      Goes (.group n a) s { t with groups := (n, ⟨s.rest, t.rest⟩) :: t.groups }
  | lineStart {s : Cursor} (h : s.atLineStart = true) : Goes .lineStart s s

end TypedClient.Text.Regex

namespace TypedClient.Proofs.RegexMatches

open TypedClient.Text TypedClient.Text.Regex

variable {α β : Type} {r : Regex} {k : Cursor → Option α} {f : Cursor → List Char} {g : Char → β}
  {p : Char → Bool} {s t : Cursor} {cs w : List Char} {a : α} {n : Nat}

theorem exists_goes_of_manyThen (groups : List (Nat × Span)) (start : Bool)
    (h : manyThen p groups k start cs = some a) :
    ∃ t, Goes (.many p) ⟨cs, start, groups⟩ t ∧ k t = some a := by
  induction cs generalizing start with
  | nil => exact ⟨_, .stop, h⟩
  | cons c cs ih =>
    rw [manyThen] at h
    split at h
    · rename_i hc
      rw [Option.orElse_eq_orElse, Option.orElse_eq_or, Option.or_eq_some_iff] at h
      obtain h | ⟨-, h⟩ := h
      · obtain ⟨t, ht, hk⟩ := ih _ h
        exact ⟨t, .more hc ht, hk⟩
      · exact ⟨_, .stop, h⟩
    · exact ⟨_, .stop, h⟩

/-- A run that succeeds goes somewhere from where its continuation succeeds. -/
theorem exists_goes_of_run (h : r.run k s = some a) : ∃ t, Goes r s t ∧ k t = some a := by
  induction r generalizing k s with
  | empty => exact ⟨s, .empty, h⟩
  | one p =>
    obtain ⟨cs, start, groups⟩ := s
    cases cs with
    | nil => cases h
    | cons c cs =>
      rw [run, Option.ite_none_right_eq_some] at h
      exact ⟨_, .one h.1, h.2⟩
  | many p => exact exists_goes_of_manyThen s.groups s.atLineStart h
  | seq a b iha ihb =>
    obtain ⟨t, ht, hb⟩ := iha h
    obtain ⟨u, hu, hk⟩ := ihb hb
    exact ⟨u, .seq ht hu, hk⟩
  | alt a b iha ihb =>
    rw [run, Option.orElse_eq_orElse, Option.orElse_eq_or, Option.or_eq_some_iff] at h
    obtain h | ⟨-, h⟩ := h
    · obtain ⟨t, ht, hk⟩ := iha h
      exact ⟨t, .left ht, hk⟩
    · obtain ⟨t, ht, hk⟩ := ihb h
      exact ⟨t, .right ht, hk⟩
  | group n a ih =>
    obtain ⟨t, ht, hk⟩ := ih h
    exact ⟨_, .group ht, hk⟩
  | lineStart =>
    rw [run, Option.ite_none_right_eq_some] at h
    exact ⟨s, .lineStart h.1, h.2⟩

theorem suffix_of_goes (h : Goes r s t) : t.rest <:+ s.rest := by
  induction h with
  | empty | stop | lineStart => exact List.suffix_refl _
  | one hc => exact List.suffix_cons _ _
  | more hc h ih => exact ih.trans (List.suffix_cons _ _)
  | seq ha hb iha ihb => exact ihb.trans iha
  | left h ih | right h ih | group h ih => exact ih

theorem isSome_manyThen (h : Goes (.many p) s t) (hk : (k t).isSome) :
    (manyThen p s.groups k s.atLineStart s.rest).isSome := by
  generalize hr : Regex.many p = r at h
  induction h with
  | @stop _ s =>
    obtain ⟨cs, start, groups⟩ := s
    cases cs with
    | nil => exact hk
    | cons c cs =>
      rw [manyThen]
      split <;> simp [hk]
  | @more q c cs _ _ _ hc _ ih =>
    obtain rfl := Regex.many.inj hr
    have hmore := ih hk rfl
    rw [manyThen, if_pos hc]
    simp only [Option.orElse_eq_orElse, Option.orElse_eq_or, Option.isSome_or, Bool.or_eq_true]
    exact .inl hmore
  | _ => cases hr

/-- A run succeeds if its continuation does from somewhere that the expression goes to. -/
theorem isSome_run (h : Goes r s t) (hk : (k t).isSome) : (r.run k s).isSome := by
  induction h generalizing k with
  | empty => exact hk
  | one hc =>
    simp only [run]
    rw [if_pos hc]
    exact hk
  | stop => exact isSome_manyThen .stop hk
  | more hc h => exact isSome_manyThen (.more hc h) hk
  | seq _ _ iha ihb => exact iha (ihb hk)
  | left _ ih =>
    simp only [run, Option.orElse_eq_orElse, Option.orElse_eq_or, Option.isSome_or, ih hk,
      Bool.true_or]
  | right _ ih =>
    simp only [run, Option.orElse_eq_orElse, Option.orElse_eq_or, Option.isSome_or, ih hk,
      Bool.or_true]
  | group _ ih => exact ih hk
  | lineStart h =>
    rw [run, if_pos h]
    exact hk

theorem exists_goes_text (w rest : List Char) (start : Bool) (groups : List (Nat × Span)) :
    ∃ start', Goes (.text w) ⟨w ++ rest, start, groups⟩ ⟨rest, start', groups⟩ := by
  induction w generalizing start with
  | nil => exact ⟨start, .empty⟩
  | cons c w ih =>
    obtain ⟨start', h⟩ := ih (c = '\n')
    exact ⟨start', .seq (.one (beq_self_eq_true c)) h⟩

theorem exists_goes_many (hw : ∀ c ∈ w, p c = true) (rest : List Char) (start : Bool)
    (groups : List (Nat × Span)) :
    ∃ start', Goes (.many p) ⟨w ++ rest, start, groups⟩ ⟨rest, start', groups⟩ := by
  induction w generalizing start with
  | nil => exact ⟨start, .stop⟩
  | cons c w ih =>
    rw [List.forall_mem_cons] at hw
    obtain ⟨start', h⟩ := ih hw.2 (c = '\n')
    exact ⟨start', .more hw.1 h⟩

theorem exists_goes_some (hne : w ≠ []) (hw : ∀ c ∈ w, p c = true) (rest : List Char)
    (start : Bool) (groups : List (Nat × Span)) :
    ∃ start', Goes (.some p) ⟨w ++ rest, start, groups⟩ ⟨rest, start', groups⟩ := by
  cases w with
  | nil => exact absurd rfl hne
  | cons c w =>
    rw [List.forall_mem_cons] at hw
    obtain ⟨start', h⟩ := exists_goes_many hw.2 rest (c = '\n') groups
    exact ⟨start', .seq (.one hw.1) h⟩

theorem goes_text (h : Goes (.text w) s t) : s.rest = w ++ t.rest ∧ t.groups = s.groups := by
  induction w generalizing s with
  | nil =>
    cases h
    exact ⟨rfl, rfl⟩
  | cons c w ih =>
    cases h with
    | seq hone hbehind =>
      cases hone with
      | one hc =>
        obtain ⟨hrest, hgroups⟩ := ih hbehind
        obtain rfl := beq_iff_eq.mp hc
        exact ⟨congrArg (List.cons _) hrest, hgroups⟩

theorem goes_many (h : Goes (.many p) s t) :
    ∃ w, (∀ c ∈ w, p c = true) ∧ s.rest = w ++ t.rest ∧ t.groups = s.groups := by
  generalize hr : Regex.many p = r at h
  induction h with
  | stop => exact ⟨[], by simp, rfl, rfl⟩
  | @more q c cs _ _ _ hc _ ih =>
    obtain rfl := Regex.many.inj hr
    obtain ⟨w, hw, hrest, hgroups⟩ := ih rfl
    exact ⟨c :: w, List.forall_mem_cons.mpr ⟨hc, hw⟩, congrArg (c :: ·) hrest, hgroups⟩
  | _ => cases hr

theorem goes_some (h : Goes (.some p) s t) :
    ∃ w, w ≠ [] ∧ (∀ c ∈ w, p c = true) ∧ s.rest = w ++ t.rest ∧ t.groups = s.groups := by
  cases h with
  | seq hone hmany =>
    cases hone with
    | @one _ c _ _ _ hc =>
      obtain ⟨w, hw, hrest, hgroups⟩ := goes_many hmany
      exact ⟨c :: w, List.cons_ne_nil c w, List.forall_mem_cons.mpr ⟨hc, hw⟩,
        congrArg (c :: ·) hrest, hgroups⟩

theorem map_replaceFrom (hf : ∀ s t, Goes r s t → ∃ w, s.rest = w ++ t.rest ∧ (f t).map g = w.map g)
    (skip : Nat) (start : Bool) (cs : List Char) :
    (replaceFrom r f skip start cs).map g = (cs.drop skip).map g := by
  induction cs generalizing skip start with
  | nil => simp [replaceFrom]
  | cons c cs ih =>
    cases skip with
    | succ skip => exact ih skip _
    | zero =>
      have hkept : (c :: replaceFrom r f 0 (c = '\n') cs).map g = (c :: cs).map g := by
        rw [List.map_cons, ih, List.drop_zero, List.map_cons]
      rw [replaceFrom, List.drop_zero]
      split
      · rename_i t hrun
        split
        · rename_i hle
          obtain ⟨u, hu, hut⟩ := exists_goes_of_run hrun
          obtain rfl := Option.some.inj hut
          obtain ⟨w, hw, hsame⟩ := hf _ _ hu
          have hw : c :: cs = w ++ u.rest := hw
          cases w with
          | nil =>
            have hlength := congrArg List.length hw
            simp only [List.length_cons, List.nil_append] at hlength
            omega
          | cons d w =>
            obtain ⟨rfl, rfl⟩ := List.cons.inj hw
            rw [List.map_append, hsame, ih]
            simp
        · exact hkept
      · exact hkept

/-- A replacement that keeps what `g` shows of every match keeps what it shows of the text. -/
theorem map_replaceAll
    (hf : ∀ s t, Goes r s t → ∃ w, s.rest = w ++ t.rest ∧ (f t).map g = w.map g) (cs : List Char) :
    (r.replaceAll f cs).map g = cs.map g :=
  map_replaceFrom hf 0 true cs

end TypedClient.Proofs.RegexMatches
