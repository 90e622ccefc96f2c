import Mathlib.Data.List.Induction
import TypedClient.Proofs.Text.RegexMatches

namespace TypedClient.Text.Regex

open TypedClient.Proofs.RegexMatches

variable {r a b : Regex} {s t u : Cursor} {n : Nat}

/-- The first way tried by an expression goes from one cursor to the other. -/
def Takes (r : Regex) (s t : Cursor) : Prop :=
  ∀ (α : Type) (k : Cursor → Option α), (k t).isSome = true → r.run k s = k t

def Spells (r : Regex) (w : List Char) : Prop :=
  ∀ rest start groups, ∃ start', Goes r ⟨w ++ rest, start, groups⟩ ⟨rest, start', groups⟩

def lineAfter (start : Bool) (w : List Char) : Bool :=
  w.foldl (fun _ c => c = '\n') start

theorem run_eq_none {α : Type} (h : ∀ t, ¬ Goes r s t) (k : Cursor → Option α) : r.run k s = none := by
  rw [Option.eq_none_iff_forall_ne_some]
  intro x hx
  obtain ⟨t, ht, -⟩ := exists_goes_of_run hx
  exact h t ht

theorem run_eq_none_iff : r.run Option.some s = none ↔ ∀ t, ¬ Goes r s t := by
  constructor
  · intro hnone t ht
    have hsome := isSome_run (k := Option.some) ht rfl
    rw [hnone] at hsome
    cases hsome
  · exact fun h => run_eq_none h _

namespace Takes

theorem seq (ha : Takes a s t) (hb : Takes b t u) : Takes (.seq a b) s u := by
  intro α k hk
  have hrest := hb α k hk
  rw [Regex.run, ha α (b.run k) (by rwa [hrest]), hrest]

theorem left (ha : Takes a s t) : Takes (.alt a b) s t := by
  intro α k hk
  rw [Regex.run, ha α k hk, Option.orElse_eq_orElse, Option.orElse_eq_or, Option.or_of_isSome hk]

theorem right (h : ∀ t, ¬ Goes a s t) (hb : Takes b s t) : Takes (.alt a b) s t := by
  intro α k hk
  rw [Regex.run, run_eq_none h, hb α k hk]
  rfl

theorem group (h : Takes a s t) :
    Takes (.group n a) s { t with groups := (n, ⟨s.rest, t.rest⟩) :: t.groups } :=
  fun α k hk => h α (fun t => k { t with groups := (n, ⟨s.rest, t.rest⟩) :: t.groups }) hk

theorem run (h : Takes r s t) : r.run Option.some s = Option.some t :=
  h Cursor Option.some rfl

theorem goes (h : Takes r s t) : Goes r s t := by
  obtain ⟨u, hu, ht⟩ := exists_goes_of_run h.run
  exact Option.some.inj ht ▸ hu

end Takes

theorem Spells.seq {w w' : List Char} (ha : Spells a w) (hb : Spells b w') :
    Spells (.seq a b) (w ++ w') := by
  intro rest start groups
  obtain ⟨start', hgoes⟩ := ha (w' ++ rest) start groups
  obtain ⟨start'', hgoes'⟩ := hb rest start' groups
  rw [List.append_assoc]
  exact ⟨start'', .seq hgoes hgoes'⟩

theorem Spells.left {w : List Char} (ha : Spells a w) : Spells (.alt a b) w := fun rest start groups =>
  (ha rest start groups).imp fun _ => .left

theorem Spells.right {w : List Char} (hb : Spells b w) : Spells (.alt a b) w := fun rest start groups =>
  (hb rest start groups).imp fun _ => .right

end TypedClient.Text.Regex

namespace TypedClient.Proofs.RegexChoices

open TypedClient.Text TypedClient.Text.Regex TypedClient.Proofs.RegexMatches

variable {r a b : Regex} {p : Char → Bool} {s t u : Cursor} {cs w rest : List Char} {start : Bool}
  {groups : List (Nat × Span)} {c : Char} {n : Nat} {rs rs' : List Regex}

theorem lineAfter_true_iff (w : List Char) :
    lineAfter true w = true ↔ ∀ c, w.getLast? = Option.some c → c = '\n' := by
  induction w using List.reverseRecOn with
  | nil => simp [lineAfter]
  | append_singleton front c => simp [lineAfter]

section Takes

theorem takes_empty (s : Cursor) : Takes .empty s s :=
  fun _ _ _ => rfl

theorem takes_nothing (h : ∀ t, ¬ Goes a s t) : Takes (.opt a) s s :=
  Takes.right h (takes_empty s)

theorem takes_behind_opt (h : ∀ t, ¬ Goes (.seq a b) s t) (hb : Takes b s u) :
    Takes (.seq (.opt a) b) s u := by
  intro α k hk
  have hnone : a.run (b.run k) s = none := run_eq_none (r := .seq a b) h k
  rw [run, Regex.opt, run, hnone]
  exact hb α k hk

theorem takes_one (hc : p c = true) :
    Takes (.one p) ⟨c :: cs, start, groups⟩ (Cursor.advance c cs groups) :=
  fun _ _ _ => if_pos hc

theorem takes_char (c : Char) (cs : List Char) (start : Bool) (groups : List (Nat × Span)) :
    Takes (.char c) ⟨c :: cs, start, groups⟩ (Cursor.advance c cs groups) :=
  takes_one (beq_self_eq_true c)

theorem takes_text (w rest : List Char) (start : Bool) (groups : List (Nat × Span)) :
    Takes (.text w) ⟨w ++ rest, start, groups⟩ ⟨rest, lineAfter start w, groups⟩ := by
  induction w generalizing start with
  | nil => exact takes_empty _
  | cons c w ih => exact (takes_char c _ start groups).seq (ih _)

theorem takes_many (hw : ∀ c ∈ w, p c = true) (hrest : ∀ c, rest.head? = Option.some c → p c = false)
    (start : Bool) (groups : List (Nat × Span)) :
    Takes (.many p) ⟨w ++ rest, start, groups⟩ ⟨rest, lineAfter start w, groups⟩ := by
  intro α k hk
  change manyThen p groups k start (w ++ rest) = _
  induction w generalizing start with
  | nil =>
    cases rest with
    | nil => rfl
    | cons c rest =>
      rw [List.nil_append, manyThen, hrest c rfl]
      rfl
  | cons c w ih =>
    rw [List.forall_mem_cons] at hw
    have hmore := ih hw.2 (c = '\n') hk
    rw [List.cons_append, manyThen, if_pos hw.1, hmore, Option.orElse_eq_orElse, Option.orElse_eq_or]
    exact Option.or_of_isSome hk

theorem takes_some (hne : w ≠ []) (hw : ∀ c ∈ w, p c = true)
    (hrest : ∀ c, rest.head? = Option.some c → p c = false) (start : Bool)
    (groups : List (Nat × Span)) :
    Takes (.some p) ⟨w ++ rest, start, groups⟩ ⟨rest, lineAfter start w, groups⟩ := by
  obtain ⟨c, w, rfl⟩ := List.exists_cons_of_ne_nil hne
  rw [List.forall_mem_cons] at hw
  exact (takes_one hw.1).seq (takes_many hw.2 hrest _ groups)

theorem run_seqs_append {α : Type} (rs rs' : List Regex) (k : Cursor → Option α) :
    (seqs (rs ++ rs')).run k = (seqs rs).run ((seqs rs').run k) := by
  induction rs with
  | nil => rfl
  | cons r rs ih => exact congrArg r.run ih

theorem takes_seqs_append (h : Takes (.seqs rs) s t) (h' : Takes (.seqs rs') t u) :
    Takes (.seqs (rs ++ rs')) s u := by
  intro α k hk
  have hrest := h' α k hk
  rw [run_seqs_append, h α _ (by rwa [hrest]), hrest]

theorem takes_lineStart (h : s.atLineStart = true) : Takes .lineStart s s :=
  fun _ _ _ => if_pos h

end Takes

section Spells

theorem spells_empty : Spells .empty [] := fun _ start _ =>
  ⟨start, .empty⟩

theorem spells_one (hc : p c = true) : Spells (.one p) [c] := fun _ _ _ =>
  ⟨_, .one hc⟩

theorem spells_char (c : Char) : Spells (.char c) [c] :=
  spells_one (beq_self_eq_true c)

theorem spells_text (w : List Char) : Spells (.text w) w :=
  exists_goes_text w

theorem spells_many (hw : ∀ c ∈ w, p c = true) : Spells (.many p) w :=
  exists_goes_many hw

end Spells

section Goes

theorem goes_char (h : Goes (.char c) s t) : s.rest = c :: t.rest ∧ t.groups = s.groups := by
  cases h with
  | one hc =>
    obtain rfl := beq_iff_eq.mp hc
    exact ⟨rfl, rfl⟩

theorem goes_opt (h : Goes (.opt a) s t) : Goes a s t ∨ t = s := by
  cases h with
  | left h => exact .inl h
  | right h =>
    cases h
    exact .inr rfl

theorem goes_group (h : Goes (.group n a) s t) : ∃ u, Goes a s u ∧ t.rest = u.rest := by
  cases h with
  | group h => exact ⟨_, h, rfl⟩

theorem goes_seqs_cons : Goes (.seqs (r :: rs)) s u ↔ ∃ t, Goes r s t ∧ Goes (.seqs rs) t u := by
  constructor
  · intro h
    cases h with
    | seq ha hb => exact ⟨_, ha, hb⟩
  · rintro ⟨t, ha, hb⟩
    exact .seq ha hb

theorem goes_seqs_nil : Goes (.seqs []) s t ↔ t = s := by
  constructor
  · intro h
    cases h
    rfl
  · rintro rfl
    exact .empty

theorem goes_seqs_append :
    Goes (.seqs (rs ++ rs')) s u ↔ ∃ t, Goes (.seqs rs) s t ∧ Goes (.seqs rs') t u := by
  induction rs generalizing s with
  | nil => simp only [List.nil_append, goes_seqs_nil, exists_eq_left]
  | cons r rs ih =>
    simp only [List.cons_append, goes_seqs_cons, ih]
    constructor
    · rintro ⟨v, hr, t, hrs, hrs'⟩
      exact ⟨t, ⟨v, hr, hrs⟩, hrs'⟩
    · rintro ⟨t, ⟨v, hr, hrs⟩, hrs'⟩
      exact ⟨v, hr, t, hrs, hrs'⟩

end Goes

section Search

theorem searchFrom?_eq_none_iff :
    r.searchFrom? start cs = none ↔
      ∀ front back, cs = front ++ back → ∀ t, ¬ Goes r ⟨back, lineAfter start front, []⟩ t := by
  induction cs generalizing start with
  | nil =>
    rw [searchFrom?, run_eq_none_iff]
    constructor
    · intro h front back hsplit
      obtain ⟨rfl, rfl⟩ := List.append_eq_nil_iff.mp hsplit.symm
      exact h
    · exact fun h => h [] [] rfl
  | cons c cs ih =>
    rw [searchFrom?, Option.orElse_eq_orElse, Option.orElse_eq_or, Option.or_eq_none_iff,
      run_eq_none_iff, ih]
    constructor
    · rintro ⟨hhere, hlater⟩ front back hsplit
      cases front with
      | nil =>
        obtain rfl : back = c :: cs := hsplit.symm
        exact hhere
      | cons d front =>
        obtain ⟨rfl, hcs⟩ := List.cons.inj hsplit
        exact hlater front back hcs
    · exact fun h => ⟨h [] _ rfl, fun front back hcs => h (c :: front) back (congrArg (c :: ·) hcs)⟩

theorem searchFrom?_eq_some_iff :
    r.searchFrom? start cs = Option.some t ↔
      ∃ front back, cs = front ++ back ∧
        r.run Option.some ⟨back, lineAfter start front, []⟩ = Option.some t ∧
        ∀ front' back', cs = front' ++ back' → front'.length < front.length →
          ∀ u, ¬ Goes r ⟨back', lineAfter start front', []⟩ u := by
  induction cs generalizing start with
  | nil =>
    rw [searchFrom?]
    constructor
    · exact fun h => ⟨[], [], rfl, h, nofun⟩
    · rintro ⟨front, back, hsplit, hrun, -⟩
      obtain ⟨rfl, rfl⟩ := List.append_eq_nil_iff.mp hsplit.symm
      exact hrun
  | cons c cs ih =>
    rw [searchFrom?, Option.orElse_eq_orElse, Option.orElse_eq_or, Option.or_eq_some_iff,
      run_eq_none_iff, ih]
    constructor
    · rintro (hhere | ⟨hnot, front, back, hcs, hrun, hfirst⟩)
      · exact ⟨[], c :: cs, rfl, hhere, nofun⟩
      · refine ⟨c :: front, back, congrArg (c :: ·) hcs, hrun, fun front' back' hsplit hlt => ?_⟩
        cases front' with
        | nil =>
          obtain rfl : back' = c :: cs := hsplit.symm
          exact hnot
        | cons d front' =>
          obtain ⟨rfl, hcs'⟩ := List.cons.inj hsplit
          exact hfirst front' back' hcs' (Nat.lt_of_succ_lt_succ hlt)
    · rintro ⟨front, back, hsplit, hrun, hfirst⟩
      cases front with
      | nil =>
        obtain rfl : back = c :: cs := hsplit.symm
        exact .inl hrun
      | cons d front =>
        obtain ⟨rfl, hcs⟩ := List.cons.inj hsplit
        exact .inr ⟨hfirst [] _ rfl (Nat.succ_pos _), front, back, hcs, hrun,
          fun front' back' hcs' hlt => hfirst (c :: front') back' (congrArg (c :: ·) hcs')
            (Nat.succ_lt_succ hlt)⟩

theorem suffix_of_search? (h : r.search? cs = Option.some t) : t.rest <:+ cs := by
  obtain ⟨front, back, rfl, hrun, -⟩ := searchFrom?_eq_some_iff.mp h
  obtain ⟨u, hgoes, hu⟩ := exists_goes_of_run hrun
  obtain rfl := Option.some.inj hu
  exact (suffix_of_goes hgoes).trans (List.suffix_append front back)

end Search

end TypedClient.Proofs.RegexChoices
