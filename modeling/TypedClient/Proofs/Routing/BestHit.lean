import Mathlib.Data.Prod.Lex
import Mathlib.Data.List.Induction
import TypedClient.Routing.Table

namespace TypedClient.Proofs.BestHit

open TypedClient.Routing

def rank (e : Entry) : Int ×ₗ Nat :=
  toLex (e.weight, e.position.length)

theorem isBetter_iff (a b : Entry) : Table.Entry.isBetter a b = true ↔ rank b < rank a := by
  simp [Table.Entry.isBetter, rank, Prod.Lex.toLex_lt_toLex, eq_comm (a := a.weight)]

def best (hits : List (Entry × Captures)) : Option (Entry × Captures) :=
  hits.foldl Table.better none

theorem best_append (hits : List (Entry × Captures)) (hit : Entry × Captures) :
    best (hits ++ [hit]) = Table.better (best hits) hit := by
  rw [best, List.foldl_append]
  rfl

theorem better_some (b hit : Entry × Captures) :
    Table.better (some b) hit = if rank b.1 < rank hit.1 then some hit else some b := by
  simp only [Table.better, isBetter_iff]

variable {hits : List (Entry × Captures)} {b : Entry × Captures}

theorem best_eq_none_iff : best hits = none ↔ hits = [] := by
  induction hits using List.reverseRecOn with
  | nil => exact iff_of_true rfl rfl
  | append_singleton hits hit _ =>
    have hne : hits ++ [hit] ≠ [] := by simp
    rw [best_append]
    refine iff_of_false ?_ hne
    cases best hits with
    | none => exact Option.some_ne_none hit
    | some b =>
      rw [better_some]
      split <;> exact Option.some_ne_none _

theorem best_spec (h : best hits = some b) : b ∈ hits ∧ ∀ x ∈ hits, rank x.1 ≤ rank b.1 := by
  induction hits using List.reverseRecOn generalizing b with
  | nil => cases h
  | append_singleton hits hit ih =>
    rw [best_append] at h
    cases hb : best hits with
    | none =>
      rw [hb] at h
      obtain rfl := Option.some.inj h
      obtain rfl := best_eq_none_iff.mp hb
      simp
    | some c =>
      rw [hb, better_some] at h
      obtain ⟨hc, hmax⟩ := ih hb
      split at h
      · rename_i hlt
        obtain rfl := Option.some.inj h
        refine ⟨by simp, List.forall_mem_append.mpr ⟨fun x hx => ?_, by simp⟩⟩
        exact (hmax x hx).trans hlt.le
      · rename_i hle
        obtain rfl := Option.some.inj h
        refine ⟨List.mem_append_left _ hc, List.forall_mem_append.mpr ⟨hmax, ?_⟩⟩
        simpa using hle

theorem best_first (h : best hits = some b) :
    ∃ before after, hits = before ++ b :: after ∧ ∀ x ∈ before, rank x.1 < rank b.1 := by
  induction hits using List.reverseRecOn generalizing b with
  | nil => cases h
  | append_singleton hits hit ih =>
    rw [best_append] at h
    cases hb : best hits with
    | none =>
      rw [hb] at h
      obtain rfl := Option.some.inj h
      obtain rfl := best_eq_none_iff.mp hb
      exact ⟨[], [], rfl, nofun⟩
    | some c =>
      rw [hb, better_some] at h
      split at h
      · rename_i hlt
        obtain rfl := Option.some.inj h
        exact ⟨hits, [], rfl, fun x hx => ((best_spec hb).2 x hx).trans_lt hlt⟩
      · obtain rfl := Option.some.inj h
        obtain ⟨before, after, hsplit, hbefore⟩ := ih hb
        exact ⟨before, after ++ [hit], by rw [hsplit]; simp, hbefore⟩

theorem best_filter {p : Entry × Captures → Bool} (h : best hits = some b) (hp : p b = true) :
    best (hits.filter p) = some b := by
  induction hits using List.reverseRecOn generalizing b with
  | nil => cases h
  | append_singleton hits hit ih =>
    rw [best_append] at h
    rw [List.filter_append, List.filter_cons, List.filter_nil]
    cases hb : best hits with
    | none =>
      obtain rfl := best_eq_none_iff.mp hb
      obtain rfl := Option.some.inj h
      rw [if_pos hp]
      rfl
    | some c =>
      rw [hb, better_some] at h
      split at h
      · rename_i hlt
        obtain rfl := Option.some.inj h
        rw [if_pos hp, best_append]
        cases hf : best (hits.filter p) with
        | none => rfl
        | some d =>
          have hd : d ∈ hits := (List.mem_filter.mp (best_spec hf).1).1
          rw [better_some, if_pos (((best_spec hb).2 d hd).trans_lt hlt)]
      · rename_i hle
        obtain rfl := Option.some.inj h
        have hkept := ih hb hp
        cases hph : p hit with
        | false => rw [if_neg Bool.false_ne_true, List.append_nil, hkept]
        | true => rw [if_pos rfl, best_append, hkept, better_some, if_neg hle]

end TypedClient.Proofs.BestHit
