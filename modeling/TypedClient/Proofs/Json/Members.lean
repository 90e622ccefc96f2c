import Mathlib.Data.List.Induction
import Mathlib.Data.List.Nodup
import TypedClient.Json.Basic

namespace TypedClient.Proofs.Members

open TypedClient.Json

variable {ms : List (String × Json)}

theorem set_of_not_mem {k : String} (h : k ∉ ms.map Prod.fst) (v : Json) :
    Json.set k v ms = ms ++ [(k, v)] := by
  induction ms with
  | nil => rfl
  | cons m ms ih =>
    rw [List.map_cons, List.mem_cons, not_or] at h
    rw [Json.set, if_neg (Ne.symm h.1), ih h.2, List.cons_append]

theorem ofMembers_of_nodup (h : (ms.map Prod.fst).Nodup) : ofMembers ms = ms := by
  induction ms using List.reverseRecOn with
  | nil => rfl
  | append_singleton ms m ih =>
    rw [List.map_append, List.nodup_append] at h
    have hnew : m.1 ∉ ms.map Prod.fst := fun hm => h.2.2 m.1 hm m.1 (by simp) rfl
    have hfold : ofMembers (ms ++ [m]) = Json.set m.1 m.2 (ofMembers ms) := by
      rw [ofMembers, List.foldl_append]
      rfl
    rw [hfold, ih h.1, set_of_not_mem hnew]

theorem mem_of_mem_set {k : String} {v : Json} {m : String × Json} (h : m ∈ Json.set k v ms) :
    m = (k, v) ∨ m ∈ ms := by
  induction ms with
  | nil => exact .inl (List.mem_singleton.mp h)
  | cons a ms ih =>
    rw [Json.set] at h
    split at h
    · obtain rfl | h := List.mem_cons.mp h
      · exact .inl rfl
      · exact .inr (List.mem_cons_of_mem a h)
    · obtain rfl | h := List.mem_cons.mp h
      · exact .inr List.mem_cons_self
      · exact (ih h).imp_right (List.mem_cons_of_mem a)

theorem mem_of_mem_ofMembers {m : String × Json} (h : m ∈ ofMembers ms) : m ∈ ms := by
  induction ms using List.reverseRecOn with
  | nil => exact h
  | append_singleton ms a ih =>
    rw [ofMembers, List.foldl_append] at h
    obtain rfl | h := mem_of_mem_set h
    · simp
    · exact List.mem_append_left _ (ih h)

end TypedClient.Proofs.Members
