import TypedClient.Json.Reader
import TypedClient.Proofs.Json.Members

namespace TypedClient.Proofs.DistinctKeys

open TypedClient.Json TypedClient.Proofs.Members

inductive KeyedOnce : Json → Prop
  | null : KeyedOnce .null
  | bool (b : Bool) : KeyedOnce (.bool b)
  | number (n : Number) : KeyedOnce (.number n)
  | string (s : String) : KeyedOnce (.string s)
  | array {js : List Json} (h : ∀ j ∈ js, KeyedOnce j) : KeyedOnce (.array js)
  | object {ms : List (String × Json)} (h : ∀ m ∈ ms, KeyedOnce m.2)
      (hkeys : (ms.map Prod.fst).Nodup) : KeyedOnce (.object ms)

variable {j : Json} {js : List Json} {ms : List (String × Json)} {k : String}

theorem mem_of_lookup {v : Json} (h : ms.lookup k = some v) : (k, v) ∈ ms := by
  induction ms with
  | nil => cases h
  | cons m ms ih =>
    rw [List.lookup_cons] at h
    cases hk : k == m.1 with
    | true =>
      rw [hk] at h
      rw [beq_iff_eq.mp hk, ← Option.some.inj h]
      exact List.mem_cons_self
    | false =>
      rw [hk] at h
      exact List.mem_cons_of_mem m (ih h)

@[simp]
theorem keyedOnce_object_iff :
    KeyedOnce (.object ms) ↔ (∀ m ∈ ms, KeyedOnce m.2) ∧ (ms.map Prod.fst).Nodup := by
  constructor
  · rintro ⟨⟩
    exact ⟨‹_›, ‹_›⟩
  · exact fun h => .object h.1 h.2

@[simp]
theorem keyedOnce_array_iff : KeyedOnce (.array js) ↔ ∀ j ∈ js, KeyedOnce j := by
  constructor
  · rintro ⟨⟩
    assumption
  · exact .array

attribute [simp] KeyedOnce.null KeyedOnce.bool KeyedOnce.number KeyedOnce.string

theorem KeyedOnce.of_object? (h : KeyedOnce j) (hms : j.object? = some ms) :
    ∀ m ∈ ms, KeyedOnce m.2 := by
  cases h with
  | object h _ =>
    cases hms
    exact h
  | _ => cases hms

theorem KeyedOnce.get? (h : KeyedOnce j) {v : Json} (hv : j.get? k = some v) : KeyedOnce v := by
  cases h with
  | object h hkeys => exact h _ (mem_of_lookup hv)
  | _ => cases hv

theorem keys_set (k : String) (v : Json) (ms : List (String × Json)) :
    (Json.set k v ms).map Prod.fst = ms.map Prod.fst ∨
      k ∉ ms.map Prod.fst ∧ (Json.set k v ms).map Prod.fst = ms.map Prod.fst ++ [k] := by
  by_cases hk : k ∈ ms.map Prod.fst
  · left
    induction ms with
    | nil => cases hk
    | cons m ms ih =>
      rw [Json.set]
      split
      · rename_i hm
        rw [List.map_cons, List.map_cons, hm]
      · rename_i hm
        have hrest := (List.mem_cons.mp hk).resolve_left (Ne.symm hm)
        rw [List.map_cons, List.map_cons, ih hrest]
  · right
    rw [set_of_not_mem hk, List.map_append]
    exact ⟨hk, rfl⟩

theorem nodup_set {v : Json} (h : (ms.map Prod.fst).Nodup) :
    ((Json.set k v ms).map Prod.fst).Nodup := by
  obtain hk | ⟨hk, hkeys⟩ := keys_set k v ms
  · rwa [hk]
  · rw [hkeys]
    exact h.append (List.nodup_singleton k) (List.disjoint_singleton.mpr hk)

theorem nodup_ofMembers (ms : List (String × Json)) : ((ofMembers ms).map Prod.fst).Nodup := by
  induction ms using List.reverseRecOn with
  | nil => exact List.nodup_nil
  | append_singleton ms m ih =>
    rw [ofMembers, List.foldl_append]
    exact nodup_set ih

theorem KeyedOnce.ofMembers (h : ∀ m ∈ ms, KeyedOnce m.2) :
    KeyedOnce (.object (ofMembers ms)) :=
  .object (fun m hm => h m (mem_of_mem_ofMembers hm)) (nodup_ofMembers ms)

structure Sound (fuel : Nat) : Prop where
  value : ∀ depth cs j r, value? fuel depth cs = some (j, r) → KeyedOnce j
  items : ∀ depth cs js r, items? fuel depth cs = some (js, r) → ∀ j ∈ js, KeyedOnce j
  members : ∀ depth cs ms r, members? fuel depth cs = some (ms, r) → ∀ m ∈ ms, KeyedOnce m.2

theorem sound_value {fuel : Nat} (ih : Sound fuel) {depth : Nat} {cs r : List Char} {j : Json}
    (h : value? (fuel + 1) depth cs = some (j, r)) : KeyedOnce j := by
  rw [value?] at h
  split at h
  · split at h
    · cases h
    split at h
    · cases h
      exact .object nofun List.nodup_nil
    · obtain ⟨⟨ms, r'⟩, hms, heq⟩ := Option.map_eq_some_iff.mp h
      cases heq
      exact .ofMembers (ih.members _ _ ms r' hms)
  · split at h
    · cases h
    split at h
    · cases h
      exact .array nofun
    · obtain ⟨⟨js, r'⟩, hjs, heq⟩ := Option.map_eq_some_iff.mp h
      cases heq
      exact .array (ih.items _ _ js r' hjs)
  · obtain ⟨_, -, heq⟩ := Option.map_eq_some_iff.mp h
    cases heq
    exact .string _
  · obtain ⟨_, -, heq⟩ := Option.map_eq_some_iff.mp h
    cases heq
    exact .bool true
  · obtain ⟨_, -, heq⟩ := Option.map_eq_some_iff.mp h
    cases heq
    exact .bool false
  · obtain ⟨_, -, heq⟩ := Option.map_eq_some_iff.mp h
    cases heq
    exact .null
  · obtain ⟨_, -, heq⟩ := Option.map_eq_some_iff.mp h
    cases heq
    exact .number _

theorem sound_items {fuel : Nat} (ih : Sound fuel) {depth : Nat} {cs r : List Char}
    (h : items? (fuel + 1) depth cs = some (js, r)) : ∀ j ∈ js, KeyedOnce j := by
  rw [items?] at h
  obtain ⟨⟨j, cs'⟩, hj, h⟩ := Option.bind_eq_some_iff.mp h
  have hfirst := ih.value _ _ j cs' hj
  dsimp only at h
  split at h
  · obtain ⟨⟨rest, r'⟩, hrest, heq⟩ := Option.bind_eq_some_iff.mp h
    cases heq
    exact List.forall_mem_cons.mpr ⟨hfirst, ih.items _ _ rest r' hrest⟩
  · cases h
    exact List.forall_mem_singleton.mpr hfirst
  · cases h

theorem sound_members {fuel : Nat} (ih : Sound fuel) {depth : Nat} {cs r : List Char}
    (h : members? (fuel + 1) depth cs = some (ms, r)) : ∀ m ∈ ms, KeyedOnce m.2 := by
  rw [members?] at h
  split at h
  case h_2 => cases h
  obtain ⟨⟨k, cs'⟩, -, h⟩ := Option.bind_eq_some_iff.mp h
  dsimp only at h
  split at h
  case h_2 => cases h
  obtain ⟨⟨j, cs'⟩, hj, h⟩ := Option.bind_eq_some_iff.mp h
  have hfirst := ih.value _ _ j cs' hj
  dsimp only at h
  split at h
  · obtain ⟨⟨rest, r'⟩, hrest, heq⟩ := Option.bind_eq_some_iff.mp h
    cases heq
    exact List.forall_mem_cons.mpr ⟨hfirst, ih.members _ _ rest r' hrest⟩
  · cases h
    exact List.forall_mem_singleton.mpr hfirst
  · cases h

theorem sound (fuel : Nat) : Sound fuel := by
  induction fuel with
  | zero => exact ⟨nofun, nofun, nofun⟩
  | succ fuel ih =>
    exact ⟨fun _ _ _ _ => sound_value ih, fun _ _ _ _ => sound_items ih,
      fun _ _ _ _ => sound_members ih⟩

theorem keyedOnce_parse? {s : String} (h : parse? s = some j) : KeyedOnce j := by
  rw [parse?] at h
  split at h
  · rename_i j' r hvalue
    split at h
    · cases h
      exact (sound _).value _ _ j r hvalue
    · cases h
  · cases h

end TypedClient.Proofs.DistinctKeys
