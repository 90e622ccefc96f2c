import Mathlib.Data.List.Induction
import Mathlib.Data.List.Sort
import TypedClient.Routing.Collection

namespace TypedClient.Routing.Collection

namespace Item

def name? : Item → Option String
  | page _ name _ => some name
  | directory _ name _ => some name
  | _ => none

def order? : Item → Option Nat
  | page order _ _ => order
  | directory order _ _ => order
  | _ => none

def page? : Item → Option String
  | page _ _ path => some path
  | _ => none

def directory? : Item → Option (Option Tree)
  | directory _ _ tree => some tree
  | _ => none

end Item

def Candidate.add (c : Candidate) (i : Item) : Candidate :=
  ⟨c.order.or i.order?, c.name, c.directory.or i.directory?, c.page.or i.page?⟩

def first? {α : Type} (f : Item → Option α) (name : String) (items : List Item) : Option α :=
  items.findSome? fun i => if i.name? = some name then f i else none

def gathered (items : List Item) (name : String) : Candidate :=
  ⟨first? Item.order? name items, name, first? Item.directory? name items,
    first? Item.page? name items⟩

end TypedClient.Routing.Collection

namespace TypedClient.Proofs.Candidates

open TypedClient.Routing TypedClient.Routing.Collection

variable {α : Type} {i : Item} {items : List Item} {name m : String} {names : List String}
  {f : Item → Option α}

theorem addItem_of_name?_eq_none (h : i.name? = none) (cs : List Candidate) :
    addItem i cs = cs := by
  cases i with
  | layout | index => cases cs <;> rfl
  | page | directory => cases h

theorem addItem_nil (h : i.name? = some name) : addItem i [] = [Candidate.add ⟨none, name, none, none⟩ i] := by
  cases i with
  | layout | index => cases h
  | page | directory =>
    obtain rfl := Option.some.inj h
    rfl

theorem addItem_cons (h : i.name? = some name) (c : Candidate) (cs : List Candidate) :
    addItem i (c :: cs) = if c.name = name then c.add i :: cs else c :: addItem i cs := by
  cases i with
  | layout | index => cases h
  | page | directory =>
    obtain rfl := Option.some.inj h
    simp only [addItem, Candidate.add, Item.order?, Item.page?, Item.directory?, Option.or_none]

theorem first?_append (items : List Item) (i : Item) :
    first? f name (items ++ [i]) =
      (first? f name items).or (if i.name? = some name then f i else none) := by
  simp [first?, List.findSome?_append]

theorem gathered_append_of_eq (h : i.name? = some name) :
    gathered (items ++ [i]) name = (gathered items name).add i := by
  simp only [gathered, Candidate.add, first?_append, h, if_true]

theorem gathered_append_of_ne (h : i.name? ≠ some name) :
    gathered (items ++ [i]) name = gathered items name := by
  simp only [gathered, first?_append, h, if_false, Option.or_none]

theorem gathered_of_no_item (h : ∀ i ∈ items, i.name? ≠ some name) :
    gathered items name = ⟨none, name, none, none⟩ := by
  have hfirst : ∀ {β : Type} (g : Item → Option β), first? g name items = none := fun g =>
    List.findSome?_eq_none_iff.mpr fun i hi => if_neg (h i hi)
  simp only [gathered, hfirst]

theorem addItem_gathered (h : i.name? = some m) (hnames : names.Nodup)
    (hm : m ∉ names → ∀ j ∈ items, j.name? ≠ some m) :
    addItem i (names.map (gathered items)) =
      (if m ∈ names then names else names ++ [m]).map (gathered (items ++ [i])) := by
  induction names with
  | nil =>
    rw [List.map_nil, addItem_nil h, if_neg (List.not_mem_nil), List.nil_append, List.map_singleton,
      gathered_append_of_eq h, gathered_of_no_item (hm List.not_mem_nil)]
  | cons k ks ih =>
    rw [List.nodup_cons] at hnames
    have hname : (gathered items k).name = k := rfl
    rw [List.map_cons, addItem_cons h, hname]
    by_cases hk : k = m
    · subst hk
      have hothers : ∀ l ∈ ks, gathered items l = gathered (items ++ [i]) l := fun l hl =>
        (gathered_append_of_ne fun hi => hnames.1 (Option.some.inj (h.symm.trans hi) ▸ hl)).symm
      rw [if_pos rfl, if_pos List.mem_cons_self, List.map_cons, gathered_append_of_eq h,
        List.map_congr_left hothers]
    · have hsame : gathered items k = gathered (items ++ [i]) k :=
        (gathered_append_of_ne fun hi => hk (Option.some.inj (hi.symm.trans h))).symm
      have hks : m ∉ ks → ∀ j ∈ items, j.name? ≠ some m := fun hks =>
        hm (by simp [Ne.symm hk, hks])
      have hmem : m ∈ k :: ks ↔ m ∈ ks := by simp [Ne.symm hk]
      rw [if_neg hk, ih hnames.2 hks, hsame]
      simp only [hmem]
      split <;> simp

theorem candidates_eq (items : List Item) :
    ∃ names : List String, names.Nodup ∧ (∀ m, m ∈ names ↔ ∃ i ∈ items, i.name? = some m) ∧
      candidates items = names.map (gathered items) := by
  induction items using List.reverseRecOn with
  | nil => exact ⟨[], List.nodup_nil, by simp, rfl⟩
  | append_singleton items i ih =>
    obtain ⟨names, hnodup, hmem, heq⟩ := ih
    have hstep : candidates (items ++ [i]) = addItem i (candidates items) := by
      rw [candidates, List.foldl_append]
      rfl
    rw [hstep, heq]
    cases hi : i.name? with
    | none =>
      have hsame : ∀ l ∈ names, gathered items l = gathered (items ++ [i]) l := fun l _ =>
        (gathered_append_of_ne (by simp [hi])).symm
      refine ⟨names, hnodup, fun m => ?_, ?_⟩
      · simp [hmem, or_and_right, exists_or, hi]
      · rw [addItem_of_name?_eq_none hi, List.map_congr_left hsame]
    | some k =>
      refine ⟨if k ∈ names then names else names ++ [k], ?_, fun m => ?_, ?_⟩
      · split
        · exact hnodup
        · rename_i hk
          exact List.concat_eq_append ▸ hnodup.concat hk
      · have hlast : (∃ j ∈ items ++ [i], j.name? = some m) ↔ m ∈ names ∨ k = m := by
          simp [hmem, or_and_right, exists_or, hi]
        rw [hlast]
        split
        · rename_i hk
          exact ⟨.inl, fun h => h.elim id fun h => h ▸ hk⟩
        · simp [eq_comm]
      · exact addItem_gathered hi hnodup fun hk j hj hj' => hk ((hmem k).mpr ⟨j, hj, hj'⟩)

def Before (rank : String → Option Nat) (a b : String) : Prop :=
  match rank a, rank b with
  | some m, some n => m < n ∨ (m = n ∧ a < b)
  | some _, none => True
  | none, some _ => False
  | none, none => a < b

theorem precedes_trans (a b c : Candidate) (hab : precedes a b = true) (hbc : precedes b c = true) :
    precedes a c = true := by
  unfold precedes at *
  cases ha : a.order <;> cases hb : b.order <;> cases hc : c.order <;>
    simp only [ha, hb, hc, Bool.or_eq_true, Bool.and_eq_true, decide_eq_true_eq, reduceCtorEq]
      at hab hbc ⊢
  · exact String.le_trans hab hbc
  · obtain hab | ⟨rfl, hab⟩ := hab <;> obtain hbc | ⟨rfl, hbc⟩ := hbc
    · exact .inl (Nat.lt_trans hab hbc)
    · exact .inl hab
    · exact .inl hbc
    · exact .inr ⟨rfl, String.le_trans hab hbc⟩

theorem precedes_total (a b : Candidate) : (precedes a b || precedes b a) = true := by
  unfold precedes
  cases ha : a.order <;> cases hb : b.order <;>
    simp only [Bool.or_eq_true, Bool.and_eq_true, decide_eq_true_eq, Bool.or_true, Bool.true_or]
  · exact String.le_total a.name b.name
  · rename_i m n
    obtain h | rfl | h := Nat.lt_trichotomy m n
    · exact .inl (.inl h)
    · exact (String.le_total a.name b.name).imp (fun h => .inr ⟨rfl, h⟩) fun h => .inr ⟨rfl, h⟩
    · exact .inr (.inl h)

theorem before_of_precedes {rank : String → Option Nat} {a b : Candidate} (h : precedes a b = true)
    (hne : a.name ≠ b.name) (ha : a.order = rank a.name) (hb : b.order = rank b.name) :
    Before rank a.name b.name := by
  have hlt : a.name ≤ b.name → a.name < b.name := fun hle =>
    String.not_le.mp fun hge => hne (String.le_antisymm hle hge)
  unfold precedes at h
  unfold Before
  rw [← ha, ← hb]
  cases ha : a.order <;> cases hb : b.order <;>
    simp only [ha, hb, Bool.or_eq_true, Bool.and_eq_true, decide_eq_true_eq, reduceCtorEq] at h ⊢
  · exact hlt h
  · exact h.imp id fun h => ⟨h.1, hlt h.2⟩

/-- The candidates in their order: one for each name, those with smaller numbers first. -/
theorem siblings_eq (items : List Item) :
    ∃ names : List String, names.Nodup ∧ (∀ m, m ∈ names ↔ ∃ i ∈ items, i.name? = some m) ∧
      names.Pairwise (Before fun m => first? Item.order? m items) ∧
      (candidates items).mergeSort precedes = names.map (gathered items) := by
  obtain ⟨names, hnodup, hmem, heq⟩ := candidates_eq items
  have hperm := List.mergeSort_perm (candidates items) precedes
  have hsorted := List.pairwise_mergeSort precedes_trans precedes_total (candidates items)
  rw [heq] at hperm hsorted ⊢
  generalize (names.map (gathered items)).mergeSort precedes = cs at hperm hsorted
  have hnames : (cs.map Candidate.name).Perm names := by
    have hid : (names.map (gathered items)).map Candidate.name = names :=
      List.map_map.trans (List.map_id' names)
    exact hid ▸ hperm.map Candidate.name
  have hgathered : ∀ c ∈ cs, gathered items c.name = c := by
    intro c hc
    obtain ⟨m, -, rfl⟩ := List.mem_map.mp (hperm.mem_iff.mp hc)
    rfl
  have hdistinct : (cs.map Candidate.name).Nodup := hnames.nodup_iff.mpr hnodup
  refine ⟨cs.map Candidate.name, hdistinct, fun m => hnames.mem_iff.trans (hmem m), ?_, ?_⟩
  · rw [List.pairwise_map]
    refine (hsorted.and (List.pairwise_map.mp hdistinct)).imp_of_mem fun hc hd h => ?_
    exact before_of_precedes h.1 h.2 (congrArg Candidate.order (hgathered _ hc)).symm
      (congrArg Candidate.order (hgathered _ hd)).symm
  · rw [List.map_map]
    exact ((List.map_congr_left fun c hc => hgathered c hc).trans (List.map_id' _)).symm

end TypedClient.Proofs.Candidates
