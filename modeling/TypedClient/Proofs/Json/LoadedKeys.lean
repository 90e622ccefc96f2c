import TypedClient.Document.Loading
import TypedClient.Proofs.Json.DistinctKeys
import TypedClient.Proofs.Outcome

namespace TypedClient.Proofs.LoadedKeys

open TypedClient.Document TypedClient.Yaml TypedClient.Proofs.DistinctKeys TypedClient.Proofs.Outcome

section Replacing

variable {α β : Type} {P : β → Prop} {Q : α → Prop}

def Yields (w : Replacing β) (P : β → Prop) : Prop :=
  ∀ n r, w.run n = some r → P r.1

theorem yields_pure {b : β} (h : P b) : Yields (pure b) P := by
  rintro n r ⟨⟩
  exact h

theorem yields_failure : Yields (failure : Replacing β) P :=
  nofun

theorem yields_some {o : Option β} (h : ∀ b ∈ o, P b) :
    Yields (monadLift o : Replacing β) P := by
  intro n r hr
  cases o with
  | none => cases hr
  | some b =>
    cases hr
    exact h b rfl

theorem Yields.bind {w : Replacing α} {f : α → Replacing β} (hw : Yields w Q)
    (hf : ∀ a, Q a → Yields (f a) P) : Yields (w >>= f) P := by
  intro n r hr
  rw [StateT.run_bind] at hr
  obtain ⟨⟨a, n'⟩, ha, hr⟩ := Option.bind_eq_some_iff.mp hr
  exact hf a (hw n _ ha) n' r hr

theorem yields_bind {w : Replacing α} {f : α → Replacing β} (hf : ∀ a, Yields (f a) P) :
    Yields (w >>= f) P :=
  Yields.bind (Q := fun _ => True) (fun _ _ _ => trivial) fun a _ => hf a

theorem yields_mapM {f : α → Replacing β} (hf : ∀ a, Yields (f a) P) (as : List α) :
    Yields (as.mapM f) fun bs => ∀ b ∈ bs, P b := by
  induction as with
  | nil =>
    rw [List.mapM_nil]
    exact yields_pure nofun
  | cons a as ih =>
    rw [List.mapM_cons]
    exact (hf a).bind fun b hb => ih.bind fun bs hbs =>
      yields_pure (List.forall_mem_cons.mpr ⟨hb, hbs⟩)

end Replacing

theorem keyedOnce_decimalValue? {s : String} : ∀ j ∈ decimalValue? s, KeyedOnce j := by
  intro j hj
  rw [decimalValue?] at hj
  split at hj
  · cases hj
    exact .null
  · obtain ⟨d, -, rfl⟩ := Option.map_eq_some_iff.mp hj
    exact .number _

theorem keyedOnce_integerValue? {s : String} {v : Option Json} (hv : integerValue? s = some v) :
    ∀ j ∈ v, KeyedOnce j := by
  intro j hj
  rw [integerValue?] at hv
  split at hv
  · split at hv
    · cases hv
      cases hj
      exact .number _
    · split at hv <;> cases hv
      cases hj
  · cases hv

theorem keyedOnce_plainValue? {s : String} : ∀ j ∈ plainValue? s, KeyedOnce j := by
  intro j hj
  rw [plainValue?] at hj
  split at hj
  · cases hj
    exact .null
  split at hj
  · cases hj
    exact .bool _
  split at hj
  · rename_i v hv
    exact keyedOnce_integerValue? hv j hj
  split at hj
  · cases hj
    exact .string s
  · obtain rfl := Option.some.inj hj
    cases hd : decimalValue? s with
    | none => exact .string s
    | some d => exact keyedOnce_decimalValue? d hd

theorem keyedOnce_taggedValue? {tag s : String} : ∀ j ∈ taggedValue? tag s, KeyedOnce j := by
  intro j hj
  rw [taggedValue?] at hj
  split at hj
  · obtain ⟨b, -, rfl⟩ := Option.map_eq_some_iff.mp hj
    exact .bool b
  split at hj
  · exact keyedOnce_integerValue? (Option.join_eq_some_iff.mp hj) j rfl
  split at hj
  · exact keyedOnce_decimalValue? j hj
  split at hj
  · split at hj <;> cases hj
    exact .null
  split at hj <;> cases hj
  exact .string s

/-- By the nesting that is left: the parts of a collection have one level less. -/
theorem yields_value (anchors : List (Nat × Node)) (depth : Nat) (n : Node) :
    Yields (n.value anchors depth) KeyedOnce := by
  induction depth generalizing n with
  | zero =>
    unfold Node.value
    refine yields_bind fun n => ?_
    split
    · exact yields_some keyedOnce_taggedValue?
    · exact yields_some keyedOnce_plainValue?
    · exact yields_pure (.string _)
    · exact yields_failure
    · exact yields_failure
    · exact yields_failure
  | succ depth ih =>
    unfold Node.value
    refine yields_bind fun n => ?_
    split
    · exact yields_some keyedOnce_taggedValue?
    · exact yields_some keyedOnce_plainValue?
    · exact yields_pure (.string _)
    · dsimp only
      split
      · exact yields_failure
      · exact (yields_mapM ih _).bind fun js hjs => yields_pure (.array hjs)
    · dsimp only
      split
      · exact yields_failure
      · refine Yields.bind (yields_mapM (P := fun m => KeyedOnce m.2) (fun p => ?_) _)
          fun ms hms => yields_pure (.ofMembers hms)
        exact yields_bind fun k => (ih p.2).bind fun j hj => yields_pure hj
    · exact yields_failure

theorem keyedOnce_yaml {text : String} {j : Json} (h : Yaml.parse? text = some j) :
    KeyedOnce j := by
  obtain ⟨ts, -, h⟩ := Option.bind_eq_some_iff.mp h
  obtain ⟨n, -, h⟩ := Option.bind_eq_some_iff.mp h
  obtain ⟨r, hr, h⟩ := Option.bind_eq_some_iff.mp h
  cases h
  exact yields_value _ _ n _ r hr

theorem keyedOnce_parseText {path text : String} {j : Json} (h : parseText path text = .ok j) :
    KeyedOnce j := by
  rw [parseText] at h
  split at h
  · split at h <;> cases h
    exact keyedOnce_yaml ‹_›
  · split at h <;> cases h
    exact keyedOnce_parse? ‹_›

theorem exists_of_load {t : FileTree} {path : String} {d : Document} (h : load t path = .ok d) :
    ∃ j, KeyedOnce j ∧ Document.ofJson j = .ok d := by
  rw [load] at h
  split at h
  case h_2 => cases h
  obtain ⟨text, -, h⟩ := bind_eq_ok_iff.mp h
  obtain ⟨j, hj, h⟩ := bind_eq_ok_iff.mp h
  refine ⟨j, keyedOnce_parseText hj, ?_⟩
  cases hd : ofJson j with
  | error e =>
    rw [hd] at h
    cases h
  | ok d' =>
    rw [hd] at h
    cases h
    rfl

end TypedClient.Proofs.LoadedKeys
