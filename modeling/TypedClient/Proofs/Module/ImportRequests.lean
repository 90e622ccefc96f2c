import Mathlib.Data.List.Induction
import TypedClient.Proofs.Module.FreshName

namespace TypedClient.Proofs.ImportRequests

open TypedClient.Module TypedClient.Proofs.FreshName

inductive Request
  | reserve (suggested : String)
  | release (name : String)
  | defaultImport (path suggested : String) (typeOnly : Bool)
  | namedImport (path name : String) (typeOnly : Bool)
  | namespaceImport (path suggested : String)
  | valueImport (path suggested : String) (isDefault : Bool)

namespace Request

def apply (t : ImportTable) : Request → Option String × ImportTable
  | reserve s => (t.reserve s).map some id
  | release n => (none, t.release n)
  | defaultImport p s typeOnly => (t.defaultImport p s typeOnly).map some id
  | namedImport p n typeOnly => (t.namedImport p n typeOnly).map some id
  | namespaceImport p s => (t.namespaceImport p s).map some id
  | valueImport p s isDefault => (t.valueImport p s isDefault).map some id

def key? : Request → Option (String × ImportKind)
  | reserve _ => none
  | release _ => none
  | defaultImport p _ _ => some (p, .defaultExport)
  | namedImport p n _ => some (p, .named n)
  | namespaceImport p _ => some (p, .everything)
  | valueImport p s isDefault => some (p, if isDefault then .defaultExport else .named s)

def suggestion? : Request → Option String
  | reserve s => some s
  | release _ => none
  | defaultImport _ s _ => some s
  | namedImport _ n _ => some n
  | namespaceImport _ s => some s
  | valueImport _ s _ => some s

def typeOnly : Request → Bool
  | defaultImport _ _ typeOnly => typeOnly
  | namedImport _ _ typeOnly => typeOnly
  | _ => false

theorem apply_of_key? {r : Request} {p : String} {k : ImportKind} (h : r.key? = some (p, k))
    (t : ImportTable) :
    ∃ s, r.suggestion? = some s ∧ r.apply t = (t.add p k s r.typeOnly).map some id := by
  cases r with
  | reserve | release => cases h
  | defaultImport | namedImport | namespaceImport =>
    cases h
    exact ⟨_, rfl, rfl⟩
  | valueImport p s isDefault =>
    cases h
    cases isDefault <;> exact ⟨_, rfl, rfl⟩

end Request

structure Event where
  request : Request
  answer : Option String

def step (s : List Event × ImportTable) (r : Request) : List Event × ImportTable :=
  (s.1 ++ [⟨r, (r.apply s.2).1⟩], (r.apply s.2).2)

def run (rs : List Request) : List Event × ImportTable :=
  rs.foldl step ([], ImportTable.empty)

def Reserved (es : List Event) (n : String) : Prop :=
  ∃ before s after, es = before ++ ⟨.reserve s, some n⟩ :: after ∧
    ∀ e ∈ after, e.request ≠ .release n

def Bound (es : List Event) (n : String) : Prop :=
  ∃ e ∈ es, e.request.key? ≠ none ∧ e.answer = some n

def InUse (es : List Event) (n : String) : Prop :=
  Reserved es n ∨ Bound es n

theorem reserved_append (es : List Event) (e : Event) (n : String) :
    Reserved (es ++ [e]) n ↔
      (∃ s, e = ⟨.reserve s, some n⟩) ∨ (Reserved es n ∧ e.request ≠ .release n) := by
  constructor
  · rintro ⟨before, s, after, he, hn⟩
    obtain rfl | ⟨after, last, rfl⟩ := List.eq_nil_or_concat after
    · exact .inl ⟨s, (List.append_inj_right' he rfl |> List.cons.inj).1⟩
    · rw [List.concat_eq_append, ← List.cons_append, ← List.append_assoc] at he
      obtain ⟨rfl, hl⟩ := List.append_inj' he rfl
      obtain rfl : e = last := (List.cons.inj hl).1
      exact .inr ⟨⟨before, s, after, rfl, fun x hx => hn x (by simp [hx])⟩, hn e (by simp)⟩
  · rintro (⟨s, rfl⟩ | ⟨⟨before, s, after, rfl, hn⟩, he⟩)
    · exact ⟨es, s, [], rfl, by simp⟩
    · refine ⟨before, s, after ++ [e], by simp, fun x hx => ?_⟩
      obtain hx | hx := List.mem_append.mp hx
      · exact hn x hx
      · exact List.mem_singleton.mp hx ▸ he

theorem bound_append (es : List Event) (e : Event) (n : String) :
    Bound (es ++ [e]) n ↔ Bound es n ∨ (e.request.key? ≠ none ∧ e.answer = some n) := by
  simp only [Bound, List.mem_append, List.mem_singleton, or_and_right, exists_or, exists_eq_left]

structure Consistent (es : List Event) (t : ImportTable) : Prop where
  taken : ∀ n, n ∈ t.taken ↔ InUse es n
  bindings : (t.imports.map Import.binding).Nodup
  not_reserved : ∀ i ∈ t.imports, ¬ Reserved es i.binding
  keys : (t.imports.map fun i => (i.path, i.kind)).Nodup
  recorded : ∀ e ∈ es, ∀ k, e.request.key? = some k →
    ∃ i ∈ t.imports, (i.path, i.kind) = k ∧ e.answer = some i.binding
  requested : ∀ i ∈ t.imports,
    ∃ e ∈ es, e.request.key? = some (i.path, i.kind) ∧ e.answer = some i.binding
  typeOnly : ∀ i ∈ t.imports, i.typeOnly = true ↔
    ∀ e ∈ es, e.request.key? = some (i.path, i.kind) → e.request.typeOnly = true
  names : ∀ e ∈ es, ∀ n, e.answer = some n → IsIdentifier n ∧ n ∉ Identifier.reservedWords

/-- What becomes of an import when that of a path and a kind is asked for once more. -/
def again (p : String) (k : ImportKind) (typeOnly : Bool) (i : Import) : Import :=
  if i.path = p ∧ i.kind = k then ImportTable.Import.request typeOnly i else i

theorem again_binding (p : String) (k : ImportKind) (typeOnly : Bool) (i : Import) :
    (again p k typeOnly i).binding = i.binding := by
  unfold again
  split <;> rfl

theorem again_key (p : String) (k : ImportKind) (typeOnly : Bool) (i : Import) :
    ((again p k typeOnly i).path, (again p k typeOnly i).kind) = (i.path, i.kind) := by
  unfold again
  split <;> rfl

theorem again_typeOnly (p : String) (k : ImportKind) (typeOnly : Bool) (i : Import) :
    (again p k typeOnly i).typeOnly = true ↔
      i.typeOnly = true ∧ (i.path = p ∧ i.kind = k → typeOnly = true) := by
  unfold again
  split
  · rename_i hi
    simp [ImportTable.Import.request, hi]
  · rename_i hi
    simp [hi]

theorem consistent_empty : Consistent [] ImportTable.empty where
  taken n := by simp [ImportTable.empty, InUse, Reserved, Bound]
  bindings := List.nodup_nil
  not_reserved := by simp [ImportTable.empty]
  keys := List.nodup_nil
  recorded := by simp
  requested := by simp [ImportTable.empty]
  typeOnly := by simp [ImportTable.empty]
  names := by simp

namespace Consistent

variable {es : List Event} {t : ImportTable} {p : String} {k : ImportKind} {i : Import}

theorem binding_mem_taken (h : Consistent es t) (hi : i ∈ t.imports) : i.binding ∈ t.taken := by
  obtain ⟨e, he, hk, ha⟩ := h.requested i hi
  exact (h.taken i.binding).mpr (.inr ⟨e, he, by simp [hk], ha⟩)

theorem bound_iff (h : Consistent es t) (n : String) :
    Bound es n ↔ ∃ i ∈ t.imports, i.binding = n := by
  constructor
  · rintro ⟨e, he, hk, ha⟩
    obtain ⟨k, hk⟩ := Option.ne_none_iff_exists'.mp hk
    obtain ⟨i, hi, -, hb⟩ := h.recorded e he k hk
    exact ⟨i, hi, Option.some.inj (hb.symm.trans ha)⟩
  · rintro ⟨i, hi, rfl⟩
    obtain ⟨e, he, hk, ha⟩ := h.requested i hi
    exact ⟨e, he, by simp [hk], ha⟩

theorem find?_eq_none_iff (h : Consistent es t) :
    t.find? p k = none ↔ ∀ e ∈ es, e.request.key? ≠ some (p, k) := by
  simp only [ImportTable.find?, List.find?_eq_none, Bool.and_eq_true, decide_eq_true_eq]
  constructor
  · intro hn e he hk
    obtain ⟨i, hi, hik, -⟩ := h.recorded e he (p, k) hk
    exact hn i hi (Prod.mk.inj hik)
  · rintro hn i hi ⟨rfl, rfl⟩
    obtain ⟨e, he, hk, -⟩ := h.requested i hi
    exact hn e he hk

theorem eq_of_key_eq (h : Consistent es t) {j : Import} (hi : i ∈ t.imports) (hj : j ∈ t.imports)
    (he : (i.path, i.kind) = (j.path, j.kind)) : i = j :=
  List.inj_on_of_nodup_map h.keys hi hj he

theorem answer_eq (h : Consistent es t) (hi : t.find? p k = some i) {e : Event} (he : e ∈ es)
    (hk : e.request.key? = some (p, k)) : e.answer = some i.binding := by
  obtain ⟨j, hj, hjk, ha⟩ := h.recorded e he (p, k) hk
  have hp : i.path = p ∧ i.kind = k := by simpa using List.find?_some hi
  obtain rfl := h.eq_of_key_eq hj (List.mem_of_find?_eq_some hi) (by rw [hjk, hp.1, hp.2])
  exact ha

theorem append_of_no_key (h : Consistent es t) {e : Event} {u : ImportTable}
    (hk : e.request.key? = none) (hu : u.imports = t.imports)
    (htaken : ∀ n, n ∈ u.taken ↔ InUse (es ++ [e]) n)
    (hreserved : ∀ i ∈ t.imports, ¬ Reserved (es ++ [e]) i.binding)
    (hname : ∀ n, e.answer = some n → IsIdentifier n ∧ n ∉ Identifier.reservedWords) :
    Consistent (es ++ [e]) u where
  taken := htaken
  bindings := hu ▸ h.bindings
  not_reserved := hu ▸ hreserved
  keys := hu ▸ h.keys
  recorded x hx k hxk := by
    obtain hx | hx := List.mem_append.mp hx
    · exact hu ▸ h.recorded x hx k hxk
    · rw [List.mem_singleton.mp hx, hk] at hxk
      cases hxk
  requested i hi := by
    obtain ⟨x, hx, hxk⟩ := h.requested i (hu ▸ hi)
    exact ⟨x, List.mem_append_left _ hx, hxk⟩
  typeOnly i hi := by
    rw [h.typeOnly i (hu ▸ hi), List.forall_mem_append]
    simp [hk]
  names := List.forall_mem_append.mpr ⟨h.names, by simpa using hname⟩

theorem reserve (h : Consistent es t) (s : String) :
    Consistent (es ++ [⟨.reserve s, some (t.freshName s)⟩]) (t.reserve s).2 := by
  have hn := freshName_isNameFor t s
  refine h.append_of_no_key rfl rfl (fun n => ?_) (fun i hi => ?_) (fun n hs => ?_)
  · have htaken := h.taken n
    simp only [InUse] at htaken
    simp only [ImportTable.reserve, List.mem_cons, InUse, reserved_append, bound_append, htaken,
      Request.key?, Event.mk.injEq, Request.reserve.injEq, Option.some.injEq, ne_eq,
      not_true_eq_false, false_and, or_false, reduceCtorEq, not_false_eq_true, and_true,
      exists_eq_left', eq_comm (a := n), or_assoc]
  · rw [reserved_append, not_or]
    refine ⟨?_, fun hr => h.not_reserved i hi hr.1⟩
    rintro ⟨_, he⟩
    have hb : t.freshName s = i.binding := Option.some.inj (congrArg Event.answer he)
    exact hn.not_used (hb ▸ h.binding_mem_taken hi)
  · obtain rfl := Option.some.inj hs
    exact ⟨hn.isIdentifier, hn.not_mem_reservedWords⟩

theorem release (h : Consistent es t) (m : String) :
    Consistent (es ++ [⟨.release m, none⟩]) (t.release m) := by
  have hr : ∀ n, Reserved (es ++ [⟨.release m, none⟩]) n ↔ Reserved es n ∧ m ≠ n := by
    intro n
    simp [reserved_append]
  have hb : ∀ n, Bound (es ++ [⟨.release m, none⟩]) n ↔ Bound es n := by
    intro n
    simp [bound_append]
  refine h.append_of_no_key rfl ?_ (fun n => ?_) (fun i hi => ?_) (by simp)
  · unfold ImportTable.release
    split <;> rfl
  · rw [InUse, hr, hb]
    have hn := h.taken n
    rw [InUse] at hn
    have hm := h.bound_iff m
    by_cases ht : ∃ i ∈ t.imports, i.binding = m
    · rw [ImportTable.release, if_pos (by simpa using ht), hn]
      by_cases he : m = n
      · simp [← he, hm.mpr ht]
      · simp [he]
    · rw [ImportTable.release, if_neg (by simpa using ht)]
      by_cases he : m = n
      · simp [← he, mt hm.mp ht]
      · simp [hn, he, Ne.symm he]
  · rw [hr]
    exact fun hri => h.not_reserved i hi hri.1

theorem reserved_append_import {e : Event} (hk : e.request.key? = some (p, k)) (n : String) :
    Reserved (es ++ [e]) n ↔ Reserved es n := by
  rw [reserved_append]
  obtain ⟨r, a⟩ := e
  cases r <;> simp_all [Request.key?]

theorem add_known (h : Consistent es t) {e : Event} (hi : t.find? p k = some i)
    (hk : e.request.key? = some (p, k)) (ha : e.answer = some i.binding) (s : String) :
    Consistent (es ++ [e]) (t.add p k s e.request.typeOnly).2 := by
  have him : i ∈ t.imports := List.mem_of_find?_eq_some hi
  have hadd : (t.add p k s e.request.typeOnly).2 =
      { t with imports := t.imports.map (again p k e.request.typeOnly) } := by
    rw [ImportTable.add, hi]
    rfl
  rw [hadd]
  refine ⟨fun n => ?_, ?_, ?_, ?_, ?_, ?_, ?_, ?_⟩
  · rw [h.taken n, InUse, InUse, reserved_append_import hk, bound_append, ha]
    have hb : i.binding = n → Bound es n := fun he => (h.bound_iff n).mpr ⟨i, him, he⟩
    simp only [Option.some.injEq]
    tauto
  · rw [List.map_map]
    simpa only [Function.comp_def, again_binding] using h.bindings
  · intro _ hm
    obtain ⟨j, hj, rfl⟩ := List.mem_map.mp hm
    rw [again_binding, reserved_append_import hk]
    exact h.not_reserved j hj
  · rw [List.map_map]
    simpa only [Function.comp_def, again_key] using h.keys
  · intro x hx l hl
    obtain ⟨j, hj, hjl, hja⟩ : ∃ j ∈ t.imports, (j.path, j.kind) = l ∧ x.answer = some j.binding := by
      obtain hx | hx := List.mem_append.mp hx
      · exact h.recorded x hx l hl
      · obtain rfl := List.mem_singleton.mp hx
        have hp : i.path = p ∧ i.kind = k := by simpa using List.find?_some hi
        exact ⟨i, him, by rw [hp.1, hp.2]; exact Option.some.inj (hk.symm.trans hl), ha⟩
    exact ⟨_, List.mem_map_of_mem hj, by rw [again_key, hjl], by rw [again_binding, hja]⟩
  · intro _ hm
    obtain ⟨j, hj, rfl⟩ := List.mem_map.mp hm
    obtain ⟨x, hx, hxk, hxa⟩ := h.requested j hj
    exact ⟨x, List.mem_append_left _ hx, by rw [again_key, hxk], by rw [again_binding, hxa]⟩
  · intro _ hm
    obtain ⟨j, hj, rfl⟩ := List.mem_map.mp hm
    rw [again_key, List.forall_mem_append, ← h.typeOnly j hj]
    simp only [List.mem_singleton, forall_eq, hk, Option.some.injEq, Prod.mk.injEq]
    rw [again_typeOnly, eq_comm (a := p), eq_comm (a := k)]
  · refine List.forall_mem_append.mpr ⟨h.names, ?_⟩
    simp only [List.mem_singleton, forall_eq, ha, Option.some.injEq, forall_eq']
    obtain ⟨x, hx, -, hxa⟩ := h.requested i him
    exact h.names x hx i.binding hxa

theorem add_new (h : Consistent es t) {e : Event} (hi : t.find? p k = none) (s : String)
    (hk : e.request.key? = some (p, k)) (ha : e.answer = some (t.freshName s)) :
    Consistent (es ++ [e]) (t.add p k s e.request.typeOnly).2 := by
  have hn := freshName_isNameFor t s
  have hadd : (t.add p k s e.request.typeOnly).2 =
      ⟨t.imports ++ [⟨p, k, t.freshName s, e.request.typeOnly⟩], t.freshName s :: t.taken⟩ := by
    rw [ImportTable.add, hi]
    rfl
  have hfirst := h.find?_eq_none_iff.mp hi
  rw [hadd]
  refine ⟨fun n => ?_, ?_, ?_, ?_, ?_, ?_, ?_, ?_⟩
  · have htaken := h.taken n
    rw [InUse] at htaken
    simp only [List.mem_cons, htaken, InUse, reserved_append_import hk, bound_append, hk, ha,
      Option.some.injEq, eq_comm (a := n)]
    simp only [ne_eq, reduceCtorEq, not_false_eq_true, true_and]
    tauto
  · rw [List.map_append, List.nodup_append]
    refine ⟨h.bindings, by simp, ?_⟩
    simp only [List.map_cons, List.map_nil, List.mem_map, List.mem_singleton]
    rintro _ ⟨j, hj, rfl⟩ _ rfl he
    exact hn.not_used (he ▸ h.binding_mem_taken hj)
  · simp only [List.forall_mem_append, List.mem_singleton, forall_eq, reserved_append_import hk]
    exact ⟨h.not_reserved, fun hr => hn.not_used ((h.taken _).mpr (.inl hr))⟩
  · rw [List.map_append, List.nodup_append]
    refine ⟨h.keys, by simp, ?_⟩
    simp only [List.map_cons, List.map_nil, List.mem_map, List.mem_singleton]
    rintro _ ⟨j, hj, rfl⟩ _ rfl he
    obtain ⟨x, hx, hxk, -⟩ := h.requested j hj
    exact hfirst x hx (hxk.trans (congrArg some he))
  · intro x hx l hl
    obtain hx | hx := List.mem_append.mp hx
    · obtain ⟨j, hj, hjl⟩ := h.recorded x hx l hl
      exact ⟨j, List.mem_append_left _ hj, hjl⟩
    · obtain rfl := List.mem_singleton.mp hx
      exact ⟨_, List.mem_append_right _ List.mem_cons_self, Option.some.inj (hk.symm.trans hl), ha⟩
  · simp only [List.forall_mem_append, List.mem_singleton, forall_eq]
    refine ⟨fun j hj => ?_, e, by simp, hk, ha⟩
    obtain ⟨x, hx, hxk⟩ := h.requested j hj
    exact ⟨x, List.mem_append_left _ hx, hxk⟩
  · simp only [List.forall_mem_append, List.mem_singleton, forall_eq, hk]
    refine ⟨fun j hj => ?_, ?_⟩
    · obtain ⟨x, hx, hxk, -⟩ := h.requested j hj
      have hne : some (p, k) ≠ some (j.path, j.kind) := fun he => hfirst x hx (hxk.trans he.symm)
      rw [h.typeOnly j hj]
      simp only [hne, false_implies, and_true]
    · simp only [forall_const, iff_and_self]
      exact fun _ x hx hxk => absurd hxk (hfirst x hx)
  · refine List.forall_mem_append.mpr ⟨h.names, ?_⟩
    simp only [List.mem_singleton, forall_eq, ha, Option.some.injEq, forall_eq']
    exact ⟨hn.isIdentifier, hn.not_mem_reservedWords⟩

theorem step (h : Consistent es t) (r : Request) :
    Consistent (step (es, t) r).1 (step (es, t) r).2 := by
  cases hk : r.key? with
  | none =>
    cases r with
    | reserve s => exact h.reserve s
    | release m => exact h.release m
    | defaultImport | namedImport | namespaceImport | valueImport => cases hk
  | some key =>
    obtain ⟨p, k⟩ := key
    obtain ⟨s, -, ha⟩ := Request.apply_of_key? hk t
    unfold ImportRequests.step
    rw [ha]
    cases hi : t.find? p k with
    | none =>
      refine h.add_new (e := ⟨r, _⟩) hi s hk ?_
      simp [ImportTable.add, hi, ImportTable.reserve]
    | some i =>
      refine h.add_known (e := ⟨r, _⟩) hi hk ?_ s
      simp [ImportTable.add, hi]

theorem apply_again (h : Consistent es t) {r : Request} (hk : r.key? = some (p, k)) {e : Event}
    (he : e ∈ es) (hek : e.request.key? = some (p, k)) :
    ∃ n, e.answer = some n ∧ (r.apply t).1 = some n ∧
      (r.apply t).2.imports.map (fun i => (i.path, i.kind, i.binding)) =
        t.imports.map fun i => (i.path, i.kind, i.binding) := by
  obtain ⟨s, -, ha⟩ := Request.apply_of_key? hk t
  cases hi : t.find? p k with
  | none => exact absurd hek (h.find?_eq_none_iff.mp hi e he)
  | some i =>
    have hadd : r.apply t =
        (some i.binding, { t with imports := t.imports.map (again p k r.typeOnly) }) := by
      rw [ha, ImportTable.add, hi]
      rfl
    rw [hadd]
    refine ⟨i.binding, h.answer_eq hi he hek, rfl, ?_⟩
    rw [List.map_map]
    refine List.map_congr_left fun j _ => ?_
    have hkey := Prod.mk.inj (again_key p k r.typeOnly j)
    simp only [Function.comp_apply, hkey, again_binding]

theorem apply_new (h : Consistent es t) {r : Request} {s : String} (hs : r.suggestion? = some s)
    (hnew : ∀ e ∈ es, r.key? = none ∨ e.request.key? ≠ r.key?) :
    (r.apply t).1 = some (t.freshName s) := by
  cases hk : r.key? with
  | none =>
    cases r with
    | reserve s =>
      cases hs
      rfl
    | release m => cases hs
    | defaultImport | namedImport | namespaceImport | valueImport => cases hk
  | some key =>
    obtain ⟨p, k⟩ := key
    obtain ⟨s', hs', ha⟩ := Request.apply_of_key? hk t
    obtain rfl := Option.some.inj (hs.symm.trans hs')
    have hi : t.find? p k = none := by
      rw [h.find?_eq_none_iff]
      exact fun e he => hk ▸ (hnew e he).resolve_left (by simp [hk])
    simp [ha, ImportTable.add, hi, ImportTable.reserve]

end Consistent

theorem run_append (rs : List Request) (r : Request) : run (rs ++ [r]) = step (run rs) r := by
  rw [run, List.foldl_append]
  rfl

theorem run_consistent (rs : List Request) : Consistent (run rs).1 (run rs).2 := by
  induction rs using List.reverseRecOn with
  | nil => exact consistent_empty
  | append_singleton rs r ih =>
    rw [run_append]
    exact ih.step r

theorem requests_run (rs : List Request) : (run rs).1.map Event.request = rs := by
  induction rs using List.reverseRecOn with
  | nil => rfl
  | append_singleton rs r ih => rw [run_append, step, List.map_append, ih]; rfl

/-- After any requests of the empty table the bindings of its imports are distinct from each other
and from the names that are reserved; all names handed out are identifiers; an import is for types
alone as long as nothing else was asked for. A request made before is answered as it was, without a
new import, and any other gets the name that its suggestion leads to. -/
theorem run_answers (rs : List Request) :
    let es := (run rs).1
    let t := (run rs).2
    es.map Event.request = rs ∧
    (t.imports.map Import.binding).Nodup ∧
    (∀ i ∈ t.imports, ¬ Reserved es i.binding) ∧
    (∀ e ∈ es, ∀ n, e.answer = some n → IsIdentifier n ∧ n ∉ Identifier.reservedWords) ∧
    (∀ i ∈ t.imports,
      ∃ e ∈ es, e.request.key? = some (i.path, i.kind) ∧ e.answer = some i.binding) ∧
    (∀ i ∈ t.imports, i.typeOnly = true ↔
      ∀ e ∈ es, e.request.key? = some (i.path, i.kind) → e.request.typeOnly = true) ∧
    (∀ (r : Request) (p : String) (k : ImportKind), r.key? = some (p, k) →
      ∀ e ∈ es, e.request.key? = some (p, k) →
        ∃ n, e.answer = some n ∧ (r.apply t).1 = some n ∧
          (r.apply t).2.imports.map (fun i => (i.path, i.kind, i.binding)) =
            t.imports.map fun i => (i.path, i.kind, i.binding)) ∧
    (∀ (r : Request) (s : String), r.suggestion? = some s →
      (∀ e ∈ es, r.key? = none ∨ e.request.key? ≠ r.key?) →
        ∃ n, (r.apply t).1 = some n ∧ IsNameFor (InUse es) s n) := by
  intro es t
  have h : Consistent es t := run_consistent rs
  have hu : (· ∈ t.taken) = InUse es := funext fun n => propext (h.taken n)
  refine ⟨requests_run rs, h.bindings, h.not_reserved, h.names, h.requested, h.typeOnly, ?_, ?_⟩
  · intro r p k hk e he hek
    exact h.apply_again hk he hek
  · intro r s hs hnew
    exact ⟨t.freshName s, h.apply_new hs hnew, hu ▸ freshName_isNameFor t s⟩

end TypedClient.Proofs.ImportRequests
