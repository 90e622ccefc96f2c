import TypedClient.Client.Generation
import TypedClient.Proofs.Client.EntityImports
import TypedClient.Proofs.Client.Location

namespace TypedClient.Proofs.CrossReferences

open TypedClient.Module TypedClient.Text TypedClient.Proofs.Pieces TypedClient.Proofs.Specifier
open TypedClient.Proofs.Location TypedClient.Proofs.DraftImports TypedClient.Proofs.Mentions
open TypedClient.Proofs.EntityImports

variable (settings : Settings) (source : String)

def drafted (e : Entity) : Role → Except Entity.Fault Draft
  | .type => .ok (e.typeDraft source)
  | .model => e.modelDraft settings source

def stem (path : String) : String :=
  String.ofList (path.toList.take (path.toList.length - ".ts".toList.length))

/-- A specifier in one file leads to another, which is known under the extension of its compiled
form. -/
def LeadsTo (file : File) (specifier : String) (goal : File) : Prop :=
  resolve (directory file.path) specifier = pieces '/' (stem goal.path ++ ".js")

/-- A file lies in the directory that is named like another file, or below that directory. -/
def Below (file goal : File) : Prop :=
  pieces '/' (stem goal.path) <+: directory file.path

instance (file : File) (specifier : String) (goal : File) :
    Decidable (LeadsTo file specifier goal) :=
  inferInstanceAs (Decidable (_ = _))

instance (file goal : File) : Decidable (Below file goal) :=
  inferInstanceAs (Decidable (_ <+: _))

variable {settings source} {e : Entity} {D E : Draft}

theorem stem_path (D : Draft) : stem D.finish.path = D.location := by
  simp [stem, Draft.finish]

theorem drafted_importsFrom {ρ : Role} (h : drafted settings source e ρ = .ok D) :
    D.location = ρ.location settings e.reference ∧
      ImportsFrom ((mentions e ρ).map (Mention.location settings)) D := by
  cases ρ with
  | type =>
    obtain rfl := Except.ok.inj h
    exact typeDraft_importsFrom settings e source
  | model => exact modelDraft_importsFrom settings h

theorem location_eq_of_fullName_eq {r s : Reference} (h : r.fullName = s.fullName) (ρ : Role) :
    ρ.location settings r = ρ.location settings s := by
  cases ρ <;> simp only [Role.location, Reference.location, h]

theorem plain_role_location {r : Reference} (hr : Proper r.fullName)
    (hs : Plain (pieces '/' settings.modelSuffix).tail) (ρ : Role) :
    Plain (pieces '/' (ρ.location settings r)) := by
  cases ρ with
  | type =>
    have h : Plain (pieces '/' (r.location ++ "")) := plain_location hr (by decide)
    rwa [String.append_empty] at h
  | model => exact plain_location hr hs

theorem leadsTo_iff (hD : Plain (pieces '/' D.location)) (hE : Plain (pieces '/' E.location)) :
    LeadsTo D.finish (D.moduleSpecifier E.location) E.finish ↔ ¬ Below D.finish E.finish := by
  rw [LeadsTo, Below, stem_path]
  exact resolve_relativeSpecifier_iff hD hE

theorem drafted_of_failures_eq_nil {d : Document}
    (hf : (Generation.ofDocument d settings source).failures = []) (he : e ∈ d.entities) (ρ : Role) :
    ∃ D, drafted settings source e ρ = .ok D ∧
      D.finish ∈ (Generation.ofDocument d settings source).files := by
  have hunit : Generation.ofEntity settings source e ∈ Generation.units d settings source :=
    List.mem_append_right _ (List.mem_map_of_mem he)
  have hnone := List.filterMap_eq_nil_iff.mp hf _ hunit
  unfold Generation.ofEntity at hunit hnone
  cases hm : e.modelDraft settings source with
  | error f =>
    rw [hm] at hnone
    cases hnone
  | ok M =>
    rw [hm] at hunit
    have hmem : ∀ file ∈ [(e.typeDraft source).finish, M.finish],
        file ∈ (Generation.ofDocument d settings source).files := fun file hfile =>
      List.mem_flatMap.mpr ⟨_, hunit, hfile⟩
    cases ρ with
    | type => exact ⟨_, rfl, hmem _ (by simp)⟩
    | model => exact ⟨M, hm, hmem _ (by simp)⟩

/-- The file of an entity imports the modules that the entity mentions, and each of them is found
unless the file lies below it. -/
theorem imports_lead_to_files {d : Document} {a b : Entity}
    (hf : (Generation.ofDocument d settings source).failures = [])
    (hs : Plain (pieces '/' settings.modelSuffix).tail) (ha : a ∈ d.entities) (hb : b ∈ d.entities)
    (hna : Proper a.name) (hnb : Proper b.name) (ρ τ : Role) :
    ∃ D E, drafted settings source a ρ = .ok D ∧ drafted settings source b τ = .ok E ∧
      D.finish ∈ (Generation.ofDocument d settings source).files ∧
      E.finish ∈ (Generation.ofDocument d settings source).files ∧
      (∀ path, ImportsDefault D path ↔ ∃ m ∈ mentions a ρ,
        m.location settings ≠ D.location ∧ path = D.moduleSpecifier (m.location settings)) ∧
      ∀ m ∈ mentions a ρ, m.role = τ → m.reference.fullName = b.name →
        (LeadsTo D.finish (D.moduleSpecifier (m.location settings)) E.finish ↔
          ¬ Below D.finish E.finish) := by
  obtain ⟨D, hD, hDf⟩ := drafted_of_failures_eq_nil hf ha ρ
  obtain ⟨E, hE, hEf⟩ := drafted_of_failures_eq_nil hf hb τ
  obtain ⟨hDl, hDi⟩ := drafted_importsFrom hD
  obtain ⟨hEl, -⟩ := drafted_importsFrom hE
  have hDp : Plain (pieces '/' D.location) := hDl ▸ plain_role_location hna hs ρ
  have hEp : Plain (pieces '/' E.location) := hEl ▸ plain_role_location hnb hs τ
  refine ⟨D, E, hD, hE, hDf, hEf, fun path => ?_, fun m _ hτ hm => ?_⟩
  · simp only [hDi path, List.mem_map, exists_exists_and_eq_and]
  · have hmE : m.location settings = E.location := by
      rw [hEl, ← hτ]
      exact location_eq_of_fullName_eq hm m.role
    rw [hmE]
    exact leadsTo_iff hDp hEp

def refer (name : String) : Schema :=
  .plain (.reference (Reference.toComponent name))

def order : Entity :=
  ⟨Reference.toComponent "Order", none,
    .object [⟨"items", .plain (.array (refer "Order.Item")), false⟩], none⟩

def orderItem : Entity :=
  ⟨Reference.toComponent "Order.Item", none, .object [⟨"order", refer "Order", false⟩], none⟩

def orders : Document :=
  ⟨"", "", [], [order, orderItem]⟩

theorem order_finds_orderItem :
    LeadsTo (order.typeDraft "api").finish "./Order/Item.js" (orderItem.typeDraft "api").finish := by
  have hf : (Generation.ofDocument orders {} "api").failures = [] := by decide +kernel
  obtain ⟨D, E, hD, hE, -, -, -, h⟩ := imports_lead_to_files hf (by decide)
    (List.mem_cons_self : order ∈ orders.entities)
    (List.mem_cons_of_mem _ List.mem_cons_self : orderItem ∈ orders.entities)
    (by decide +kernel) (by decide +kernel) .type .type
  obtain rfl := Except.ok.inj hD
  obtain rfl := Except.ok.inj hE
  have hm : (⟨.type, Reference.toComponent "Order.Item"⟩ : Mention) ∈ mentions order .type :=
    List.mem_cons_self
  refine (h _ hm rfl rfl).mpr ?_
  decide +kernel

/-- The file of a component in the directory named like another component does not find it. -/
theorem orderItem_does_not_find_order :
    (Generation.ofDocument orders {} "api").failures = [] ∧
      Proper order.name ∧ Proper orderItem.name ∧
      (⟨.type, order.reference⟩ : Mention) ∈ mentions orderItem .type ∧
      ImportsDefault (orderItem.typeDraft "api") "./.js" ∧
      (order.typeDraft "api").finish.path = "Order.ts" ∧
      resolve (directory (orderItem.typeDraft "api").finish.path) "./.js" ≠ ["Order.js"] := by
  have hm : (⟨.type, order.reference⟩ : Mention) ∈ mentions orderItem .type := List.mem_cons_self
  have himp : ImportsDefault (orderItem.typeDraft "api") "./.js" :=
    ((typeDraft_importsFrom {} orderItem "api").2 _).mpr
      ⟨_, List.mem_map_of_mem hm, by decide +kernel, by decide +kernel⟩
  exact ⟨by decide +kernel, by decide +kernel, by decide +kernel, hm, himp, by decide +kernel,
    by decide +kernel⟩

end TypedClient.Proofs.CrossReferences
