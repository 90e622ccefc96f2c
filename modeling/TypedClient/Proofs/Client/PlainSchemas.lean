import TypedClient.Proofs.Client.EndpointScopes
import TypedClient.Proofs.Module.TidyDrafts

namespace TypedClient.Proofs.PlainSchemas

open TypedClient.Module TypedClient.Proofs.BlockComments TypedClient.Proofs.NeutralText
open TypedClient.Proofs.FreshName TypedClient.Proofs.ModuleComments TypedClient.Proofs.TidyDrafts
open TypedClient.Proofs.Mentions TypedClient.Proofs.SchemaWork

variable {settings : Settings} {source : String}

/-- The configured modules and those of some components are imported from unbroken paths. -/
structure Placed (settings : Settings) (ms : List Mention) : Prop where
  client : Unbroken settings.clientModule
  form : Unbroken settings.formModule
  components : ∀ m ∈ ms, Unbroken (m.location settings)

theorem Placed.of_subset {ms ns : List Mention} (h : Placed settings ms) (hs : ns ⊆ ms) :
    Placed settings ns :=
  ⟨h.client, h.form, fun m hm => h.components m (hs hm)⟩

theorem Placed.append {ms ns : List Mention} (h : Placed settings (ms ++ ns)) :
    Placed settings ms ∧ Placed settings ns :=
  ⟨h.of_subset (List.subset_append_left _ _), h.of_subset (List.subset_append_right _ _)⟩

theorem formExports_isIdentifier {name : String} (h : name ∈ formExports) : IsIdentifier name := by
  have hall : ∀ n ∈ formExports, Identifier.sanitize n = n := by decide +kernel
  rw [← hall name h]
  exact sanitize_isIdentifier name

section Types

def Named (t : TypeExpr) : Prop :=
  ∀ n ∈ t.names, IsIdentifier n

theorem Named.neutral {t : TypeExpr} (h : Named t) : Neutral t.text :=
  (coded_type t h).neutral

theorem Named.orUndefined {t : TypeExpr} (h : Named t) : Named t.orUndefined := by
  rwa [Named, TypeExpr.names_orUndefined]

theorem Named.required {t : TypeExpr} (h : Named t) : Named t.required := by
  cases t <;> exact h

variable {ms : List Mention}

theorem yields_mention {m : Mention} (h : Placed settings ms) (hm : m ∈ ms) (typeOnly : Bool) :
    Yields source IsIdentifier
      (Draft.importFrom (m.location settings) (m.name settings) typeOnly) :=
  .importFrom (h.components m hm) _ _

theorem yields_formClass {name : String} (h : Placed settings ms) (hn : name ∈ formExports) :
    Yields source IsIdentifier (formClass settings name) :=
  .namedImport h.form (formExports_isIdentifier hn) false

theorem tidy_of_makes {α : Type} {m : Drafting α} (hm : Makes settings ms m)
    (h : Placed settings ms) : Yields source (fun _ => True) m := by
  induction hm with
  | pure a => exact .pure trivial
  | bind _ _ ihm ihf => exact (ihm h.append.1).bind fun a _ => ihf a h.append.2
  | mention m typeOnly =>
    exact fun d hd => ⟨trivial, (yields_mention h (List.mem_singleton_self m) typeOnly d hd).2⟩
  | formClass hn => exact fun d hd => ⟨trivial, (yields_formClass h hn d hd).2⟩

theorem yields_valueType (mark : Bool) (s : Schema)
    (h : Placed settings (schemaTypes s)) : Yields source Named (s.valueType mark) := by
  intro d hd
  obtain ⟨-, htidy⟩ := tidy_of_makes (makes_schema_valueType settings mark s) h d hd
  exact ⟨fun n hn => htidy.isIdentifier
    (SchemaNames.resolved_schema_valueType mark s d n hn), htidy⟩

theorem tidyOk_of_makes {ε α : Type} {m : ExceptT ε Drafting α} (hm : MakesOk settings ms m)
    (h : Placed settings ms) : YieldsOk source (fun _ => True) m := by
  induction hm with
  | pure a => exact .pure trivial
  | throw e => exact .throw e
  | lift hm => exact .lift (tidy_of_makes hm h)
  | bind _ _ ihm ihf => exact (ihm h.append.1).bind fun a _ => ihf a h.append.2
  | adapt _ g ih => exact (ih h).adapt g

end Types

end TypedClient.Proofs.PlainSchemas
