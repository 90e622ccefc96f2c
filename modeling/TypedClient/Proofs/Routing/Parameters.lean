import Mathlib.Data.List.Forall2
import Mathlib.Data.List.Induction
import Mathlib.Order.Defs.LinearOrder
import Mathlib.Data.String.Basic
import TypedClient.Routing.Manifest
import TypedClient.Routing.Table

namespace TypedClient.Proofs.Parameters

open TypedClient.Routing

variable {p q : String × ParamKind} {ps : List (String × ParamKind)} {cs w : List Char}
  {r : Captures} {tokens : List Token} {name : String}

/-- What a parameter of some kind may take: one segment at least if it is required. -/
def Fits (kind : ParamKind) (taken : Option String) : Prop :=
  kind = .required → ∃ v, taken = some v ∧ v ≠ "" ∧ '/' ∉ v.toList

theorem longest?_eq_some {class? : Char → Bool}
    (h : longest? class? cs (answers tokens cs) = some (w, r)) :
    ∃ rest, cs = w ++ rest ∧ (∀ c ∈ w, class? c = true) ∧
      (answers tokens rest).first? = some r := by
  induction cs generalizing w with
  | nil =>
    obtain ⟨s, hs, heq⟩ := Option.map_eq_some_iff.mp h
    obtain ⟨rfl, rfl⟩ := Prod.mk.inj heq
    exact ⟨[], rfl, by simp, hs⟩
  | cons c cs ih =>
    rw [longest?, Option.orElse_eq_orElse, Option.orElse_eq_or, Option.or_eq_some_iff] at h
    obtain h | ⟨-, h⟩ := h
    · split at h
      · rename_i hc
        rw [answers_tail] at h
        obtain ⟨⟨w', r'⟩, hw, heq⟩ := Option.map_eq_some_iff.mp h
        obtain ⟨rfl, rfl⟩ := Prod.mk.inj heq
        obtain ⟨rest, rfl, hall, hrest⟩ := ih hw
        exact ⟨rest, rfl, List.forall_mem_cons.mpr ⟨hc, hall⟩, hrest⟩
      · cases h
    · obtain ⟨s, hs, heq⟩ := Option.map_eq_some_iff.mp h
      obtain ⟨rfl, rfl⟩ := Prod.mk.inj heq
      exact ⟨c :: cs, rfl, by simp, hs⟩

theorem segment?_eq_some (h : Token.segment? cs (answers tokens cs) = some (w, r)) :
    ∃ rest, cs = w ++ rest ∧ w ≠ [] ∧ '/' ∉ w ∧ (answers tokens rest).first? = some r := by
  cases cs with
  | nil => cases h
  | cons c cs =>
    rw [Token.segment?, answers_tail] at h
    split at h
    · rename_i hc
      obtain ⟨⟨w', r'⟩, hw, heq⟩ := Option.map_eq_some_iff.mp h
      obtain ⟨rfl, rfl⟩ := Prod.mk.inj heq
      obtain ⟨rest, rfl, hall, hrest⟩ := longest?_eq_some hw
      refine ⟨rest, rfl, List.cons_ne_nil c w', fun hmem => ?_, hrest⟩
      have hin : ∀ x ∈ c :: w', Token.inSegment x = true := List.forall_mem_cons.mpr ⟨hc, hall⟩
      exact absurd (hin '/' hmem) (by decide)
    · cases h

theorem behindSlash?_eq_some {token : Token}
    (h : token.behindSlash? cs (answers tokens cs) = some r) :
    ∃ taken s rest, r = taken ++ s ∧ (answers tokens rest).first? = some s ∧
      List.Forall₂ (fun p v => Fits p.2 v) token.param?.toList taken := by
  cases token with
  | literal word =>
    rw [Token.behindSlash?] at h
    split at h
    · rename_i hprefix
      obtain ⟨rest, rfl⟩ := List.isPrefixOf_iff_prefix.mp hprefix
      rw [← String.length_toList, answers_drop] at h
      exact ⟨[], r, rest, rfl, h, .nil⟩
    · cases h
  | param name =>
    obtain ⟨⟨w, s⟩, hw, rfl⟩ := Option.map_eq_some_iff.mp h
    obtain ⟨rest, -, hne, hslash, hs⟩ := segment?_eq_some hw
    have hfits : Fits .required (some (String.ofList w)) := fun _ =>
      ⟨_, rfl, by simpa using hne, by rwa [String.toList_ofList]⟩
    exact ⟨[_], s, rest, rfl, hs, .cons hfits .nil⟩
  | optional name =>
    obtain ⟨⟨w, s⟩, hw, rfl⟩ := Option.map_eq_some_iff.mp h
    obtain ⟨rest, -, -, -, hs⟩ := segment?_eq_some hw
    exact ⟨[_], s, rest, rfl, hs, .cons nofun .nil⟩
  | rest =>
    obtain ⟨⟨w, s⟩, hw, rfl⟩ := Option.map_eq_some_iff.mp h
    obtain ⟨rest, -, -, hs⟩ := longest?_eq_some hw
    exact ⟨[_], s, rest, rfl, hs, .cons nofun .nil⟩

theorem answer?_eq_some {token : Token} (h : token.answer? cs (answers tokens cs) = some r) :
    ∃ taken s rest, r = taken ++ s ∧ (answers tokens rest).first? = some s ∧
      List.Forall₂ (fun p v => Fits p.2 v) token.param?.toList taken := by
  rw [Token.answer?, Option.orElse_eq_orElse, Option.orElse_eq_or, Option.or_eq_some_iff] at h
  obtain h | ⟨-, h⟩ := h
  · cases cs with
    | nil => cases h
    | cons c cs =>
      by_cases hc : c = '/'
      · subst hc
        rw [Token.present?, answers_tail] at h
        exact behindSlash?_eq_some h
      · rw [Token.present?] at h
        · cases h
        · exact fun _ h => hc (List.cons.inj h).1
  · rw [Token.absent?] at h
    split at h
    · rename_i hopt
      obtain ⟨s, hs, rfl⟩ := Option.map_eq_some_iff.mp h
      cases token with
      | literal | param => cases hopt
      | optional | rest => exact ⟨[none], s, cs, rfl, hs, .cons nofun .nil⟩
    · cases h

theorem fits_answers (h : (answers tokens cs).first? = some r) :
    List.Forall₂ (fun p v => Fits p.2 v) (tokens.filterMap Token.param?) r := by
  induction tokens generalizing cs r with
  | nil =>
    cases cs with
    | nil =>
      obtain rfl : [] = r := Option.some.inj h
      exact .nil
    | cons => cases h
  | cons token tokens ih =>
    rw [first?_answers_cons] at h
    obtain ⟨taken, s, rest, rfl, hs, hfits⟩ := answer?_eq_some h
    have hparams : (token :: tokens).filterMap Token.param? =
        token.param?.toList ++ tokens.filterMap Token.param? := by
      rw [List.filterMap_cons]
      cases token.param? <;> rfl
    rw [hparams]
    exact List.rel_append hfits (ih hs)

/-- There is one part for each parameter of a pattern that matches a location, and it fits. -/
theorem fits_captures? {pattern location : String}
    (h : Pattern.captures? pattern location = some r) :
    List.Forall₂ (fun p v => Fits p.2 v) (Pattern.params pattern) r := by
  rw [Pattern.captures?] at h
  rw [Pattern.params]
  split at h
  · rename_i htokens
    split at h
    · obtain rfl := Option.some.inj h
      rw [htokens]
      exact .nil
    · cases h
  · exact fits_answers h

def Sorted (ps : List (String × ParamKind)) : Prop :=
  ps.Pairwise fun p q => p.1 < q.1

theorem setParam_mem (hp : q ∈ ManifestEntry.setParam p ps) : q = p ∨ q ∈ ps := by
  induction ps with
  | nil => exact .inl (List.mem_singleton.mp hp)
  | cons s ps ih =>
    rw [ManifestEntry.setParam] at hp
    split at hp
    · exact List.mem_cons.mp hp
    split at hp
    · obtain rfl | hp := List.mem_cons.mp hp
      · exact .inl rfl
      · exact .inr (List.mem_cons_of_mem s hp)
    · obtain rfl | hp := List.mem_cons.mp hp
      · exact .inr List.mem_cons_self
      · exact (ih hp).imp id (List.mem_cons_of_mem s)

theorem sorted_setParam (h : Sorted ps) : Sorted (ManifestEntry.setParam p ps) := by
  induction ps with
  | nil => exact List.pairwise_singleton _ _
  | cons s ps ih =>
    obtain ⟨hs, hps⟩ := List.pairwise_cons.mp h
    rw [ManifestEntry.setParam]
    split
    · rename_i hlt
      refine List.pairwise_cons.mpr ⟨fun q hq => ?_, h⟩
      obtain rfl | hq := List.mem_cons.mp hq
      · exact hlt
      · exact hlt.trans (hs q hq)
    split
    · rename_i heq
      exact List.pairwise_cons.mpr ⟨fun q hq => heq ▸ hs q hq, hps⟩
    · rename_i hlt hne
      refine List.pairwise_cons.mpr ⟨fun q hq => ?_, ih hps⟩
      obtain rfl | hq := setParam_mem hq
      · exact lt_of_le_of_ne (not_lt.mp hlt) (Ne.symm hne)
      · exact hs q hq

theorem mem_setParam_iff (h : Sorted ps) :
    q ∈ ManifestEntry.setParam p ps ↔ q = p ∨ (q ∈ ps ∧ q.1 ≠ p.1) := by
  induction ps with
  | nil => simp [ManifestEntry.setParam]
  | cons s ps ih =>
    obtain ⟨hs, hps⟩ := List.pairwise_cons.mp h
    rw [ManifestEntry.setParam]
    split
    · rename_i hlt
      have habove : q ∈ s :: ps → q.1 ≠ p.1 := by
        rintro hq
        obtain rfl | hq := List.mem_cons.mp hq
        · exact hlt.ne'
        · exact (hlt.trans (hs q hq)).ne'
      rw [List.mem_cons]
      exact or_congr_right (iff_self_and.mpr habove)
    split
    · rename_i heq
      have habove : q ∈ ps → q.1 ≠ p.1 := fun hq => heq ▸ (hs q hq).ne'
      rw [List.mem_cons, List.mem_cons]
      constructor
      · exact Or.imp id fun hq => ⟨.inr hq, habove hq⟩
      · rintro (rfl | ⟨rfl | hq, hne⟩)
        · exact .inl rfl
        · exact absurd heq.symm hne
        · exact .inr hq
    · rename_i hne
      rw [List.mem_cons, List.mem_cons, ih hps]
      constructor
      · rintro (rfl | rfl | ⟨hq, hqp⟩)
        · exact .inr ⟨.inl rfl, Ne.symm hne⟩
        · exact .inl rfl
        · exact .inr ⟨.inr hq, hqp⟩
      · rintro (rfl | ⟨rfl | hq, hqp⟩)
        · exact .inr (.inl rfl)
        · exact .inl rfl
        · exact .inr (.inr ⟨hq, hqp⟩)

def listed (taken : List ((String × ParamKind) × Option String)) : List (String × ParamKind) :=
  (taken.map Prod.fst).foldl (fun ps p => ManifestEntry.setParam p ps) []

def given (taken : List ((String × ParamKind) × Option String)) : List (String × String) :=
  (taken.filterMap fun p => p.2.map fun v => (p.1.1, v)).foldl Table.setParam []

variable {taken : List ((String × ParamKind) × Option String)}

theorem listed_append (t : (String × ParamKind) × Option String) :
    listed (taken ++ [t]) = ManifestEntry.setParam t.1 (listed taken) := by
  simp [listed]

theorem sorted_listed (taken : List ((String × ParamKind) × Option String)) :
    Sorted (listed taken) := by
  induction taken using List.reverseRecOn with
  | nil => exact List.Pairwise.nil
  | append_singleton taken t ih =>
    rw [listed_append]
    exact sorted_setParam ih

theorem mem_given_append (t : (String × ParamKind) × Option String) (e : String × String) :
    e ∈ given (taken ++ [t]) ↔
      (e.1 = t.1.1 ∧ t.2 = some e.2) ∨ (e ∈ given taken ∧ (t.2 = none ∨ e.1 ≠ t.1.1)) := by
  obtain ⟨⟨name, kind⟩, v⟩ := t
  obtain ⟨key, value⟩ := e
  cases v with
  | none => simp [given]
  | some v =>
    simp only [given, List.filterMap_append, List.filterMap_cons, List.filterMap_nil,
      Option.map_some, List.foldl_append, List.foldl_cons, List.foldl_nil, Table.setParam,
      List.mem_append, List.mem_filter, List.mem_singleton, Prod.mk.injEq, Option.some.injEq,
      reduceCtorEq, false_or, decide_eq_true_eq]
    tauto

/-- Every parameter that is given is listed, and one that is listed as required is given. -/
theorem given_listed (h : ∀ t ∈ taken, Fits t.1.2 t.2) :
    (∀ e ∈ given taken, ∃ kind, (e.1, kind) ∈ listed taken) ∧
    ∀ name, (name, .required) ∈ listed taken →
      ∃ v, (name, v) ∈ given taken ∧ v ≠ "" ∧ '/' ∉ v.toList := by
  induction taken using List.reverseRecOn with
  | nil => exact ⟨nofun, nofun⟩
  | append_singleton taken t ih =>
    obtain ⟨⟨last, kind⟩, taken?⟩ := t
    rw [List.forall_mem_append] at h
    obtain ⟨hkeys, hrequired⟩ := ih h.1
    have hfits : Fits kind taken? := h.2 _ (List.mem_singleton.mpr rfl)
    simp only [listed_append, mem_setParam_iff (sorted_listed taken), mem_given_append]
    refine ⟨fun e he => ?_, fun name hname => ?_⟩
    · by_cases hlast : e.1 = last
      · exact ⟨kind, .inl (by rw [hlast])⟩
      · obtain ⟨heq, -⟩ | ⟨he, -⟩ := he
        · exact absurd heq hlast
        · obtain ⟨kind', hmem⟩ := hkeys e he
          exact ⟨kind', .inr ⟨hmem, hlast⟩⟩
    · obtain heq | ⟨hmem, hne⟩ := hname
      · obtain ⟨rfl, rfl⟩ := Prod.mk.inj heq
        obtain ⟨v, rfl, hv⟩ := hfits rfl
        exact ⟨v, .inl ⟨rfl, rfl⟩, hv⟩
      · obtain ⟨v, hmem, hv⟩ := hrequired name hmem
        exact ⟨v, .inr ⟨hmem, .inr hne⟩, hv⟩

theorem nodup_given (taken : List ((String × ParamKind) × Option String)) :
    ((given taken).map Prod.fst).Nodup := by
  rw [given]
  generalize taken.filterMap _ = es
  induction es using List.reverseRecOn with
  | nil => exact List.nodup_nil
  | append_singleton es e ih =>
    rw [List.foldl_append, List.foldl_cons, List.foldl_nil, Table.setParam, List.map_append,
      List.nodup_append]
    refine ⟨ih.sublist (List.filter_sublist.map _), by simp, ?_⟩
    simp only [List.mem_map, List.mem_filter, decide_eq_true_eq, List.map_cons, List.map_nil,
      List.mem_singleton]
    rintro _ ⟨q, ⟨-, hq⟩, rfl⟩ _ rfl
    exact hq

/-- Where a pattern matches a location, what the match gives goes with what the manifest lists. -/
theorem paramValues_sortedParams {pattern location : String}
    (h : Pattern.captures? pattern location = some r) :
    ((Table.paramValues pattern r).map Prod.fst).Nodup ∧
    (∀ e ∈ Table.paramValues pattern r, ∃ kind, (e.1, kind) ∈ ManifestEntry.sortedParams pattern) ∧
    ∀ name, (name, .required) ∈ ManifestEntry.sortedParams pattern →
      ∃ v, (name, v) ∈ Table.paramValues pattern r ∧ v ≠ "" ∧ '/' ∉ v.toList := by
  have hfits := fits_captures? h
  have hlisted : ManifestEntry.sortedParams pattern = listed ((Pattern.params pattern).zip r) := by
    rw [listed, List.map_fst_zip hfits.length_eq.le]
    rfl
  rw [hlisted]
  exact ⟨nodup_given _, given_listed fun t ht => (List.forall₂_iff_zip.mp hfits).2 ht⟩

end TypedClient.Proofs.Parameters
