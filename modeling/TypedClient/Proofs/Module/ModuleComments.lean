import TypedClient.Proofs.Module.Contents
import TypedClient.Proofs.Module.NeutralText
import TypedClient.Proofs.Text.Pieces

namespace TypedClient.Proofs.ModuleComments

open TypedClient.Module TypedClient.Module.ImportTable TypedClient.Text
open TypedClient.Proofs.BlockComments TypedClient.Proofs.NeutralText TypedClient.Proofs.FreshName

def Unbroken (t : String) : Prop :=
  ∀ c ∈ t.toList, c ≠ '"' ∧ c ≠ '\\' ∧ isBreak c = false

instance (t : String) : Decidable (Unbroken t) :=
  List.decidableBAll (fun c => c ≠ '"' ∧ c ≠ '\\' ∧ isBreak c = false) t.toList

variable {s t : String}

theorem Unbroken.inert (h : Unbroken t) : Inert t := by
  intro comments
  unfold Reader.read
  unfold Unbroken at h
  generalize t.toList = cs at h
  induction cs with
  | nil => rfl
  | cons c cs ih =>
    obtain ⟨⟨hquote, hslash, hbreak⟩, hcs⟩ := List.forall_mem_cons.mp h
    have hstep : (⟨.quoted '"', comments⟩ : Reader).step c = ⟨.quoted '"', comments⟩ := by
      simp [Reader.step, Mode.ofQuoted, hquote, hslash, hbreak]
    rw [List.foldl_cons, hstep, ih hcs]

theorem Unbroken.append (hs : Unbroken s) (ht : Unbroken t) : Unbroken (s ++ t) := by
  unfold Unbroken
  rw [String.toList_append]
  exact List.forall_mem_append.mpr ⟨hs, ht⟩

theorem unbroken_join {ts : List String} (h : ∀ t ∈ ts, Unbroken t) : Unbroken (String.join ts) := by
  intro c hc
  rw [String.toList_join] at hc
  obtain ⟨t, ht, hc⟩ := List.mem_flatMap.mp hc
  exact h t ht c hc

theorem unbroken_intercalate {ts : List String} (hs : Unbroken s) (h : ∀ t ∈ ts, Unbroken t) :
    Unbroken (s.intercalate ts) := by
  induction ts with
  | nil => exact nofun
  | cons t ts ih =>
    rw [List.forall_mem_cons] at h
    by_cases hts : ts = []
    · rw [hts, String.intercalate_singleton]
      exact h.1
    · rw [String.intercalate_cons_of_ne_nil hts]
      exact (h.1.append hs).append (ih h.2)

/-- An import between identifiers, from a path that stays between its quotes. -/
structure Neat (i : Import) : Prop where
  path : Unbroken i.path
  binding : IsIdentifier i.binding
  exported : ∀ n, i.kind = .named n → IsIdentifier n

section Imports

theorem neutral_fromPath {path : String} (h : Unbroken path) : Neutral (fromPath path) := by
  have hquoted : fromPath path = " from " ++ ("\"" ++ path ++ "\"") ++ ";" := by
    rw [fromPath, ← String.toList_inj]
    simp
  rw [hquoted]
  exact neutral_between (by decide) h.inert.neutral (by decide)

theorem neutral_keyword (typeOnly : Bool) : Neutral (keyword typeOnly) := by
  cases typeOnly <;> exact neutral_of_plain (by decide)

theorem neutral_specifier (allTypes : Bool) {name : String} {i : Import} (hname : IsIdentifier name)
    (hi : Neat i) : Neutral (specifier allTypes name i) := by
  have htype : Neutral (if i.typeOnly && !allTypes then "type " else "") := by
    split <;> exact neutral_of_plain (by decide)
  refine htype.append ?_
  split
  · exact neutral_identifier hname
  · exact ((neutral_identifier hname).plain (by decide)).append
      (neutral_identifier hi.binding)

variable {is : List Import}

theorem neat_of_mem_sortedNamed (h : ∀ i ∈ is, Neat i) {n : String × Import}
    (hn : n ∈ sortedNamed is) : IsIdentifier n.1 ∧ Neat n.2 := by
  obtain ⟨i, hi, hn⟩ := List.mem_filterMap.mp (List.mem_mergeSort.mp hn)
  obtain ⟨exported, hexported, rfl⟩ := Option.map_eq_some_iff.mp hn
  refine ⟨(h i hi).exported exported ?_, h i hi⟩
  cases hkind : i.kind <;> simp_all [ImportKind.exported?]

theorem neutral_namedStatement {path : String} (hpath : Unbroken path) (h : ∀ i ∈ is, Neat i) :
    ∀ s ∈ namedStatement path is, Neutral s := by
  unfold namedStatement
  split
  · exact nofun
  · dsimp only
    refine List.forall_mem_singleton.mpr ?_
    have hspecifiers : Neutral (", ".intercalate ((sortedNamed is).map fun n =>
        specifier ((sortedNamed is).all fun n => n.2.typeOnly) n.1 n.2)) := by
      refine neutral_intercalate (neutral_of_plain (by decide)) (List.forall_mem_map.mpr ?_)
      intro n hn
      obtain ⟨hname, hi⟩ := neat_of_mem_sortedNamed h hn
      exact neutral_specifier _ hname hi
    exact ((((neutral_keyword _).plain (by decide)).append hspecifiers).plain
      (by decide)).append (neutral_fromPath hpath)

theorem neutral_statements {t : ImportTable} (h : ∀ i ∈ t.imports, Neat i) :
    ∀ s ∈ t.statements, Neutral s := by
  intro s hs
  obtain ⟨path, hpath, hs⟩ := List.mem_flatMap.mp hs
  obtain ⟨i, hi, rfl⟩ := List.mem_map.mp (List.mem_eraseDups.mp hpath)
  have hfrom := neutral_fromPath (h i hi).path
  have his : ∀ j ∈ t.imports.filter (fun j => j.path = i.path), Neat j :=
    fun j hj => h j (List.mem_of_mem_filter hj)
  rw [pathStatements, List.mem_append, List.mem_append, List.mem_map, List.mem_map] at hs
  obtain (⟨j, hj, rfl⟩ | ⟨j, hj, rfl⟩) | hs := hs
  · have hbinding := neutral_identifier (his j (List.mem_of_mem_filter hj)).binding
    exact ((neutral_of_plain (by decide)).append hbinding).append hfrom
  · have hbinding := neutral_identifier (his j (List.mem_of_mem_filter hj)).binding
    exact (((neutral_keyword _).plain (by decide)).append hbinding).append hfrom
  · exact neutral_namedStatement (h i hi).path his s hs

end Imports

section Contents

variable {d : Draft} {bodies : List String}

def headerBody (d : Draft) : String :=
  "*\n * " ++ marker ++ " from " ++ d.source ++
    (".\n * Changes to this file are overwritten on the next generation run.\n * @module " ++
      afterLast '/' d.location ++ "\n ")

theorem header_eq (d : Draft) : d.header = "/*" ++ headerBody d ++ "*/" := by
  rw [Draft.header, headerBody, ← String.toList_inj]
  simp

theorem slash_not_mem_afterLast (s : String) : '/' ∉ (afterLast '/' s).toList := by
  obtain ⟨ps, p, hp⟩ := Pieces.exists_pieces_eq '/' s
  have hlast : afterLast '/' s = p := by simp [afterLast, hp]
  rw [hlast]
  exact Pieces.not_mem_of_mem_pieces (s := s) (by simp [hp])

theorem terminates_headerBody_iff (d : Draft) : Terminates (headerBody d) ↔ Terminates d.source := by
  refine terminates_between_iff (by decide) (by decide) ?_
  rw [String.toList_append, String.toList_append, List.mem_append, List.mem_append, not_or, not_or]
  exact ⟨⟨by decide, slash_not_mem_afterLast d.location⟩, by decide⟩

theorem written_join {α : Type} {bodiesOf : α → List String} {textOf : α → String} {as : List α}
    (h : ∀ a ∈ as, Written (bodiesOf a) (textOf a)) :
    Written (as.flatMap bodiesOf) (String.join (as.map textOf)) := by
  induction as with
  | nil => exact .code (neutral_of_plain rfl)
  | cons a as ih =>
    rw [List.forall_mem_cons] at h
    rw [List.map_cons, String.join_cons]
    exact .append h.1 (ih h.2)

/-- A module is written with the comment at its head and then those of its declarations, the last of
which ends in a semicolon. -/
theorem written_contents {ds : List String} {last : String} (hi : ∀ i ∈ d.imports.imports, Neat i)
    (hlast : d.declarations = ds ++ [last ++ ";"])
    (hd : Written bodies (String.join (d.declarations.map ("\n\n" ++ ·)))) :
    Written (headerBody d :: bodies) d.contents := by
  have hheader : Written [headerBody d] d.header := header_eq d ▸ .comment _
  have himports : Neutral (String.join (d.imports.statements.map ("\n" ++ ·))) :=
    neutral_join (List.forall_mem_map.mpr fun s hs =>
      (neutral_of_plain (by decide)).append (neutral_statements hi s hs))
  have hall := ((hheader.append (.code himports)).append hd).append
    (.code (neutral_of_plain (t := "\n") (by decide)))
  rw [Contents.contents_eq hlast]
  simpa using hall

end Contents

end TypedClient.Proofs.ModuleComments
