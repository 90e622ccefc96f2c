import TypedClient.FileTree.Writing
import TypedClient.Proofs.FileTree.Directories

namespace TypedClient.Proofs.UserFiles

open TypedClient.FileTree TypedClient.Proofs.Ways TypedClient.Proofs.Directories
  TypedClient.Proofs.Ancestors

variable {α β ε : Type} {t u v : FileTree} {n : Name} {mode : WriteMode} {p contents root : String}
  {c : Contents}

def left (w : Writing α) (t : FileTree) : FileTree :=
  (w.run.run t).2

theorem run_bind (w : ExceptT ε (StateM FileTree) α) (next : α → ExceptT ε (StateM FileTree) β)
    (t : FileTree) : (w >>= next).run.run t =
      match w.run.run t with
      | (.ok a, u) => (next a).run.run u
      | (.error e, u) => (.error e, u) := by
  have hrun : (w >>= next).run.run t =
      (ExceptT.bindCont next (w.run.run t).1).run (w.run.run t).2 := rfl
  rw [hrun]
  rcases w.run.run t with ⟨_ | a, u⟩ <;> rfl

theorem run_pure (a : α) (t : FileTree) :
    (pure a : ExceptT ε (StateM FileTree) α).run.run t = (.ok a, t) := rfl

theorem run_get (t : FileTree) :
    (get : ExceptT ε (StateM FileTree) FileTree).run.run t = (.ok t, t) := rfl

theorem run_set (t u : FileTree) : (set u : Writing PUnit).run.run t = (.ok (), u) := rfl

theorem run_makeParent (p : String) (t : FileTree) :
    (makeParent p).run.run t = match Path.parent? p with
      | none => (.ok (), t)
      | some q => (if (t.makeDirectories q).2 then .ok () else .error (.noDirectory q),
          (t.makeDirectories q).1) := by
  unfold makeParent
  cases Path.parent? p with
  | none => rfl
  | some q =>
    rcases hmade : t.makeDirectories q with ⟨u, ok⟩
    simp only [run_bind, run_get, run_set, hmade]
    cases ok <;> rfl

theorem run_writeFile (mode : WriteMode) (p contents : String) (t : FileTree) :
    (writeFile mode p contents).run.run t = match settled? t mode p contents with
      | .error e => (.error e, t)
      | .ok (some o) => (.ok o, t)
      | .ok none =>
        if mode.dryRun then (.ok .planned, t)
        else match (makeParent p).run.run t with
          | (.error e, u) => (.error e, u)
          | (.ok _, u) => match u.write? p (.text contents) with
            | none => (.error (.unwritable p), u)
            | some v => (.ok .written, v) := by
  unfold writeFile
  simp only [run_bind, run_get]
  rcases settled? t mode p contents with e | _ | o
  · rfl
  · cases mode.dryRun with
    | true => rfl
    | false =>
      simp only [MonadExcept.ofExcept, run_pure, run_bind, run_get, Bool.false_eq_true, if_false]
      rcases (makeParent p).run.run t with ⟨_ | _, u⟩
      · rfl
      · dsimp only
        cases u.write? p (.text contents) <;> rfl
  · rfl

/-- A batch ends with its first write, or goes on from the tree that it left. -/
theorem left_writeFiles (mode : WriteMode) (root : String) (s : Summary) (f : Module.File)
    (fs : List Module.File) (t : FileTree) :
    left (writeFiles mode root s (f :: fs)) t =
        left (writeFile mode (Path.join root f.path) f.contents) t ∨
      ∃ s', left (writeFiles mode root s (f :: fs)) t =
        left (writeFiles mode root s' fs)
          (left (writeFile mode (Path.join root f.path) f.contents) t) := by
  simp only [left, writeFiles, run_bind]
  rcases (writeFile mode (Path.join root f.path) f.contents).run.run t with ⟨_ | o, u⟩
  · exact .inl rfl
  · exact .inr ⟨s.add (Path.join root f.path) o, rfl⟩

theorem dryRun_leaves (h : mode.dryRun = true) (p contents : String) (t : FileTree) :
    left (writeFile mode p contents) t = t := by
  rw [left, run_writeFile]
  rcases settled? t mode p contents with e | _ | o
  · rfl
  · rw [if_pos h]
  · rfl

/-- What one write does to the tree: nothing, or directories are made, and then the file is written
unless that fails. -/
theorem left_writeFile (mode : WriteMode) (p contents : String) (t : FileTree) :
    left (writeFile mode p contents) t = t ∨
      settled? t mode p contents = .ok none ∧
        (left (writeFile mode p contents) t = left (makeParent p) t ∨
          (left (makeParent p) t).write? p (.text contents) =
            some (left (writeFile mode p contents) t)) := by
  rw [left, run_writeFile]
  cases hs : settled? t mode p contents with
  | error e => exact .inl rfl
  | ok settled =>
    cases settled with
    | some o => exact .inl rfl
    | none =>
      cases mode.dryRun with
      | true => exact .inl rfl
      | false =>
        right
        simp only [left]
        rcases (makeParent p).run.run t with ⟨_ | _, u⟩
        · exact ⟨trivial, .inl rfl⟩
        · dsimp only
          cases u.write? p (.text contents) with
          | none => exact ⟨trivial, .inl rfl⟩
          | some v => exact ⟨trivial, .inr rfl⟩

theorem grown_makeParent (p : String) (t : FileTree) :
    ∃ ps, (∀ q ∈ ps, Above p q) ∧ Grown ps t (left (makeParent p) t) := by
  rw [left, run_makeParent]
  cases hq : Path.parent? p with
  | none => exact ⟨[], by simp, .same⟩
  | some q =>
    exact ⟨lineage (q.length + 2) q, above_of_mem_lineage (above_of_parent? hq),
      Grown.makeFirst t (lineage (q.length + 2) q)⟩

/-- Contents that are no generated text: bytes, or a text without the marker. -/
def Owned (c : Contents) : Prop :=
  ∀ s, c = .text s → isGenerated s = false

theorem not_owned_of_settled? (hs : settled? t mode p contents = .ok none)
    (hforce : mode.force = false) (hp : t.locate true p = .found n (.file c)) : ¬ Owned c := by
  have hexists : t.exists? p = true := by rw [exists?, hp]
  have hread : t.readText? p = c.text? := by rw [readText?, hp]
  rw [settled?, if_pos hexists, hread] at hs
  cases c with
  | bytes bs => cases hs
  | text old =>
    intro howned
    simp only [Contents.text?, howned old rfl, hforce] at hs
    split at hs <;> cases hs

structure Keeps (t u : FileTree) : Prop where
  later : Later t u
  wellFormed : WellFormed u
  owned : ∀ n c, t.node? n = some (.file c) → Owned c → u.node? n = some (.file c)

namespace Keeps

theorem refl (h : WellFormed t) : Keeps t t :=
  ⟨Later.refl t, h, fun _ _ hc _ => hc⟩

theorem trans (h : Keeps t u) (h' : Keeps u v) : Keeps t v :=
  ⟨h.later.trans h'.later, h'.wellFormed,
    fun n c hc howned => h'.owned n c (h.owned n c hc howned) howned⟩

theorem of_grown {ps : List String} (ht : WellFormed t) (h : Grown ps t u) : Keeps t u :=
  ⟨(h.extended ht).later, h.wellFormed ht, fun _ _ hc _ => (h.extended ht).kept hc⟩

theorem insert_free (ht : WellFormed t) (hn : Free t n) (c : Contents) :
    Keeps t (t.insert n (.file c)) := by
  have hnode : ∀ m x, t.node? m = some x → (t.insert n (.file c)).node? m = some x := by
    intro m x hx
    rw [node?_insert t (free_ne_nil hn), if_neg]
    · exact hx
    · rintro rfl
      rw [hn.1] at hx
      cases hx
  exact ⟨⟨rfl, fun m x hx => ⟨x, hnode m x hx, Kept.refl x⟩⟩, wellFormed_insert_free ht hn _,
    fun m d hd _ => hnode m _ hd⟩

theorem insert_file {old : Contents} (ht : WellFormed t) (hn : t.node? n = some (.file old))
    (hold : ¬ Owned old) (c : Contents) : Keeps t (t.insert n (.file c)) := by
  have hne : n ≠ [] := by
    rintro rfl
    cases hn
  have hparent : t.node? n.dropLast = some .directory := by
    refine ht.parents n.dropLast (n.getLast hne) ?_
    rw [List.dropLast_append_getLast, hn]
    exact Option.some_ne_none _
  refine ⟨⟨rfl, fun m x hx => ?_⟩, wellFormed_insert ht hne hparent (by rw [hn]; nofun) _, ?_⟩
  · rw [node?_insert t hne]
    split
    · rename_i hm
      rw [hm, hn] at hx
      obtain rfl := Option.some.inj hx
      exact ⟨_, rfl, .file old c⟩
    · exact ⟨x, hx, Kept.refl x⟩
  · intro m d hd howned
    rw [node?_insert t hne, if_neg]
    · exact hd
    · rintro rfl
      obtain rfl : old = d := by simpa [hn] using hd
      exact hold howned

end Keeps

theorem write?_cases (h : t.write? p c = some u) : ∃ n, u = t.insert n (.file c) ∧
    ((∃ old, t.locate true p = .found n (.file old)) ∨ t.locate true p = .vacant n) := by
  rw [write?] at h
  split at h
  · exact ⟨_, (Option.some.inj h).symm, .inl ⟨_, ‹_›⟩⟩
  · exact ⟨_, (Option.some.inj h).symm, .inr ‹_›⟩
  · cases h

theorem keeps_writeFile (ht : WellFormed t) (hforce : mode.force = false) (hp : ¬ TurnsBack t p)
    (contents : String) : Keeps t (left (writeFile mode p contents) t) := by
  obtain ⟨ps, habove, hgrown⟩ := grown_makeParent p t
  have hmade := Keeps.of_grown ht hgrown
  obtain hsame | ⟨hs, hmakes | hwrite⟩ := left_writeFile mode p contents t
  · rw [hsame]
    exact Keeps.refl ht
  · rwa [hmakes]
  obtain ⟨n, hu, ⟨old, hfound⟩ | hvacant⟩ := write?_cases hwrite
  · obtain hsame | hno := hgrown.no_file ht habove hp
    · have hn : t.node? n = some (.file old) := by
        have hsound := locate_sound ht true p
        rw [hsame] at hfound
        rwa [hfound] at hsound
      rw [hu, hsame]
      exact Keeps.insert_file ht hn (not_owned_of_settled? hs hforce (hsame ▸ hfound)) _
    · exact absurd hfound (hno n old)
  · rw [hu]
    have hfree := free_of_locate hmade.wellFormed hvacant
    exact hmade.trans (Keeps.insert_free hmade.wellFormed hfree _)

theorem keeps_writeFiles (ht : WellFormed t) (hforce : mode.force = false) (s : Summary)
    (fs : List Module.File) (hback : ∀ f ∈ fs, ¬ TurnsBack t (Path.join root f.path)) :
    Keeps t (left (writeFiles mode root s fs) t) := by
  induction fs generalizing t s with
  | nil => exact Keeps.refl ht
  | cons f fs ih =>
    rw [List.forall_mem_cons] at hback
    have hfirst := keeps_writeFile ht hforce hback.1 f.contents
    obtain hlast | ⟨s', hnext⟩ := left_writeFiles mode root s f fs t
    · rwa [hlast]
    · rw [hnext]
      refine hfirst.trans (ih hfirst.wellFormed s' fun g hg => ?_)
      exact fun hu => hback.2 g hg (hu.of_later hfirst.later)

theorem dryRun_leaves_all (h : mode.dryRun = true) (root : String) (s : Summary)
    (fs : List Module.File) (t : FileTree) : left (writeFiles mode root s fs) t = t := by
  induction fs generalizing t s with
  | nil => rfl
  | cons f fs ih =>
    have hfirst := dryRun_leaves h (Path.join root f.path) f.contents t
    obtain hlast | ⟨s', hnext⟩ := left_writeFiles mode root s f fs t
    · rw [hlast, hfirst]
    · rw [hnext, hfirst, ih]

/-- A batch of writes, whether it succeeds or fails part-way, changes nothing when it is a dry run.
Without force it leaves every file that is no generated text as it is, if none of its paths turns
back. -/
theorem user_files_stay (root : String) (fs : List Module.File) (t : FileTree) :
    (∀ force, left (writeFiles ⟨force, true⟩ root {} fs) t = t) ∧
      (WellFormed t → (∀ f ∈ fs, ¬ TurnsBack t (Path.join root f.path)) → ∀ dryRun n c,
        t.node? n = some (.file c) → Owned c →
          (left (writeFiles ⟨false, dryRun⟩ root {} fs) t).node? n = some (.file c)) := by
  refine ⟨fun force => dryRun_leaves_all rfl root {} fs t, ?_⟩
  intro ht hback dryRun n c hc howned
  have hkeeps : Keeps t (left (writeFiles ⟨false, dryRun⟩ root {} fs) t) :=
    keeps_writeFiles ht rfl {} fs hback
  exact hkeeps.owned n c hc howned

/-- A project whose generated directory is a link to one with a file of the user's. -/
def linked : FileTree :=
  ⟨["work"], [(["work"], .directory), (["work", "gen"], .link "../out"), (["out"], .directory),
    (["out", "A.ts"], .file (.text "// Generated by clientgen\n")),
    (["out", "X.ts"], .file (.text "hand written\n"))]⟩

theorem linked_user_file_stays :
    (left (writeFiles {} "gen" {} [⟨"A.ts", "a\n"⟩, ⟨"X.ts", "x\n"⟩, ⟨"deep/B.ts", "b\n"⟩])
      linked).node? ["out", "X.ts"] = some (.file (.text "hand written\n")) := by
  refine (user_files_stay "gen" _ linked).2 (by decide) ?_ false _ _ (by decide) ?_
  · intro f hf
    refine not_turnsBack ?_ linked
    revert f
    decide +kernel
  · rintro s ⟨⟩
    decide +kernel

/-- A path that turns back behind a directory that is yet to be made leads to a file of the user's,
and the file is written over. -/
theorem user_file_lost :
    WellFormed ⟨[], [(["X.ts"], .file (.text "hand written\n"))]⟩ ∧
      Owned (.text "hand written\n") ∧
      (left (writeFiles {} "new/.." {} [⟨"X.ts", "new\n"⟩])
        ⟨[], [(["X.ts"], .file (.text "hand written\n"))]⟩).node? ["X.ts"] =
          some (.file (.text "new\n")) := by
  refine ⟨by decide, ?_, by decide +kernel⟩
  rintro s ⟨⟩
  decide +kernel

end TypedClient.Proofs.UserFiles
