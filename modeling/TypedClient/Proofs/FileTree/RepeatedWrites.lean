import TypedClient.Proofs.FileTree.UserFiles
import TypedClient.Proofs.Path.Specifier

namespace TypedClient.FileTree

def Outcome.foretold : Outcome → Outcome
  | written => planned
  | o => o

def Outcome.again : Outcome → Outcome
  | skipped => skipped
  | _ => unchanged

def Summary.foretold (s : Summary) : Summary :=
  { unchanged := s.unchanged, skipped := s.skipped, planned := s.written }

end TypedClient.FileTree

namespace TypedClient.Proofs.RepeatedWrites

open TypedClient.FileTree TypedClient.Proofs.Ways TypedClient.Proofs.Directories
  TypedClient.Proofs.UserFiles
open TypedClient.Proofs.Specifier (follow)

variable {t u v : FileTree} {n here goal : Name} {x : Node} {p contents root : String}
  {way : List String} {last force : Bool} {mode : WriteMode} {c : Contents} {o : Outcome}
  {made made' : List Name} {settled : Option Outcome} {s s' : Summary} {fs : List Module.File}

structure Linkless (t : FileTree) : Prop extends WellFormed t where
  no_link : ∀ n target, t.node? n ≠ some (.link target)

theorem linkless_of_entries (ht : WellFormed t)
    (h : ∀ e ∈ t.entries, ∀ target, e.2 ≠ .link target) : Linkless t := by
  refine ⟨ht, fun n target hn => ?_⟩
  cases n with
  | nil => cases hn
  | cons step n =>
    obtain ⟨front, back, hentries, -⟩ := List.lookup_eq_some_iff.mp hn
    exact h (step :: n, .link target) (by simp [hentries]) target rfl

def spot (t : FileTree) (p : String) : Name :=
  (steps p).foldl follow (origin t.cwd p)

/-- A path misses a file when the file stands where the steps of the path lead, but not every
directory on the way is there. -/
def Misses (t : FileTree) (p : String) : Prop :=
  t.exists? p = false ∧ ∃ c, t.node? (spot t p) = some (.file c)

theorem not_mem_steps (p : String) : "" ∉ steps p := by
  intro h
  rw [steps, List.mem_append] at h
  obtain h | h := h
  · simp at h
  · split at h <;> simp at h

/-- A way ends at the name `goal` if it ends in a directory that is there, and it meets no link. -/
def LeadsTo (goal : Name) : Reach → Prop
  | .place (.found n _) => n = goal
  | .place (.vacant n) => n = goal
  | .place _ => True
  | .link _ _ _ => False

theorem reach_leads (ht : Linkless t) (last : Bool) (here : Name) (hway : "" ∉ way) :
    LeadsTo (way.foldl follow here) (t.reach last here way) := by
  induction way generalizing here with
  | nil => exact rfl
  | cons step way ih =>
    rw [List.mem_cons, not_or] at hway
    rw [reach.eq_def, List.foldl_cons]
    dsimp only
    by_cases hdot : step = "."
    · rw [if_pos hdot, follow, if_pos (.inr hdot)]
      exact ih here hway.2
    rw [if_neg hdot, follow, if_neg (by simp [hdot, Ne.symm hway.1])]
    by_cases hup : step = ".."
    · rw [if_pos hup, if_pos hup]
      exact ih here.dropLast hway.2
    rw [if_neg hup, if_neg hup]
    cases hx : t.node? (here ++ [step]) with
    | none =>
      dsimp only
      split
      · trivial
      split
      · rename_i hnil
        subst hnil
        exact rfl
      · trivial
    | some x =>
      cases x with
      | directory => exact ih _ hway.2
      | file c =>
        dsimp only
        split
        · rename_i hnil
          subst hnil
          exact rfl
        · trivial
      | link target => exact absurd hx (ht.no_link _ target)

theorem locate_eq_reach (ht : Linkless t) (hp : isPath p = true) (last : Bool) :
    t.reach last (origin t.cwd p) (steps p) = .place (t.locate last p) := by
  have hleads := reach_leads ht last (origin t.cwd p) (not_mem_steps p)
  rw [locate, if_pos hp]
  cases hr : t.reach last (origin t.cwd p) (steps p) with
  | place l => rw [walk_of_place hr]
  | link d target rest =>
    rw [hr] at hleads
    exact hleads.elim

theorem reach_of_locate (ht : Linkless t) {l : Place} (hp : t.locate last p = l)
    (hmissing : l ≠ .missing) (hblocked : l ≠ .blocked) :
    isPath p = true ∧ t.reach last (origin t.cwd p) (steps p) = .place l := by
  obtain ⟨hpath, -⟩ := walk_of_locate hp hmissing hblocked
  exact ⟨hpath, by rw [locate_eq_reach ht hpath, hp]⟩

theorem eq_spot_of_found (ht : Linkless t) (hp : t.locate last p = .found n x) : n = spot t p := by
  obtain ⟨-, hr⟩ := reach_of_locate ht hp (by simp) (by simp)
  have hleads := reach_leads ht last (origin t.cwd p) (not_mem_steps p)
  rwa [hr] at hleads

theorem eq_spot_of_vacant (ht : Linkless t) (hp : t.locate last p = .vacant n) : n = spot t p := by
  obtain ⟨-, hr⟩ := reach_of_locate ht hp (by simp) (by simp)
  have hleads := reach_leads ht last (origin t.cwd p) (not_mem_steps p)
  rwa [hr] at hleads

theorem directory_above (ht : WellFormed t) {s : List String} (hs : s ≠ [])
    (hn : t.node? (n ++ s) ≠ none) : t.node? n = some .directory := by
  by_contra hdir
  obtain ⟨step, s, rfl⟩ := List.exists_cons_of_ne_nil hs
  rw [List.append_cons] at hn
  refine hn (ht.nothing_below ?_ s)
  by_contra hne
  exact hdir (ht.parents n step hne)

theorem foldl_follow_straight (hway : "" ∉ way) (hup : ".." ∉ way) (here : Name) :
    way.foldl follow here = here ++ way.filter (· ≠ ".") := by
  induction way generalizing here with
  | nil => simp
  | cons step way ih =>
    rw [List.mem_cons, not_or] at hway hup
    rw [List.foldl_cons, ih hway.2 hup.2]
    by_cases hdot : step = "."
    · simp [follow, hdot]
    · simp [follow, hdot, Ne.symm hway.1, Ne.symm hup.1]

theorem reach_dot (way : List String) : t.reach last here ("." :: way) = t.reach last here way := by
  rw [reach, if_pos rfl]

theorem reach_up (way : List String) :
    t.reach last here (".." :: way) = t.reach last here.dropLast way := by
  rw [reach, if_neg (by decide), if_pos rfl]

theorem reach_directory {step : String} (hdot : step ≠ ".") (hup : step ≠ "..")
    (h : t.node? (here ++ [step]) = some .directory) (way : List String) :
    t.reach last here (step :: way) = t.reach last (here ++ [step]) way := by
  rw [reach.eq_def]
  simp only [if_neg hdot, if_neg hup, h]

/-- Where a directory is to be found in front of every `..`, a way finds the file that stands where
it leads. -/
theorem reach_finds (ht : WellFormed t) (hhere : t.node? here = some .directory) (hway : "" ∉ way)
    (hlast : way.getLast? ≠ some ".")
    (hback : ∀ front back, way = front ++ back → ".." ∈ back →
      ∃ n, t.reach true here front = .place (.found n .directory))
    (hfile : t.node? (way.foldl follow here) = some (.file c)) :
    t.reach true here way = .place (.found (way.foldl follow here) (.file c)) := by
  induction way generalizing here with
  | nil =>
    rw [List.foldl_nil, hhere] at hfile
    cases hfile
  | cons step way ih =>
    rw [List.mem_cons, not_or] at hway
    have hlast' : way.getLast? ≠ some "." := by
      cases way with
      | nil => simp
      | cons => simpa using hlast
    have hrest : ∀ next, (∀ front, t.reach true here (step :: front) = t.reach true next front) →
        ∀ front back, way = front ++ back → ".." ∈ back →
          ∃ n, t.reach true next front = .place (.found n .directory) := by
      intro next hnext front back hsplit hup
      obtain ⟨n, hn⟩ := hback (step :: front) back (by rw [hsplit]; rfl) hup
      exact ⟨n, by rw [← hnext, hn]⟩
    rw [List.foldl_cons] at hfile ⊢
    by_cases hdot : step = "."
    · subst hdot
      rw [follow, if_pos (.inr rfl)] at hfile ⊢
      rw [reach_dot]
      exact ih hhere hway.2 hlast' (hrest here reach_dot) hfile
    rw [follow, if_neg (by simp [hdot, Ne.symm hway.1])] at hfile ⊢
    by_cases hup : step = ".."
    · subst hup
      rw [if_pos rfl] at hfile ⊢
      rw [reach_up]
      exact ih (ht.dropLast hhere) hway.2 hlast' (hrest _ reach_up) hfile
    rw [if_neg hup] at hfile ⊢
    by_cases hdir : t.node? (here ++ [step]) = some .directory
    · have hnext : ∀ front, t.reach true here (step :: front) =
          t.reach true (here ++ [step]) front := reach_directory hdot hup hdir
      rw [hnext]
      exact ih hdir hway.2 hlast' (hrest _ hnext) hfile
    · -- no directory stands here, so the way does not turn back and ends here
      have hstraight : ".." ∉ way := by
        intro hmem
        obtain ⟨n, hn⟩ := hback [step] way rfl hmem
        rw [reach.eq_def] at hn
        simp only [if_neg hdot, if_neg hup] at hn
        grind [reach]
      rw [foldl_follow_straight hway.2 hstraight] at hfile ⊢
      have hend : way.filter (· ≠ ".") = [] := by
        by_contra hne
        refine hdir (directory_above ht hne ?_)
        rw [hfile]
        exact Option.some_ne_none _
      have hnil : way = [] := by
        by_contra hne
        have hall := List.filter_eq_nil_iff.mp hend _ (List.getLast_mem hne)
        rw [List.getLast?_eq_getLast_of_ne_nil hne] at hlast'
        simp at hall
        exact hlast' (congrArg some hall)
      subst hnil
      rw [List.filter_nil, List.append_nil] at hfile ⊢
      rw [reach.eq_def]
      simp only [if_neg hdot, if_neg hup, hfile, if_true]

/-- A way to a name where no directory stands leads to the file that is put there. -/
theorem reach_insert (hn : n ≠ []) (hdir : t.node? n ≠ some .directory)
    (hr : t.reach last here way = .place (.vacant n) ∨
      ∃ old, t.reach last here way = .place (.found n (.file old))) :
    (t.insert n (.file c)).reach last here way = .place (.found n (.file c)) := by
  induction way generalizing here with
  | nil =>
    obtain hr | ⟨old, hr⟩ := hr <;> cases hr
  | cons step way ih =>
    rw [reach.eq_def] at hr ⊢
    dsimp only at hr ⊢
    by_cases hdot : step = "."
    · simp only [if_pos hdot] at hr ⊢
      exact ih hr
    simp only [if_neg hdot] at hr ⊢
    by_cases hup : step = ".."
    · simp only [if_pos hup] at hr ⊢
      exact ih hr
    simp only [if_neg hup, node?_insert t hn] at hr ⊢
    cases hx : t.node? (here ++ [step]) with
    | none =>
      simp only [hx] at hr
      grind
    | some x =>
      cases x with
      | directory =>
        rw [if_neg (by rintro rfl; exact hdir hx)]
        simp only [hx] at hr ⊢
        exact ih hr
      | file old =>
        simp only [hx] at hr
        grind
      | link target =>
        simp only [hx] at hr
        grind

/-- Writing puts the file at the spot of the path, and from then on the path leads to it. -/
theorem write?_spot (ht : Linkless t) (h : t.write? p c = some u) :
    u = t.insert (spot t p) (.file c) ∧ spot t p ≠ [] ∧
      (Free t (spot t p) ∨ ∃ old, t.node? (spot t p) = some (.file old)) ∧
      u.locate true p = .found (spot t p) (.file c) := by
  obtain ⟨n, rfl, hn⟩ := write?_cases h
  have hsound := locate_sound ht.toWellFormed true p
  have hspot : n = spot t p := by
    obtain ⟨old, hn⟩ | hn := hn
    · exact eq_spot_of_found ht hn
    · exact eq_spot_of_vacant ht hn
  have hnode : Free t n ∨ ∃ old, t.node? n = some (.file old) := by
    obtain ⟨old, hn⟩ | hn := hn <;> rw [hn] at hsound
    · exact .inr ⟨old, hsound⟩
    · exact .inl hsound
  have hne : n ≠ [] := by
    rintro rfl
    obtain hfree | ⟨old, hold⟩ := hnode
    · exact free_ne_nil hfree rfl
    · cases hold
  have hdir : t.node? n ≠ some .directory := by
    obtain hfree | ⟨old, hold⟩ := hnode
    · rw [hfree.1]
      nofun
    · rw [hold]
      nofun
  have hpath : isPath p = true := by
    obtain ⟨old, hn⟩ | hn := hn <;> exact (reach_of_locate ht hn (by simp) (by simp)).1
  have hway := locate_eq_reach ht hpath true
  have hreach : (t.insert n (.file c)).reach true (origin t.cwd p) (steps p) =
      .place (.found n (.file c)) := by
    refine reach_insert hne hdir ?_
    obtain ⟨old, hn⟩ | hn := hn <;> rw [hn] at hway
    · exact .inr ⟨old, hway⟩
    · exact .inl hway
  rw [← hspot]
  refine ⟨rfl, hne, hnode, ?_⟩
  rw [locate, if_pos hpath]
  exact walk_of_place hreach

/-- A tree that has come of another one by new directories and by files at the names `made`. -/
structure Changed (made : List Name) (t u : FileTree) : Prop where
  later : Later t u
  linkless : Linkless u
  node : ∀ n ∉ made, u.node? n = t.node? n ∨ (t.node? n = none ∧ u.node? n = some .directory)

namespace Changed

theorem refl (ht : Linkless t) (made : List Name) : Changed made t t :=
  ⟨Later.refl t, ht, fun _ _ => .inl rfl⟩

theorem trans (h : Changed made t u) (h' : Changed made' u v) : Changed (made ++ made') t v := by
  refine ⟨h.later.trans h'.later, h'.linkless, fun n hn => ?_⟩
  rw [List.mem_append, not_or] at hn
  have hfirst := h.node n hn.1
  have hsecond := h'.node n hn.2
  grind

theorem of_grown {ps : List String} (ht : Linkless t) (h : Grown ps t u) : Changed [] t u := by
  have hextended := h.extended ht.toWellFormed
  refine ⟨hextended.later, ⟨h.wellFormed ht.toWellFormed, fun n target hn => ?_⟩,
    fun n _ => hextended.node n⟩
  obtain hsame | ⟨-, hdir⟩ := hextended.node n
  · exact ht.no_link n target (hsame ▸ hn)
  · rw [hdir] at hn
    cases hn

theorem of_write? (ht : Linkless t) (h : t.write? p c = some u) : Changed [spot t p] t u := by
  obtain ⟨rfl, hne, hnode, -⟩ := write?_spot ht h
  have hinsert := node?_insert t hne
  refine ⟨⟨rfl, fun n x hx => ?_⟩, ⟨?_, fun n target hn => ?_⟩, fun n hn => .inl ?_⟩
  · rw [hinsert]
    by_cases hn : n = spot t p
    · rw [if_pos hn]
      subst hn
      obtain hfree | ⟨old, hold⟩ := hnode
      · rw [hfree.1] at hx
        cases hx
      · obtain rfl := Option.some.inj (hold.symm.trans hx)
        exact ⟨_, rfl, .file old c⟩
    · rw [if_neg hn]
      exact ⟨x, hx, Kept.refl x⟩
  · obtain hfree | ⟨old, hold⟩ := hnode
    · exact wellFormed_insert_free ht.toWellFormed hfree _
    · have hparent := ht.parents (spot t p).dropLast ((spot t p).getLast hne)
      rw [List.dropLast_append_getLast, hold] at hparent
      exact wellFormed_insert ht.toWellFormed hne (hparent (Option.some_ne_none _))
        (by rw [hold]; nofun) _
  · rw [hinsert] at hn
    split at hn
    · cases hn
    · exact ht.no_link n target hn
  · rw [hinsert, if_neg (by simpa using hn)]

theorem spot_eq (h : Changed made t u) (p : String) : spot u p = spot t p := by
  rw [spot, spot, h.later.cwd]

theorem locate_eq (ht : Linkless t) (h : Changed made t u) (hp : spot t p ∉ made)
    (hfound : t.locate true p = .found n x) : u.locate true p = .found n x := by
  obtain ⟨hpath, hwalk⟩ := walk_of_locate hfound (by simp) (by simp)
  obtain ⟨y, hy, -⟩ := walk_again h.later hwalk
  rw [← h.later.cwd] at hy
  have hu : u.locate true p = .found n y := by rw [locate, if_pos hpath, hy]
  have hx : t.node? n = some x := by
    have hsound := locate_sound ht.toWellFormed true p
    rwa [hfound] at hsound
  have hnode : u.node? n = some y := by
    have hsound := locate_sound h.linkless.toWellFormed true p
    rwa [hu] at hsound
  obtain hsame | ⟨hnone, -⟩ := h.node n (eq_spot_of_found ht hfound ▸ hp)
  · rw [hu, Option.some.inj (hnode.symm.trans (hsame.trans hx))]
  · rw [hx] at hnone
    cases hnone

end Changed

theorem exists_of_exists? (h : t.exists? p = true) : ∃ n x, t.locate true p = .found n x := by
  rw [exists?] at h
  split at h
  · exact ⟨_, _, ‹_›⟩
  · cases h

/-- A path that does not turn back misses no file, unless it asks for a directory. -/
theorem not_misses (ht : Linkless t) (hpath : isPath p = true)
    (hlast : (steps p).getLast? ≠ some ".") (hback : ¬ TurnsBack t p) : ¬ Misses t p := by
  rintro ⟨hgone, c, hfile⟩
  have hreach := reach_finds ht.toWellFormed (origin_directory ht.cwd p) (not_mem_steps p) hlast
    (fun front back hsplit hup => ?_) hfile
  · rw [exists?, locate, if_pos hpath, walk_of_place hreach] at hgone
    cases hgone
  · by_contra hno
    refine hback ⟨front, back, hsplit, hup, fun n hn => hno ⟨n, ?_⟩⟩
    have hfront : "" ∉ front := fun hmem =>
      not_mem_steps p (hsplit ▸ List.mem_append_left back hmem)
    have hleads := reach_leads ht true (origin t.cwd p) hfront
    cases hr : t.reach true (origin t.cwd p) front with
    | place l => rw [← hn, walk_of_place hr]
    | link d target rest =>
      rw [hr] at hleads
      exact hleads.elim

theorem settled?_congr (h : u.locate true p = t.locate true p) (mode : WriteMode)
    (contents : String) : settled? u mode p contents = settled? t mode p contents := by
  rw [settled?, settled?, exists?, exists?, readText?, readText?, h]

theorem settled?_of_not_exists (h : t.exists? p = false) (mode : WriteMode) (contents : String) :
    settled? t mode p contents = .ok none := by
  rw [settled?, h, if_neg Bool.false_ne_true]

theorem exists_file_of_settled? (hp : t.locate true p = .found n x)
    (hs : settled? t mode p contents = .ok settled) : ∃ c, x = .file c := by
  have hexists : t.exists? p = true := by rw [exists?, hp]
  rw [settled?, if_pos hexists, readText?, hp] at hs
  cases x with
  | file c => exact ⟨c, rfl⟩
  | directory => cases hs
  | link target => cases hs

theorem settled?_of_same (hp : t.locate true p = .found n (.file (.text contents)))
    (mode : WriteMode) : settled? t mode p contents = .ok (some .unchanged) := by
  have hexists : t.exists? p = true := by rw [exists?, hp]
  have hread : t.readText? p = some contents := by rw [readText?, hp]; rfl
  rw [settled?, if_pos hexists, hread]
  simp

/-- What is settled for a file in a later tree was settled before, if nothing was written to it and
its path misses none. -/
theorem Changed.settled?_eq (ht : Linkless t) (h : Changed made t u) (hp : spot t p ∉ made)
    (hmiss : ¬ Misses t p) (hs : settled? u mode p contents = .ok settled) :
    settled? t mode p contents = .ok settled := by
  by_cases hexists : t.exists? p = true
  · obtain ⟨n, x, hfound⟩ := exists_of_exists? hexists
    rw [← hs, settled?_congr]
    rw [h.locate_eq ht hp hfound, hfound]
  · have hgone : t.exists? p = false := by simpa using hexists
    rw [settled?_of_not_exists hgone]
    by_cases hu : u.exists? p = true
    · -- a file has come to where the path leads, and it was not written there
      obtain ⟨n, x, hfound⟩ := exists_of_exists? hu
      obtain ⟨c, rfl⟩ := exists_file_of_settled? hfound hs
      have hnode : u.node? (spot t p) = some (.file c) := by
        have hsound := locate_sound h.linkless.toWellFormed true p
        rwa [hfound, eq_spot_of_found h.linkless hfound, h.spot_eq] at hsound
      obtain hsame | ⟨-, hdir⟩ := h.node _ hp
      · exact absurd ⟨hgone, c, hsame ▸ hnode⟩ hmiss
      · rw [hnode] at hdir
        cases hdir
    · rw [← hs, settled?_of_not_exists (by simpa using hu)]

theorem writeFile_cases (ht : Linkless t)
    (h : (writeFile ⟨force, false⟩ p contents).run.run t = (.ok o, u)) :
    settled? t ⟨force, false⟩ p contents = .ok (some o) ∧ u = t ∨
      settled? t ⟨force, false⟩ p contents = .ok none ∧ o = .written ∧
        Changed [spot t p] t u ∧ u.locate true p = .found (spot t p) (.file (.text contents)) := by
  rw [run_writeFile] at h
  cases hs : settled? t ⟨force, false⟩ p contents with
  | error e =>
    rw [hs] at h
    cases h
  | ok settled =>
    rw [hs] at h
    cases settled with
    | some o' =>
      cases h
      exact .inl ⟨rfl, rfl⟩
    | none =>
      right
      obtain ⟨ps, -, hgrown⟩ := grown_makeParent p t
      have hmade := Changed.of_grown ht hgrown
      rw [left] at hmade
      dsimp only at h
      rw [if_neg Bool.false_ne_true] at h
      rcases hrun : (makeParent p).run.run t with ⟨_ | _, w⟩
      · rw [hrun] at h
        cases h
      rw [hrun] at h hmade
      dsimp only at h
      cases hw : w.write? p (.text contents) with
      | none =>
        rw [hw] at h
        cases h
      | some v =>
        rw [hw] at h
        cases h
        have hspot := hmade.spot_eq p
        have hwritten := Changed.of_write? hmade.linkless hw
        obtain ⟨-, -, -, hfound⟩ := write?_spot hmade.linkless hw
        rw [hspot] at hwritten hfound
        exact ⟨rfl, rfl, hmade.trans hwritten, hfound⟩

theorem settled?_cases (hs : settled? t mode p contents = .ok (some o)) :
    o = .unchanged ∨ o = .skipped := by
  rw [settled?] at hs
  repeat' split at hs
  all_goals cases hs
  · exact .inl rfl
  · exact .inr rfl

theorem run_eq_left {α : Type} {w : Writing α} {r : Except WriteFault α}
    (h : (w.run.run t).1 = r) : w.run.run t = (r, left w t) :=
  Prod.ext h rfl

theorem run_writeFile_of_settled? (hs : settled? t mode p contents = .ok (some o)) :
    (writeFile mode p contents).run.run t = (.ok o, t) := by
  rw [run_writeFile, hs]

/-- The dry run of one write that succeeds, in the tree as it was before other writes. -/
theorem run_dry (ht : Linkless t) (h : Changed made t u) (hp : spot t p ∉ made)
    (hmiss : ¬ Misses t p) (hrun : (writeFile ⟨force, false⟩ p contents).run.run u = (.ok o, v)) :
    (writeFile ⟨force, true⟩ p contents).run.run t = (.ok o.foretold, t) := by
  obtain ⟨hs, -⟩ | ⟨hs, rfl, -⟩ := writeFile_cases h.linkless hrun
  · have hdry : settled? t ⟨force, true⟩ p contents = .ok (some o) := h.settled?_eq ht hp hmiss hs
    rw [run_writeFile_of_settled? hdry]
    obtain rfl | rfl := settled?_cases hs <;> rfl
  · have hdry : settled? t ⟨force, true⟩ p contents = .ok none := h.settled?_eq ht hp hmiss hs
    rw [run_writeFile, hdry]
    rfl

/-- One write that succeeds is settled from then on, whatever else is written elsewhere. -/
theorem run_again (ht : Linkless t)
    (hrun : (writeFile ⟨force, false⟩ p contents).run.run t = (.ok o, u)) (h : Changed made u v)
    (hp : spot t p ∉ made) :
    (writeFile ⟨force, false⟩ p contents).run.run v = (.ok o.again, v) := by
  apply run_writeFile_of_settled?
  obtain ⟨hs, rfl⟩ | ⟨-, rfl, hwritten, hfound⟩ := writeFile_cases ht hrun
  · have hexists : u.exists? p = true := by
      by_contra hgone
      rw [settled?_of_not_exists (by simpa using hgone)] at hs
      cases hs
    obtain ⟨n, x, hfound⟩ := exists_of_exists? hexists
    rw [settled?_congr (h.locate_eq ht hp hfound |>.trans hfound.symm), hs]
    obtain rfl | rfl := settled?_cases hs <;> rfl
  · exact settled?_of_same (h.locate_eq hwritten.linkless (hwritten.spot_eq p ▸ hp) hfound) _

def paths (root : String) (fs : List Module.File) : List String :=
  fs.map fun f => Path.join root f.path

def spots (t : FileTree) (root : String) (fs : List Module.File) : List Name :=
  (paths root fs).map (spot t)

theorem Changed.spots_eq (h : Changed made t u) (root : String) (fs : List Module.File) :
    spots u root fs = spots t root fs :=
  List.map_congr_left fun p _ => h.spot_eq p

/-- A batch that succeeds is a write that succeeds and a batch that succeeds after it. -/
theorem writeFiles_cons {f : Module.File}
    (h : (writeFiles mode root s (f :: fs)).run.run t = (.ok s', v)) :
    ∃ o u, (writeFile mode (Path.join root f.path) f.contents).run.run t = (.ok o, u) ∧
      (writeFiles mode root (s.add (Path.join root f.path) o) fs).run.run u = (.ok s', v) := by
  simp only [writeFiles, run_bind] at h
  rcases hrun : (writeFile mode (Path.join root f.path) f.contents).run.run t with ⟨_ | o, u⟩
  · rw [hrun] at h
    cases h
  · rw [hrun] at h
    exact ⟨o, u, rfl, h⟩

theorem run_writeFiles_cons {f : Module.File}
    (h : (writeFile mode (Path.join root f.path) f.contents).run.run t = (.ok o, u)) :
    (writeFiles mode root s (f :: fs)).run.run t =
      (writeFiles mode root (s.add (Path.join root f.path) o) fs).run.run u := by
  simp only [writeFiles, run_bind, h]

theorem writeFile_changed (ht : Linkless t)
    (h : (writeFile ⟨force, false⟩ p contents).run.run t = (.ok o, u)) :
    Changed [spot t p] t u := by
  obtain ⟨-, rfl⟩ | ⟨-, -, hchanged, -⟩ := writeFile_cases ht h
  · exact Changed.refl ht _
  · exact hchanged

theorem writeFiles_changed (ht : Linkless t)
    (h : (writeFiles ⟨force, false⟩ root s fs).run.run t = (.ok s', u)) :
    Changed (spots t root fs) t u := by
  induction fs generalizing t s with
  | nil =>
    cases h
    exact Changed.refl ht _
  | cons f fs ih =>
    obtain ⟨o, v, hfirst, hrest⟩ := writeFiles_cons h
    have hchanged := writeFile_changed ht hfirst
    have hlater := ih hchanged.linkless hrest
    rw [hchanged.spots_eq] at hlater
    exact hchanged.trans hlater

theorem foretold_add (s : Summary) (p : String) (h : o ≠ .planned) :
    (s.add p o).foretold = s.foretold.add p o.foretold := by
  cases o with
  | planned => exact absurd rfl h
  | _ => rfl

theorem run_dry_all (ht : Linkless t) (h : Changed made t u)
    (hspots : (made ++ spots t root fs).Nodup) (hmiss : ∀ p ∈ paths root fs, ¬ Misses t p)
    (hrun : (writeFiles ⟨force, false⟩ root s fs).run.run u = (.ok s', v)) :
    (writeFiles ⟨force, true⟩ root s.foretold fs).run.run t = (.ok s'.foretold, t) := by
  induction fs generalizing u s made with
  | nil =>
    cases hrun
    rfl
  | cons f fs ih =>
    obtain ⟨o, w, hfirst, hrest⟩ := writeFiles_cons hrun
    obtain ⟨hmissed, hmiss⟩ := List.forall_mem_cons.mp hmiss
    have hp : spot t (Path.join root f.path) ∉ made := by
      intro hmem
      exact (List.nodup_append.mp hspots).2.2 _ hmem _ List.mem_cons_self rfl
    have hchanged := h.trans (writeFile_changed h.linkless hfirst)
    rw [h.spot_eq] at hchanged
    have hspots : (made ++ [spot t (Path.join root f.path)] ++ spots t root fs).Nodup := by
      rw [List.append_assoc]
      exact hspots
    have hplanned : o ≠ .planned := by
      obtain ⟨hs, -⟩ | ⟨-, rfl, -⟩ := writeFile_cases h.linkless hfirst
      · obtain rfl | rfl := settled?_cases hs <;> nofun
      · nofun
    rw [run_writeFiles_cons (run_dry ht h hp hmissed hfirst), ← foretold_add _ _ hplanned]
    exact ih hchanged hspots hmiss hrest

/-- The second run of a batch: what it says of each file, added to any summary. -/
theorem run_again_all (ht : Linkless t) (hspots : (spots t root fs).Nodup)
    (hrun : (writeFiles ⟨force, false⟩ root s fs).run.run t = (.ok s', u)) :
    ∃ kept ⊆ paths root fs, s'.skipped = s.skipped ++ kept ∧ ∀ a : Summary,
      (writeFiles ⟨force, false⟩ root a fs).run.run u =
        (.ok { a with
          unchanged := a.unchanged ++ (paths root fs).filter (· ∉ kept)
          skipped := a.skipped ++ kept }, u) := by
  induction fs generalizing t s with
  | nil =>
    cases hrun
    refine ⟨[], List.nil_subset _, by simp, fun a => ?_⟩
    rw [writeFiles, run_pure]
    simp [paths]
  | cons f fs ih =>
    obtain ⟨o, v, hfirst, hrest⟩ := writeFiles_cons hrun
    have hchanged := writeFile_changed ht hfirst
    obtain ⟨hp, hnodup⟩ := List.nodup_cons.mp hspots
    have hlater := writeFiles_changed hchanged.linkless hrest
    rw [hchanged.spots_eq] at hlater
    have hagain := run_again ht hfirst hlater hp
    have hnew : Path.join root f.path ∉ paths root fs := fun hmem =>
      hp (List.mem_map_of_mem hmem)
    obtain ⟨kept, hsub, hskipped, hnext⟩ := ih hchanged.linkless
      (by rwa [hchanged.spots_eq]) hrest
    have hkept : Path.join root f.path ∉ kept := fun hmem => hnew (hsub hmem)
    have hpaths : paths root (f :: fs) = Path.join root f.path :: paths root fs := rfl
    rw [hpaths]
    by_cases ho : o = .skipped
    · subst ho
      refine ⟨Path.join root f.path :: kept, List.cons_subset_cons _ hsub, ?_, fun a => ?_⟩
      · simp [hskipped, Summary.add]
      · have hfilter : (Path.join root f.path :: paths root fs).filter
            (· ∉ Path.join root f.path :: kept) = (paths root fs).filter (· ∉ kept) := by
          rw [List.filter_cons_of_neg (by simp)]
          refine List.filter_congr fun q hq => ?_
          have hne : q ≠ Path.join root f.path := by
            rintro rfl
            exact hnew hq
          simp [hne]
        rw [run_writeFiles_cons hagain, hnext, hfilter]
        simp [Outcome.again, Summary.add]
    · refine ⟨kept, List.Subset.trans hsub (List.subset_cons_self _ _), ?_, fun a => ?_⟩
      · rw [hskipped]
        cases o <;> first | rfl | exact absurd rfl ho
      · have hfilter : (Path.join root f.path :: paths root fs).filter (· ∉ kept) =
            Path.join root f.path :: (paths root fs).filter (· ∉ kept) :=
          List.filter_cons_of_pos (by simpa using hkept)
        have hunchanged : o.again = .unchanged := by
          cases o <;> first | rfl | exact absurd rfl ho
        rw [run_writeFiles_cons hagain, hnext, hfilter, hunchanged]
        simp [Summary.add]

/-- A batch that succeeds, with paths that lead to different names. Its dry run plans what it wrote
and says the same of every other file, if no path misses a file. Its second run writes nothing,
skips what was skipped and finds every other file unchanged. -/
theorem dry_run_and_rerun (force : Bool) (root : String) (fs : List Module.File) (t u : FileTree)
    (s : Summary) (ht : Linkless t) (hspots : (spots t root fs).Nodup)
    (hrun : (writeFiles ⟨force, false⟩ root {} fs).run.run t = (.ok s, u)) :
    ((∀ p ∈ paths root fs, ¬ Misses t p) →
        (writeFiles ⟨force, true⟩ root {} fs).run.run t =
          (.ok { planned := s.written, unchanged := s.unchanged, skipped := s.skipped }, t)) ∧
      (writeFiles ⟨force, false⟩ root {} fs).run.run u =
        (.ok { unchanged := (paths root fs).filter (· ∉ s.skipped), skipped := s.skipped }, u) := by
  constructor
  · intro hmiss
    exact run_dry_all ht (Changed.refl ht []) hspots hmiss hrun
  · obtain ⟨kept, -, hskipped, hagain⟩ := run_again_all ht hspots hrun
    obtain rfl : s.skipped = kept := by simpa using hskipped
    simpa using hagain {}

/-- A project with a file of the user's, a generated one and one that is as it will be. -/
def project : FileTree :=
  ⟨["work"], [(["work"], .directory), (["work", "gen"], .directory),
    (["work", "gen", "Mine.ts"], .file (.text "hand written\n")),
    (["work", "gen", "Old.ts"], .file (.text "// Generated by clientgen\n")),
    (["work", "gen", "Same.ts"], .file (.text "same\n"))]⟩

def batch : List Module.File :=
  [⟨"deep/New.ts", "new\n"⟩, ⟨"Same.ts", "same\n"⟩, ⟨"Mine.ts", "mine\n"⟩, ⟨"Old.ts", "old\n"⟩]

theorem dry_run_and_rerun_mixed :
    (writeFiles ⟨false, true⟩ "gen" {} batch).run.run project =
        (.ok ⟨[], ["gen/Same.ts"], ["gen/Mine.ts"], ["gen/deep/New.ts", "gen/Old.ts"]⟩, project) ∧
      ((writeFiles ⟨false, false⟩ "gen" {} batch).run.run
          (left (writeFiles ⟨false, false⟩ "gen" {} batch) project)).1 =
        .ok ⟨[], ["gen/deep/New.ts", "gen/Same.ts", "gen/Old.ts"], ["gen/Mine.ts"], []⟩ := by
  have hlinkless : Linkless project := by
    refine linkless_of_entries (by decide) fun e he target => ?_
    revert e
    simp [project]
  have hmiss : ∀ p ∈ paths "gen" batch, ¬ Misses project p := by
    have hfound : ∀ p ∈ paths "gen" batch,
        project.exists? p = true ∨ project.node? (spot project p) = none := by decide +kernel
    rintro p hp ⟨hgone, c, hfile⟩
    obtain h | h := hfound p hp
    · rw [hgone] at h
      cases h
    · rw [hfile] at h
      cases h
  have h := dry_run_and_rerun false "gen" batch project
    (left (writeFiles ⟨false, false⟩ "gen" {} batch) project)
    ⟨["gen/deep/New.ts", "gen/Old.ts"], ["gen/Same.ts"], ["gen/Mine.ts"], []⟩ hlinkless
    (by decide +kernel) (run_eq_left (by decide +kernel))
  refine ⟨h.1 hmiss, ?_⟩
  rw [h.2]
  decide +kernel

/-- A path that turns back behind a directory that is yet to be made misses a file of the user's.
The dry run plans to write it; the real run finds it and leaves it. -/
theorem plan_over_user_file :
    let t : FileTree :=
      ⟨[], [(["gen"], .directory), (["gen", "b.ts"], .file (.text "hand written\n"))]⟩
    let fs : List Module.File := [⟨"a.ts", "a\n"⟩, ⟨"b.ts", "b\n"⟩]
    Linkless t ∧ (spots t "out/../gen" fs).Nodup ∧
      ((writeFiles ⟨false, false⟩ "out/../gen" {} fs).run.run t).1 =
        .ok { written := ["out/../gen/a.ts"], skipped := ["out/../gen/b.ts"] } ∧
      ((writeFiles ⟨false, true⟩ "out/../gen" {} fs).run.run t).1 =
        .ok { planned := ["out/../gen/a.ts", "out/../gen/b.ts"] } := by
  refine ⟨linkless_of_entries (by decide) fun e he target => ?_, by decide +kernel,
    by decide +kernel, by decide +kernel⟩
  revert e
  simp

end TypedClient.Proofs.RepeatedWrites
