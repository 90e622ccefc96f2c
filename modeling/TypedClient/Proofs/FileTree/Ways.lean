import Mathlib.Data.List.Induction
import TypedClient.FileTree.Access

namespace TypedClient.Proofs.Ways

open TypedClient.FileTree

variable {t u v : FileTree} {follow : Bool} {here n d : Name} {way rest : List String} {links : Nat}
  {x y z : Node} {step target : String}

/-- Every directory but the root stands in a directory, and so does the working directory. -/
structure WellFormed (t : FileTree) : Prop where
  cwd : t.node? t.cwd = some .directory
  parents : ∀ n step, t.node? (n ++ [step]) ≠ none → t.node? n = some .directory

theorem node?_ne_none_iff : t.node? (n ++ [step]) ≠ none ↔ ∃ e ∈ t.entries, e.1 = n ++ [step] := by
  have hnode : t.node? (n ++ [step]) = t.entries.lookup (n ++ [step]) := by cases n <;> rfl
  rw [hnode, Option.ne_none_iff_isSome, List.lookup_isSome_iff]
  simp only [beq_iff_eq, eq_comm (a := n ++ [step])]

theorem wellFormed_iff : WellFormed t ↔ t.node? t.cwd = some .directory ∧
    ∀ e ∈ t.entries, t.node? e.1.dropLast = some .directory := by
  constructor
  · rintro ⟨hcwd, hparents⟩
    refine ⟨hcwd, fun e he => ?_⟩
    obtain hnil | ⟨n, step, hn⟩ := List.eq_nil_or_concat e.1
    · rw [hnil]
      rfl
    · rw [List.concat_eq_append] at hn
      rw [hn, List.dropLast_concat]
      exact hparents n step (node?_ne_none_iff.mpr ⟨e, he, hn⟩)
  · rintro ⟨hcwd, hentries⟩
    refine ⟨hcwd, fun n step hn => ?_⟩
    obtain ⟨e, he, hname⟩ := node?_ne_none_iff.mp hn
    have hparent := hentries e he
    rwa [hname, List.dropLast_concat] at hparent

instance (t : FileTree) : Decidable (WellFormed t) :=
  decidable_of_iff _ wellFormed_iff.symm

inductive Kept : Node → Node → Prop
  | file (c c' : Contents) : Kept (.file c) (.file c')
  | directory : Kept .directory .directory
  | link (target : String) : Kept (.link target) (.link target)

theorem Kept.refl (x : Node) : Kept x x := by
  cases x <;> constructor

theorem Kept.trans (h : Kept x y) (h' : Kept y z) : Kept x z := by
  cases h <;> cases h' <;> constructor

structure Later (t u : FileTree) : Prop where
  cwd : u.cwd = t.cwd
  kept : ∀ n x, t.node? n = some x → ∃ y, u.node? n = some y ∧ Kept x y

structure Extended (t u : FileTree) : Prop where
  cwd : u.cwd = t.cwd
  node : ∀ n, u.node? n = t.node? n ∨ (t.node? n = none ∧ u.node? n = some .directory)

namespace Later

theorem refl (t : FileTree) : Later t t :=
  ⟨rfl, fun _ x h => ⟨x, h, Kept.refl x⟩⟩

theorem trans (h : Later t u) (h' : Later u v) : Later t v := by
  refine ⟨h'.cwd.trans h.cwd, fun n x hx => ?_⟩
  obtain ⟨y, hy, hxy⟩ := h.kept n x hx
  obtain ⟨z, hz, hyz⟩ := h'.kept n y hy
  exact ⟨z, hz, hxy.trans hyz⟩

theorem directory (h : Later t u) (hn : t.node? n = some .directory) :
    u.node? n = some .directory := by
  obtain ⟨y, hy, hk⟩ := h.kept n _ hn
  cases hk
  exact hy

end Later

namespace Extended

theorem refl (t : FileTree) : Extended t t :=
  ⟨rfl, fun _ => .inl rfl⟩

theorem trans (h : Extended t u) (h' : Extended u v) : Extended t v := by
  refine ⟨h'.cwd.trans h.cwd, fun n => ?_⟩
  have hn := h.node n
  have hn' := h'.node n
  grind

theorem kept (h : Extended t u) (hx : t.node? n = some x) : u.node? n = some x := by
  obtain hn | ⟨hn, -⟩ := h.node n
  · exact hn.trans hx
  · rw [hn] at hx
    cases hx

theorem later (h : Extended t u) : Later t u :=
  ⟨h.cwd, fun _ x hx => ⟨x, h.kept hx, Kept.refl x⟩⟩

end Extended

/-- Where a way ends, and where it ends in a later tree: what was found is found again, and a link
is met again. -/
inductive Again : Reach → Reach → Prop
  | found {x y : Node} (n : Name) (h : Kept x y) :
      Again (.place (.found n x)) (.place (.found n y))
  | link (d : Name) (target : String) (rest : List String) :
      Again (.link d target rest) (.link d target rest)
  | lost {p : Place} (h : ∀ n x, p ≠ .found n x) (r : Reach) : Again (.place p) r

theorem reach_again (h : Later t u) (follow : Bool) (here : Name) (way : List String) :
    Again (t.reach follow here way) (u.reach follow here way) := by
  induction way generalizing here with
  | nil => exact .found here .directory
  | cons step way ih =>
    rw [reach.eq_def, reach.eq_def]
    dsimp only
    split
    · exact ih here
    split
    · exact ih here.dropLast
    cases hx : t.node? (here ++ [step]) with
    | none =>
      refine .lost (fun n x => ?_) _
      split
      · exact nofun
      split <;> exact nofun
    | some x =>
      obtain ⟨y, hy, hk⟩ := h.kept _ _ hx
      rw [hy]
      cases hk with
      | directory => exact ih _
      | file c c' =>
        dsimp only
        split
        · exact .found _ (.file c c')
        · exact .lost (fun _ _ h => by cases h) _
      | link target =>
        dsimp only
        split
        · exact .found _ (.link target)
        · exact .link _ _ _

theorem reach_found_again (h : Later t u) (hr : t.reach follow here way = .place (.found n x)) :
    ∃ y, u.reach follow here way = .place (.found n y) ∧ Kept x y := by
  have hagain := reach_again h follow here way
  rw [hr] at hagain
  generalize u.reach follow here way = r at hagain
  cases hagain with
  | found _ hk => exact ⟨_, rfl, hk⟩
  | lost hl => exact absurd rfl (hl n x)

theorem reach_link_again (h : Later t u) (hr : t.reach follow here way = .link d target rest) :
    u.reach follow here way = .link d target rest := by
  have hagain := reach_again h follow here way
  rw [hr] at hagain
  generalize u.reach follow here way = r at hagain
  cases hagain
  rfl

theorem walk_of_place {p : Place} (hr : t.reach follow here way = .place p) :
    t.walk follow links here way = p := by
  cases links <;> rw [walk, hr]

theorem walk_zero_of_link (hr : t.reach follow here way = .link d target rest) :
    t.walk follow 0 here way = .blocked := by
  rw [walk, hr]

theorem walk_succ_of_link (hr : t.reach follow here way = .link d target rest) :
    t.walk follow (links + 1) here way =
      t.walk follow links (origin d target) (steps target ++ rest) := by
  rw [walk, hr]

theorem walk_again (h : Later t u) (hw : t.walk follow links here way = .found n x) :
    ∃ y, u.walk follow links here way = .found n y ∧ Kept x y := by
  induction links generalizing here way with
  | zero =>
    cases hr : t.reach follow here way with
    | place p =>
      rw [walk_of_place hr] at hw
      obtain ⟨y, hy, hk⟩ := reach_found_again h (hw ▸ hr)
      exact ⟨y, walk_of_place hy, hk⟩
    | link d target rest =>
      rw [walk_zero_of_link hr] at hw
      cases hw
  | succ links ih =>
    cases hr : t.reach follow here way with
    | place p =>
      rw [walk_of_place hr] at hw
      obtain ⟨y, hy, hk⟩ := reach_found_again h (hw ▸ hr)
      exact ⟨y, walk_of_place hy, hk⟩
    | link d target rest =>
      rw [walk_succ_of_link hr] at hw
      rw [walk_succ_of_link (reach_link_again h hr)]
      exact ih hw

theorem WellFormed.dropLast (h : WellFormed t) (hd : t.node? n = some .directory) :
    t.node? n.dropLast = some .directory := by
  induction n using List.reverseRecOn with
  | nil => exact hd
  | append_singleton n step _ =>
    rw [List.dropLast_concat]
    refine h.parents n step ?_
    rw [hd]
    exact Option.some_ne_none _

def Free (t : FileTree) (n : Name) : Prop :=
  t.node? n = none ∧ t.node? n.dropLast = some .directory

/-- What a way from a directory ends at is there, and a place that is vacant is free. -/
def Sound (t : FileTree) : Reach → Prop
  | .place (.found n x) => t.node? n = some x
  | .place (.vacant n) => Free t n
  | .place _ => True
  | .link d _ _ => t.node? d = some .directory

theorem reach_sound (h : WellFormed t) (hd : t.node? here = some .directory) (follow : Bool)
    (way : List String) : Sound t (t.reach follow here way) := by
  induction way generalizing here with
  | nil => exact hd
  | cons step way ih =>
    rw [reach.eq_def]
    dsimp only
    split
    · exact ih hd
    split
    · exact ih (h.dropLast hd)
    cases hx : t.node? (here ++ [step]) with
    | none =>
      dsimp only
      split
      · trivial
      split
      · exact ⟨hx, by rwa [List.dropLast_concat]⟩
      · trivial
    | some x =>
      cases x with
      | directory => exact ih hx
      | file c =>
        dsimp only
        split
        · exact hx
        · trivial
      | link target =>
        dsimp only
        split
        · exact hx
        · exact hd

theorem origin_directory (hd : t.node? here = some .directory) (p : String) :
    t.node? (origin here p) = some .directory := by
  rw [origin]
  split
  · rfl
  · exact hd

theorem walk_sound (h : WellFormed t) (hd : t.node? here = some .directory) :
    Sound t (.place (t.walk follow links here way)) := by
  induction links generalizing here way with
  | zero =>
    cases hr : t.reach follow here way with
    | place p =>
      rw [walk_of_place hr, ← hr]
      exact reach_sound h hd follow way
    | link d target rest =>
      rw [walk_zero_of_link hr]
      trivial
  | succ links ih =>
    have hs := reach_sound h hd follow way
    cases hr : t.reach follow here way with
    | place p =>
      rw [walk_of_place hr, ← hr]
      exact hs
    | link d target rest =>
      rw [hr] at hs
      rw [walk_succ_of_link hr]
      exact ih (origin_directory hs target)

theorem locate_sound (h : WellFormed t) (follow : Bool) (p : String) :
    Sound t (.place (t.locate follow p)) := by
  rw [locate]
  split
  · exact walk_sound h (origin_directory h.cwd p)
  split <;> trivial

theorem walk_of_locate {p : String} {l : Place} (hp : t.locate follow p = l)
    (hmissing : l ≠ .missing) (hblocked : l ≠ .blocked) :
    isPath p = true ∧ t.walk follow mostLinks (origin t.cwd p) (steps p) = l := by
  rw [locate] at hp
  split at hp
  · rename_i hpath
    exact ⟨hpath, hp⟩
  · split at hp
    · exact absurd hp.symm hmissing
    · exact absurd hp.symm hblocked

/-- A way to a place that was vacant, and where a directory stands now, goes on from there. -/
theorem reach_append (h : Later t u) {place : Name}
    (hr : t.reach follow here way = .place (.vacant place))
    (hd : u.node? place = some .directory) (rest : List String) :
    u.reach true here (way ++ rest) = u.reach true place rest := by
  induction way generalizing here with
  | nil => cases hr
  | cons step way ih =>
    rw [reach.eq_def] at hr
    rw [List.cons_append, reach.eq_def]
    dsimp only at hr ⊢
    split at hr
    · rename_i hdot
      rw [if_pos hdot]
      exact ih hr
    rename_i hdot
    rw [if_neg hdot]
    split at hr
    · rename_i hup
      rw [if_pos hup]
      exact ih hr
    rename_i hup
    rw [if_neg hup]
    cases hx : t.node? (here ++ [step]) with
    | none =>
      rw [hx] at hr
      dsimp only at hr
      split at hr
      · cases hr
      split at hr
      · rename_i hnil
        subst hnil
        obtain rfl : here ++ [step] = place := by simpa using hr
        rw [hd]
        rfl
      · cases hr
    | some x =>
      rw [hx] at hr
      cases x with
      | directory =>
        rw [h.directory hx]
        exact ih hr
      | file c =>
        dsimp only at hr
        split at hr <;> cases hr
      | link target =>
        dsimp only at hr
        split at hr <;> cases hr

theorem reach_link_append (h : Later t u)
    (hr : t.reach follow here way = .link d target rest) (more : List String) :
    u.reach true here (way ++ more) = .link d target (rest ++ more) := by
  induction way generalizing here with
  | nil => cases hr
  | cons step way ih =>
    rw [reach.eq_def] at hr
    rw [List.cons_append, reach.eq_def]
    dsimp only at hr ⊢
    split at hr
    · rename_i hdot
      rw [if_pos hdot]
      exact ih hr
    rename_i hdot
    rw [if_neg hdot]
    split at hr
    · rename_i hup
      rw [if_pos hup]
      exact ih hr
    rename_i hup
    rw [if_neg hup]
    cases hx : t.node? (here ++ [step]) with
    | none =>
      rw [hx] at hr
      cases hr
    | some x =>
      rw [hx] at hr
      cases x with
      | directory =>
        rw [h.directory hx]
        exact ih hr
      | file c => cases hr
      | link target' =>
        obtain ⟨y, hy, hk⟩ := h.kept _ _ hx
        cases hk
        rw [hy]
        dsimp only at hr ⊢
        rw [if_neg (by simp)]
        split at hr
        · cases hr
        · obtain ⟨rfl, rfl, rfl⟩ := Reach.link.inj hr
          rfl

/-- In a tree where a directory holds directories alone, a way below it finds no file. -/
theorem reach_new (hnew : ∀ s, u.node? (here ++ s) = none ∨ u.node? (here ++ s) = some .directory)
    (hback : ".." ∉ way) :
    ∃ p, u.reach true here way = .place p ∧ ∀ n c, p ≠ .found n (.file c) := by
  induction way generalizing here with
  | nil => exact ⟨_, rfl, fun _ _ => nofun⟩
  | cons step way ih =>
    rw [List.mem_cons, not_or] at hback
    rw [reach.eq_def]
    dsimp only
    split
    · exact ih hnew hback.2
    rw [if_neg (Ne.symm hback.1)]
    obtain hx | hx := hnew [step]
    · rw [hx]
      refine ⟨_, rfl, fun n c => ?_⟩
      split
      · exact nofun
      split <;> exact nofun
    · rw [hx]
      exact ih (fun s => by simpa using hnew (step :: s)) hback.2

theorem WellFormed.nothing_below (h : WellFormed t) (hn : t.node? n = none) (s : List String) :
    t.node? (n ++ s) = none := by
  induction s using List.reverseRecOn with
  | nil => rwa [List.append_nil]
  | append_singleton s step ih =>
    by_contra hne
    have hd := h.parents (n ++ s) step (by rwa [List.append_assoc])
    rw [ih] at hd
    cases hd

theorem walk_new (h : WellFormed t) (he : Extended t u) (hd : t.node? here = some .directory)
    {place : Name} (hw : t.walk follow links here way = .vacant place)
    (hplace : u.node? place = some .directory) (hback : ".." ∉ rest) :
    ∀ m c, u.walk true links here (way ++ rest) ≠ .found m (.file c) := by
  have hfree : Free t place := by
    have hs : Sound t (.place (t.walk follow links here way)) := walk_sound h hd
    rwa [hw] at hs
  have hnew : ∀ s, u.node? (place ++ s) = none ∨ u.node? (place ++ s) = some .directory := by
    intro s
    obtain hs | ⟨-, hs⟩ := he.node (place ++ s)
    · exact .inl (hs.trans (h.nothing_below hfree.1 s))
    · exact .inr hs
  obtain ⟨p, hp, hfile⟩ := reach_new hnew hback
  clear hfree
  induction links generalizing here way with
  | zero =>
    cases hr : t.reach follow here way with
    | place q =>
      rw [walk_of_place hr] at hw
      rw [walk_of_place ((reach_append he.later (hw ▸ hr) hplace rest).trans hp)]
      exact hfile
    | link d target left =>
      rw [walk_zero_of_link hr] at hw
      cases hw
  | succ links ih =>
    cases hr : t.reach follow here way with
    | place q =>
      rw [walk_of_place hr] at hw
      rw [walk_of_place ((reach_append he.later (hw ▸ hr) hplace rest).trans hp)]
      exact hfile
    | link d target left =>
      have hs := reach_sound h hd follow way
      rw [hr] at hs
      rw [walk_succ_of_link hr] at hw
      rw [walk_succ_of_link (reach_link_append he.later hr rest), ← List.append_assoc]
      exact ih (origin_directory hs target) hw

end TypedClient.Proofs.Ways
