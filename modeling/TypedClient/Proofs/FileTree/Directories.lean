import TypedClient.Proofs.FileTree.Ways
import TypedClient.Proofs.Path.Ancestors

namespace TypedClient.Proofs.Directories

open TypedClient.FileTree TypedClient.Proofs.Ways TypedClient.Proofs.Ancestors

variable {t u : FileTree} {ps : List String} {p q : String} {n : Name} {x : Node}
  {here : Name} {way : List String} {links : Nat}

theorem free_ne_nil (h : Free t n) : n ≠ [] := by
  rintro rfl
  cases h.1

theorem free_of_locate {follow : Bool} (h : WellFormed t) (hp : t.locate follow p = .vacant n) :
    Free t n := by
  have hsound := locate_sound h follow p
  rwa [hp] at hsound

theorem extended_insert (h : Free t n) : Extended t (t.insert n .directory) := by
  refine ⟨rfl, fun m => ?_⟩
  rw [node?_insert t (free_ne_nil h)]
  split
  · rename_i hm
    exact .inr ⟨hm ▸ h.1, rfl⟩
  · exact .inl rfl

theorem wellFormed_insert (h : WellFormed t) (hn : n ≠ [])
    (hparent : t.node? n.dropLast = some .directory) (hold : t.node? n ≠ some .directory)
    (x : Node) : WellFormed (t.insert n x) := by
  refine ⟨?_, fun m step hm => ?_⟩
  · change (t.insert n x).node? t.cwd = _
    rw [node?_insert t hn, if_neg]
    · exact h.cwd
    · rintro rfl
      exact hold h.cwd
  · rw [node?_insert t hn] at hm ⊢
    have hdir : t.node? m = some .directory := by
      split at hm
      · rename_i hstep
        rwa [← hstep, List.dropLast_concat] at hparent
      · exact h.parents m step hm
    rw [if_neg]
    · exact hdir
    · rintro rfl
      exact hold hdir

theorem wellFormed_insert_free (h : WellFormed t) (hn : Free t n) (x : Node) :
    WellFormed (t.insert n x) :=
  wellFormed_insert h (free_ne_nil hn) hn.2 (by rw [hn.1]; nofun) x

inductive Grown (ps : List String) (t : FileTree) : FileTree → Prop
  | same : Grown ps t t
  | step {u : FileTree} {q : String} {n : Name} (h : Grown ps t u) (hq : q ∈ ps) (hne : q ≠ "")
      (hn : u.locate false (bare q) = .vacant n) : Grown ps t (u.insert n .directory)

namespace Grown

theorem mono {qs : List String} (h : Grown ps t u) (hsub : ps ⊆ qs) : Grown qs t u := by
  induction h with
  | same => exact .same
  | step _ hq hne hn ih => exact .step ih (hsub hq) hne hn

theorem wellFormed (h : Grown ps t u) (ht : WellFormed t) : WellFormed u := by
  induction h with
  | same => exact ht
  | step h hq hne hn ih =>
    exact wellFormed_insert_free ih (free_of_locate ih hn) .directory

theorem extended (h : Grown ps t u) (ht : WellFormed t) : Extended t u := by
  induction h with
  | same => exact Extended.refl t
  | step h hq hne hn ih =>
    exact ih.trans (extended_insert (free_of_locate (h.wellFormed ht) hn))

theorem makeDirectory (h : Grown ps t u) (hq : q ∈ ps) (hne : q ≠ "") {v : FileTree}
    (hv : u.makeDirectory q = .made v) : Grown ps t v := by
  delta FileTree.makeDirectory at hv
  split at hv
  · rename_i hn
    obtain rfl := Making.made.inj hv
    exact .step h hq hne hn
  · cases hv
  · cases hv

theorem makeFirst (t : FileTree) (ps : List String) : Grown ps t (t.makeFirst ps).1 := by
  fun_induction FileTree.makeFirst t ps with
  | case1 | case2 | case4 => exact .same
  | case3 p parents hne v hmade => exact makeDirectory .same List.mem_cons_self hne hmade
  | case5 p parents _ _ u heq ih | case7 p parents _ _ u heq _ ih =>
    rw [heq] at ih
    exact ih.mono (List.subset_cons_self p parents)
  | case6 p parents hne _ u heq v hmade ih =>
    rw [heq] at ih
    exact makeDirectory (ih.mono (List.subset_cons_self p parents)) List.mem_cons_self hne hmade

end Grown

/-- Where a way leads that is not followed through a last link, it leads when this is. -/
theorem reach_follow {r : Reach} (hr : t.reach false here way = r)
    (hlink : ∀ n target, r ≠ .place (.found n (.link target))) : t.reach true here way = r := by
  induction way generalizing here with
  | nil => exact hr
  | cons step way ih =>
    rw [reach.eq_def] at hr ⊢
    dsimp only at hr ⊢
    split at hr
    · rename_i hdot
      rw [if_pos hdot]
      exact ih hr
    rename_i hdot
    rw [if_neg hdot]
    split at hr
    · rename_i hup
      rw [if_pos hup]
      exact ih hr
    rename_i hup
    rw [if_neg hup]
    cases hx : t.node? (here ++ [step]) with
    | none => rwa [hx] at hr
    | some x =>
      rw [hx] at hr
      cases x with
      | directory => exact ih hr
      | file c => exact hr
      | link target =>
        dsimp only at hr ⊢
        split at hr
        · exact absurd hr.symm (hlink _ _)
        · rwa [if_neg (by simp)]

theorem walk_follow (hw : t.walk false links here way = .vacant n) :
    t.walk true links here way = .vacant n := by
  induction links generalizing here way with
  | zero =>
    cases hr : t.reach false here way with
    | place p =>
      rw [walk_of_place hr] at hw
      exact walk_of_place (reach_follow (hw ▸ hr) (fun _ _ => nofun))
    | link d target rest =>
      rw [walk_zero_of_link hr] at hw
      cases hw
  | succ links ih =>
    cases hr : t.reach false here way with
    | place p =>
      rw [walk_of_place hr] at hw
      exact walk_of_place (reach_follow (hw ▸ hr) (fun _ _ => nofun))
    | link d target rest =>
      rw [walk_succ_of_link hr] at hw
      rw [walk_succ_of_link (reach_follow hr (fun _ _ => nofun))]
      exact ih hw

/-- A path turns back when a `..` stands in it behind a directory that is not there. -/
def TurnsBack (t : FileTree) (p : String) : Prop :=
  ∃ front back, steps p = front ++ back ∧ ".." ∈ back ∧
    ∀ n, t.walk true mostLinks (origin t.cwd p) front ≠ .found n .directory

theorem TurnsBack.of_later (h : Later t u) (hu : TurnsBack u p) : TurnsBack t p := by
  obtain ⟨front, back, hsteps, hup, hfront⟩ := hu
  refine ⟨front, back, hsteps, hup, fun n hn => ?_⟩
  obtain ⟨y, hy, hk⟩ := walk_again h hn
  cases hk
  rw [← h.cwd] at hy
  exact hfront n hy

theorem not_turnsBack (h : ".." ∉ steps p) (t : FileTree) : ¬ TurnsBack t p := by
  rintro ⟨front, back, hsteps, hup, -⟩
  exact h (hsteps ▸ List.mem_append_right front hup)

theorem locate_root (t : FileTree) : t.locate false (bare "/") = .found [] .directory := by
  have hbare : bare "/" = "/" := by decide
  have hpath : isPath "/" = true := by decide
  have hsteps : steps "/" = ["."] := by decide
  simp only [hbare, locate, hpath, hsteps, if_true]
  rfl

theorem Grown.no_file (h : Grown ps t u) (ht : WellFormed t) (habove : ∀ q ∈ ps, Above p q)
    (hp : ¬ TurnsBack t p) : u = t ∨ ∀ n c, u.locate true p ≠ .found n (.file c) := by
  cases h with
  | same => exact .inl rfl
  | @step u q place h hq hne hn =>
    right
    have hu := h.wellFormed ht
    have hfree := free_of_locate hu hn
    have hnew := extended_insert hfree
    obtain rfl | rfl | hbelow := habove q hq
    · exact absurd rfl hne
    · rw [locate_root] at hn
      cases hn
    rw [bare_of_below hbelow] at hn
    obtain ⟨-, hway⟩ := walk_of_locate hn (by simp) (by simp)
    obtain ⟨rest, hrest⟩ := steps_of_below hbelow
    have horigin : origin u.cwd q = origin u.cwd p := by
      rw [origin, origin, isAbsolute_of_below hbelow]
    rw [horigin] at hway
    have hback : ".." ∉ rest := by
      intro hup
      refine hp (.of_later (h.extended ht).later ⟨steps q, rest, hrest, hup, fun m hm => ?_⟩)
      rw [walk_follow hway] at hm
      cases hm
    have hplace : (u.insert place .directory).node? place = some .directory := by
      rw [node?_insert u (free_ne_nil hfree), if_pos rfl]
    intro m c hm
    obtain ⟨-, hfile⟩ := walk_of_locate hm (by simp) (by simp)
    rw [hrest] at hfile
    exact walk_new hu hnew (origin_directory hu.cwd p) hway hplace hback m c hfile

end TypedClient.Proofs.Directories
