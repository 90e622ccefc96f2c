import TypedClient.Proofs.Path.Specifier

namespace TypedClient.Proofs

open TypedClient.Text TypedClient.Path TypedClient.Proofs.Pieces TypedClient.Proofs.Specifier

structure Spot where
  absolute : Bool
  directories : List String
  name : String
deriving DecidableEq

namespace Spot

def ofLocation (location : String) : Spot :=
  ⟨isAbsolute location, (pieces '/' location).dropLast.filter (· ≠ ""), afterLast '/' location⟩

def add (s : Spot) (suffix : String) : Spot :=
  { s with name := s.name ++ suffix }

def components (s : Spot) : List Component :=
  (if s.absolute then [.root] else []) ++ s.directories.map .name ++ [.name (s.name ++ ".ts")]

variable {location suffix : String} {ps : List String} {p : String}

theorem ofLocation_eq (h : pieces '/' location = ps ++ [p]) :
    ofLocation location = ⟨isAbsolute location, ps.filter (· ≠ ""), p⟩ := by
  simp [ofLocation, afterLast, h]

theorem isAbsolute_append (h : '/' ∉ suffix.toList) :
    isAbsolute (location ++ suffix) = isAbsolute location := by
  simp only [isAbsolute, startsWith, String.toList_append]
  cases location.toList with
  | cons c cs => simp [List.isPrefixOf]
  | nil =>
    cases hs : suffix.toList with
    | nil => rfl
    | cons c cs =>
      rw [hs, List.mem_cons, not_or] at h
      simp [List.isPrefixOf, h.1]

theorem ofLocation_append (h : '/' ∉ suffix.toList) :
    ofLocation (location ++ suffix) = (ofLocation location).add suffix := by
  obtain ⟨ps, p, hp, happ⟩ := pieces_append_of_not_mem location h
  rw [ofLocation_eq hp, ofLocation_eq happ, isAbsolute_append h]
  rfl

theorem add_injective (suffix : String) : Function.Injective fun s : Spot => s.add suffix := by
  rintro ⟨a, ds, n⟩ ⟨b, es, m⟩ h
  obtain ⟨ha, hds, hn⟩ := Spot.mk.inj h
  exact Spot.mk.injEq .. ▸ ⟨ha, hds, (String.append_left_inj suffix).mp hn⟩

theorem ne_add (s : Spot) (h : suffix ≠ "") : s ≠ s.add suffix := by
  intro hs
  have hn : s.name.length = (s.name ++ suffix).length := congrArg (String.length ∘ Spot.name) hs
  rw [String.length_append] at hn
  have := String.length_eq_zero_iff.not.mpr h
  omega

theorem components_injective : Function.Injective components := by
  rintro ⟨a, ds, n⟩ ⟨b, es, m⟩ h
  obtain ⟨hfront, hlast⟩ := List.append_inj' h rfl
  have hn : n = m := (String.append_left_inj ".ts").mp (by simpa using hlast)
  have habs : ∀ (c : Bool) (l : List String),
      Component.root ∈ (if c then [Component.root] else []) ++ l.map .name ↔ c = true := by
    intro c l
    cases c <;> simp
  have hroot : a = b := by
    rw [Bool.eq_iff_iff, ← habs a ds, ← habs b es]
    exact iff_of_eq (congrArg (Component.root ∈ ·) hfront)
  have hds : ds = es := by
    rw [hroot] at hfront
    have hmap := List.append_cancel_left hfront
    exact List.map_injective_iff.mpr (fun _ _ => Component.name.inj) hmap
  rw [hn, hroot, hds]

theorem components_ofLocation (h : '.' ∉ location.toList) :
    Path.components (location ++ ".ts") = (ofLocation location).components := by
  obtain ⟨ps, p, hp, happ⟩ := pieces_append_of_not_mem location (d := '/') (t := ".ts") (by decide)
  have hdot : ∀ q ∈ ps, '.' ∉ q.toList := fun q hq hc =>
    h (mem_of_mem_pieces (hp ▸ List.mem_append_left _ hq) hc)
  have hnames : ps.filterMap Component.ofPiece? = (ps.filter (· ≠ "")).map .name := by
    rw [← List.filterMap_eq_map, List.filterMap_filter]
    refine List.filterMap_congr fun q hq => ?_
    have hne : q ≠ "." ∧ q ≠ ".." := by
      constructor <;> (rintro rfl; exact hdot _ hq (by decide))
    by_cases hq : q = "" <;> simp [Component.ofPiece?, hq, hne]
  have hplain := plain_append p (x := ".ts") (by decide) _ (List.mem_singleton.mpr rfl)
  have hlast : [p ++ ".ts"].filterMap Component.ofPiece? = [.name (p ++ ".ts")] := by
    simp [Component.ofPiece?, hplain]
  have hhead : (ps ++ [p ++ ".ts"]).head? ≠ some "." := by
    cases ps with
    | nil => simpa using hplain.2.1
    | cons q qs =>
      rintro hq
      obtain rfl := Option.some.inj hq
      exact hdot "." List.mem_cons_self (by decide)
  rw [Path.components, happ, isAbsolute_append (by decide), ofLocation_eq hp]
  simp only [List.filterMap_append, hnames, hlast, hhead, components]
  cases isAbsolute location <;> simp

theorem same_iff {l m : String} (hl : '.' ∉ l.toList) (hm : '.' ∉ m.toList) :
    Path.same (l ++ ".ts") (m ++ ".ts") = true ↔ ofLocation l = ofLocation m := by
  rw [Path.same, decide_eq_true_iff, components_ofLocation hl, components_ofLocation hm]
  exact components_injective.eq_iff

end Spot

end TypedClient.Proofs
