import TypedClient.Routing.Matching
import TypedClient.Proofs.Text.Pieces

namespace TypedClient.Proofs.SegmentCuts

open TypedClient.Routing TypedClient.Text Pieces

/-- The segments of a location that a segment of a pattern can take, and what it captures thereby. -/
inductive Takes : String → List String → Captures → Prop
  | static {p : String} (hrest : p ≠ "*") (hparam : ∀ name, p ≠ ":" ++ name) : Takes p [p] []
  | param {name t : String} (hname : ∀ n, name ≠ n ++ "?") (ht : t ≠ "") :
      Takes (":" ++ name) [t] [some t]
  | optional {name t : String} (ht : t ≠ "") : Takes (":" ++ (name ++ "?")) [t] [some t]
  | skipped {name : String} : Takes (":" ++ (name ++ "?")) [] [none]
  | rest {ts : List String} (hts : ts ≠ []) : Takes "*" ts [some ("/".intercalate ts)]
  | nothing : Takes "*" [] [none]

/-- The segments of a location cut along the segments of a pattern: how many each of them takes, and
all that they capture. -/
inductive Cut : List String → List String → List Nat → Captures → Prop
  | nil : Cut [] [] [] []
  | cons {p : String} {ps taken left : List String} {ns : List Nat} {cs ds : Captures}
      (h : Takes p taken cs) (hleft : Cut ps left ns ds) :
      Cut (p :: ps) (taken ++ left) (taken.length :: ns) (cs ++ ds)

/-- The captures of the first cut: where another one gives a different number of segments for the
first time, it gives fewer. -/
def FirstCut (ps segs : List String) (cs : Captures) : Prop :=
  ∃ ns, Cut ps segs ns cs ∧ ∀ ms ds, Cut ps segs ms ds → ms = ns ∨ List.Lex (· > ·) ns ms

def Reads (ps segs : List String) : Option Captures → Prop
  | none => ∀ ns cs, ¬ Cut ps segs ns cs
  | some cs => FirstCut ps segs cs

variable {p name : String} {ps segs taken left : List String} {cs ds : Captures} {ns : List Nat}

theorem colon_ne_star : ":" ++ name ≠ "*" := by
  rw [ne_eq, ← String.toList_inj, String.toList_append]
  simp

theorem ofSegment_static (hrest : p ≠ "*") (hparam : ∀ name, p ≠ ":" ++ name) :
    Token.ofSegment p = .literal p := by
  have hnone : afterPrefix? ":" p = none := by
    rw [Option.eq_none_iff_forall_ne_some]
    intro name h
    exact hparam name (afterPrefix?_eq_some_iff.mp h)
  rw [Token.ofSegment, if_neg hrest, hnone]

theorem ofSegment_param (hname : ∀ n, name ≠ n ++ "?") :
    Token.ofSegment (":" ++ name) = .param name := by
  have hnone : beforeSuffix? "?" name = none := by
    rw [Option.eq_none_iff_forall_ne_some]
    intro n h
    exact hname n (beforeSuffix?_eq_some_iff.mp h)
  rw [Token.ofSegment, if_neg colon_ne_star, afterPrefix?_eq_some_iff.mpr rfl]
  simp only [hnone]

@[simp] theorem ofSegment_optional :
    Token.ofSegment (":" ++ (name ++ "?")) = .optional name := by
  rw [Token.ofSegment, if_neg colon_ne_star, afterPrefix?_eq_some_iff.mpr rfl]
  simp only [beforeSuffix?_eq_some_iff.mpr rfl]

inductive Spelled : String → Token → Prop
  | static {p : String} (hrest : p ≠ "*") (hparam : ∀ name, p ≠ ":" ++ name) :
      Spelled p (.literal p)
  | param {name : String} (hname : ∀ n, name ≠ n ++ "?") : Spelled (":" ++ name) (.param name)
  | optional {name : String} : Spelled (":" ++ (name ++ "?")) (.optional name)
  | rest : Spelled "*" .rest

theorem spelled_ofSegment (p : String) : Spelled p (Token.ofSegment p) := by
  by_cases hrest : p = "*"
  · rw [hrest]
    exact .rest
  · by_cases hparam : ∃ name, p = ":" ++ name
    · obtain ⟨name, rfl⟩ := hparam
      by_cases hname : ∃ n, name = n ++ "?"
      · obtain ⟨n, rfl⟩ := hname
        rw [ofSegment_optional]
        exact .optional
      · have hname' : ∀ n, name ≠ n ++ "?" := not_exists.mp hname
        rw [ofSegment_param hname']
        exact .param hname'
    · have hparam' : ∀ name, p ≠ ":" ++ name := not_exists.mp hparam
      rw [ofSegment_static hrest hparam']
      exact .static hrest hparam'

def splits : List String → List (List String × List String)
  | [] => [([], [])]
  | t :: ts => (splits ts).map (fun c => (t :: c.1, c.2)) ++ [([], t :: ts)]

theorem mem_splits : (taken, left) ∈ splits segs ↔ segs = taken ++ left := by
  induction segs generalizing taken with
  | nil => simp [splits, eq_comm]
  | cons t ts ih =>
    cases taken with
    | nil => simp [splits, eq_comm]
    | cons u taken =>
      simp only [splits, List.mem_append, List.mem_map, Prod.exists, Prod.mk.injEq,
        List.cons.injEq, List.mem_singleton, reduceCtorEq, false_and, or_false, List.cons_append]
      constructor
      · rintro ⟨a, b, hmem, ⟨rfl, rfl⟩, rfl⟩
        exact ⟨rfl, ih.mp hmem⟩
      · rintro ⟨rfl, rfl⟩
        exact ⟨taken, left, ih.mpr rfl, ⟨rfl, rfl⟩, rfl⟩

def Longer (a b : List String × List String) : Prop :=
  b.1.length < a.1.length

theorem splits_pairwise (segs : List String) : (splits segs).Pairwise Longer := by
  induction segs with
  | nil => simp [splits]
  | cons t ts ih =>
    rw [splits, List.pairwise_append, List.pairwise_map]
    refine ⟨ih.imp fun h => Nat.succ_lt_succ h, List.pairwise_singleton _ _, ?_⟩
    simp only [Longer, List.mem_map, List.mem_singleton]
    rintro _ ⟨c, -, rfl⟩ _ rfl
    exact Nat.zero_lt_succ _

/-- What a token can take of a location's segments, and what it leaves, longest first. -/
def choices : Token → List String → List (List String × List String)
  | .literal s, t :: ts => if t = s then [([t], ts)] else []
  | .literal _, [] => []
  | .param _, t :: ts => if t ≠ "" then [([t], ts)] else []
  | .param _, [] => []
  | .optional _, t :: ts => (if t ≠ "" then [([t], ts)] else []) ++ [([], t :: ts)]
  | .optional _, [] => [([], [])]
  | .rest, ts => splits ts

def captured : Token → List String → Captures
  | .literal _, _ => []
  | _, [] => [none]
  | _, t :: ts => [some ("/".intercalate (t :: ts))]

theorem mem_choices_of_takes (h : Takes p taken cs) (left : List String) :
    (taken, left) ∈ choices (Token.ofSegment p) (taken ++ left) ∧
      cs = captured (Token.ofSegment p) taken := by
  cases h with
  | static hrest hparam => simp [ofSegment_static hrest hparam, choices, captured]
  | param hname ht => simp [ofSegment_param hname, choices, captured, ht]
  | optional ht => simp [choices, captured, ht]
  | skipped => cases left <;> simp [choices, captured]
  | rest hts =>
    obtain ⟨t, ts, rfl⟩ := List.exists_cons_of_ne_nil hts
    exact ⟨mem_splits.mpr rfl, rfl⟩
  | nothing => exact ⟨mem_splits.mpr rfl, rfl⟩

theorem takes_of_mem_choices (h : (taken, left) ∈ choices (Token.ofSegment p) segs) :
    segs = taken ++ left ∧ Takes p taken (captured (Token.ofSegment p) taken) := by
  have hp := spelled_ofSegment p
  generalize Token.ofSegment p = token at h hp
  cases hp with
  | static hrest hparam =>
    cases segs with
    | nil => simp [choices] at h
    | cons t ts =>
      simp only [choices, List.mem_ite_nil_right, List.mem_singleton, Prod.mk.injEq] at h
      obtain ⟨rfl, rfl, rfl⟩ := h
      exact ⟨rfl, .static hrest hparam⟩
  | param hname =>
    cases segs with
    | nil => simp [choices] at h
    | cons t ts =>
      simp only [choices, List.mem_ite_nil_right, List.mem_singleton, Prod.mk.injEq] at h
      obtain ⟨ht, rfl, rfl⟩ := h
      exact ⟨rfl, .param hname ht⟩
  | optional =>
    cases segs with
    | nil =>
      simp only [choices, List.mem_singleton, Prod.mk.injEq] at h
      obtain ⟨rfl, rfl⟩ := h
      exact ⟨rfl, .skipped⟩
    | cons t ts =>
      simp only [choices, List.mem_append, List.mem_ite_nil_right, List.mem_singleton,
        Prod.mk.injEq] at h
      obtain ⟨ht, rfl, rfl⟩ | ⟨rfl, rfl⟩ := h
      · exact ⟨rfl, .optional ht⟩
      · exact ⟨rfl, .skipped⟩
  | rest =>
    refine ⟨mem_splits.mp h, ?_⟩
    cases taken with
    | nil => exact .nothing
    | cons t ts => exact .rest (List.cons_ne_nil t ts)

theorem choices_pairwise (token : Token) (segs : List String) :
    (choices token segs).Pairwise Longer := by
  cases token with
  | literal s =>
    cases segs with
    | nil => simp [choices]
    | cons t ts => by_cases h : t = s <;> simp [choices, h]
  | param name =>
    cases segs with
    | nil => simp [choices]
    | cons t ts => by_cases h : t = "" <;> simp [choices, h]
  | optional name =>
    cases segs with
    | nil => simp [choices]
    | cons t ts => by_cases h : t = "" <;> simp [choices, h, Longer]
  | rest => exact splits_pairwise segs

theorem cut_nil_iff : Cut [] segs ns cs ↔ segs = [] ∧ ns = [] ∧ cs = [] := by
  constructor
  · intro h
    cases h
    exact ⟨rfl, rfl, rfl⟩
  · rintro ⟨rfl, rfl, rfl⟩
    exact .nil

theorem cut_cons_iff : Cut (p :: ps) segs ns cs ↔
    ∃ c ∈ choices (Token.ofSegment p) segs, ∃ ms ds, Cut ps c.2 ms ds ∧
      ns = c.1.length :: ms ∧ cs = captured (Token.ofSegment p) c.1 ++ ds := by
  constructor
  · intro h
    cases h with
    | @cons _ _ taken left ms cs ds h hleft =>
      obtain ⟨hmem, rfl⟩ := mem_choices_of_takes h left
      exact ⟨(taken, left), hmem, ms, ds, hleft, rfl, rfl⟩
  · rintro ⟨⟨taken, left⟩, hmem, ms, ds, hleft, rfl, rfl⟩
    obtain ⟨rfl, h⟩ := takes_of_mem_choices hmem
    exact .cons h hleft

theorem reads_cons (answer : List String → Option Captures)
    (h : ∀ c ∈ choices (Token.ofSegment p) segs, Reads ps c.2 (answer c.2)) :
    Reads (p :: ps) segs ((choices (Token.ofSegment p) segs).findSome? fun c =>
      (answer c.2).map (captured (Token.ofSegment p) c.1 ++ ·)) := by
  have hpair := choices_pairwise (Token.ofSegment p) segs
  have hnone : ∀ c ∈ choices (Token.ofSegment p) segs, answer c.2 = none →
      ∀ ms ds, ¬ Cut ps c.2 ms ds := by
    intro c hc hans
    have hr := h c hc
    rwa [hans] at hr
  cases hfind : (choices (Token.ofSegment p) segs).findSome? fun c =>
      (answer c.2).map (captured (Token.ofSegment p) c.1 ++ ·) with
  | none =>
    rw [List.findSome?_eq_none_iff] at hfind
    intro ns cs hns
    obtain ⟨c, hc, ms, ds, hleft, -, -⟩ := cut_cons_iff.mp hns
    exact hnone c hc (Option.map_eq_none_iff.mp (hfind c hc)) ms ds hleft
  | some cs =>
    obtain ⟨before, c, after, hlist, hc, hbefore⟩ := List.findSome?_eq_some_iff.mp hfind
    obtain ⟨ds, hans, rfl⟩ := Option.map_eq_some_iff.mp hc
    have hmem : c ∈ choices (Token.ofSegment p) segs := by simp [hlist]
    have hfirst : FirstCut ps c.2 ds := by
      have hr := h c hmem
      rwa [hans] at hr
    obtain ⟨ms, hleft, hmax⟩ := hfirst
    refine ⟨c.1.length :: ms, cut_cons_iff.mpr ⟨c, hmem, ms, ds, hleft, rfl, rfl⟩, ?_⟩
    intro ns cs hns
    obtain ⟨c', hc', ms', ds', hleft', rfl, -⟩ := cut_cons_iff.mp hns
    rw [hlist] at hpair hc'
    rw [List.pairwise_append, List.pairwise_cons] at hpair
    obtain hc' | hc' := List.mem_append.mp hc'
    · -- a longer choice was tried before, in vain
      have hans' := Option.map_eq_none_iff.mp (hbefore c' hc')
      exact absurd hleft' (hnone c' (by simp [hlist, hc']) hans' ms' ds')
    · obtain rfl | hc' := List.mem_cons.mp hc'
      · obtain rfl | hlex := hmax ms' ds' hleft'
        · exact .inl rfl
        · exact .inr (.cons hlex)
      · exact .inr (.rel (hpair.2.1.1 c' hc'))

-- the numbers of segments settle what each segment of the pattern takes
theorem Cut.captures_eq (h : Cut ps segs ns cs) (h' : Cut ps segs ns ds) : cs = ds := by
  induction ps generalizing segs ns cs ds with
  | nil =>
    rw [(cut_nil_iff.mp h).2.2, (cut_nil_iff.mp h').2.2]
  | cons p ps ih =>
    obtain ⟨⟨t, l⟩, hc, ms, es, hleft, rfl, rfl⟩ := cut_cons_iff.mp h
    obtain ⟨⟨t', l'⟩, hc', ms', es', hleft', hns, rfl⟩ := cut_cons_iff.mp h'
    have hsegs := (takes_of_mem_choices hc).1
    rw [(takes_of_mem_choices hc').1] at hsegs
    obtain ⟨hlen, rfl⟩ := List.cons.inj hns
    obtain ⟨rfl, rfl⟩ := List.append_inj hsegs hlen.symm
    rw [ih hleft hleft']

theorem Reads.iff {r : Option Captures} (h : Reads ps segs r) :
    (r.isSome ↔ ∃ ns cs, Cut ps segs ns cs) ∧ ∀ cs, r = some cs ↔ FirstCut ps segs cs := by
  cases r with
  | none =>
    have hno : ∀ ns cs, ¬ Cut ps segs ns cs := h
    refine ⟨by simp [hno], fun cs => ⟨nofun, ?_⟩⟩
    rintro ⟨ns, hcut, -⟩
    exact absurd hcut (hno ns cs)
  | some cs =>
    obtain ⟨ns, hcut, hmax⟩ := h
    refine ⟨iff_of_true rfl ⟨ns, cs, hcut⟩, fun ds => ⟨?_, ?_⟩⟩
    · rintro ⟨⟩
      exact ⟨ns, hcut, hmax⟩
    · rintro ⟨ms, hcut', hmax'⟩
      have hms : ms = ns := by
        obtain rfl | hlex := hmax ms ds hcut'
        · rfl
        · obtain rfl | hlex' := hmax' ns cs hcut
          · rfl
          · exact absurd hlex' (List.lex_asymm (fun h h' => Nat.lt_asymm h h') hlex)
      rw [hcut.captures_eq (hms ▸ hcut')]

end TypedClient.Proofs.SegmentCuts
