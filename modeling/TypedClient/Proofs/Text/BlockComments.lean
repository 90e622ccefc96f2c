import Mathlib.Data.List.Infix
import TypedClient.Text.Split

namespace TypedClient.Proofs.BlockComments

def graveAccent : Char :=
  Char.ofNat 96

def isQuote (c : Char) : Bool :=
  c = '"' || c = '\'' || c = graveAccent

/-- Whether a character breaks a line, and with it a string that is not between grave accents. -/
def isBreak (c : Char) : Bool :=
  c = '\n' || c = '\r'

inductive Mode
  | code
  | slash
  | quoted (quote : Char)
  | escaped (quote : Char)
  | line
  | block (body : List Char)
deriving DecidableEq, Repr

def Mode.ofCode (c : Char) : Mode :=
  if c = '/' then slash else if isQuote c then quoted c else code

def Mode.ofQuoted (quote c : Char) : Mode :=
  if c = '\\' then escaped quote
  else if c = quote || (isBreak c && quote != graveAccent) then code
  else quoted quote

def Mode.ofLine (c : Char) : Mode :=
  if isBreak c || c = '\u2028' || c = '\u2029' then code else line

structure Reader where
  mode : Mode
  comments : List String
deriving DecidableEq, Repr

namespace Reader

def step (r : Reader) (c : Char) : Reader :=
  match r.mode with
  | .code => { r with mode := .ofCode c }
  | .slash => { r with mode := if c = '*' then .block [] else if c = '/' then .line else .ofCode c }
  | .quoted q => { r with mode := .ofQuoted q c }
  | .escaped q => { r with mode := .quoted q }
  | .line => { r with mode := .ofLine c }
  | .block body =>
    if c = '/' ∧ body.getLast? = some '*' then
      ⟨.code, r.comments ++ [String.ofList body.dropLast]⟩
    else { r with mode := .block (body ++ [c]) }

def read (r : Reader) (t : String) : Reader :=
  t.toList.foldl step r

end Reader

def after (comments : List String) : Reader :=
  ⟨.code, comments⟩

def Terminates (t : String) : Prop :=
  "*/".toList <:+: t.toList

instance (t : String) : Decidable (Terminates t) :=
  inferInstanceAs (Decidable (_ <:+: _))

variable {s t u : String} {bodies comments : List String}

namespace Reader

theorem read_append (r : Reader) (s t : String) : r.read (s ++ t) = (r.read s).read t := by
  rw [read, String.toList_append, List.foldl_append]
  rfl

theorem step_comments_prefix (r : Reader) (c : Char) : r.comments <+: (r.step c).comments := by
  unfold step
  split
  case h_6 =>
    split
    · exact List.prefix_append _ _
    · exact List.prefix_refl _
  all_goals exact List.prefix_refl _

theorem comments_prefix (r : Reader) (t : String) : r.comments <+: (r.read t).comments := by
  unfold read
  induction t.toList generalizing r with
  | nil => exact List.prefix_refl _
  | cons c cs ih => exact (r.step_comments_prefix c).trans (ih _)

theorem foldl_step_block {cs : List Char} (read : List Char)
    (h : ¬ "*/".toList <:+: read ++ cs) :
    cs.foldl step ⟨.block read, comments⟩ = ⟨.block (read ++ cs), comments⟩ := by
  induction cs generalizing read with
  | nil => rw [List.append_nil]; rfl
  | cons c cs ih =>
    have hopen : ¬ (c = '/' ∧ read.getLast? = some '*') := by
      rintro ⟨rfl, hlast⟩
      obtain ⟨before, rfl⟩ := List.getLast?_eq_some_iff.mp hlast
      exact h ⟨before, cs, by simp⟩
    have hstep : step ⟨.block read, comments⟩ c = ⟨.block (read ++ [c]), comments⟩ := if_neg hopen
    rw [List.foldl_cons, hstep, ih (read ++ [c]) (by simpa using h), List.append_assoc]
    rfl

end Reader

theorem read_comment (h : ¬ Terminates t) :
    (after comments).read ("/*" ++ t ++ "*/") = after (comments ++ [t]) := by
  have hopened : (after comments).read "/*" = ⟨.block [], comments⟩ := rfl
  have hbody : (⟨.block [], comments⟩ : Reader).read t = ⟨.block t.toList, comments⟩ :=
    Reader.foldl_step_block [] h
  have hclosed : (⟨.block t.toList, comments⟩ : Reader).read "*/" = after (comments ++ [t]) := by
    change ((⟨.block t.toList, comments⟩ : Reader).step '*').step '/' = _
    simp [Reader.step, after]
  rw [Reader.read_append, Reader.read_append, hopened, hbody, hclosed]

theorem Terminates.append_left (h : Terminates t) (s : String) : Terminates (s ++ t) := by
  rw [Terminates, String.toList_append]
  exact h.trans (List.suffix_append _ _).isInfix

theorem Terminates.append_right (h : Terminates s) (t : String) : Terminates (s ++ t) := by
  rw [Terminates, String.toList_append]
  exact h.trans (List.prefix_append _ _).isInfix

theorem Terminates.of_append_right (h : Terminates (t ++ s)) (hs : '/' ∉ s.toList) :
    Terminates t := by
  obtain ⟨before, behind, h⟩ := h
  rw [String.toList_append] at h
  obtain ⟨rest, ht, -⟩ | ⟨rest, hread, hrest⟩ := List.append_eq_append_iff.mp h
  · exact ⟨before, rest, ht.symm⟩
  -- the terminator ends in `s`, unless nothing of it stands there
  · obtain rfl | ⟨rest, last, rfl⟩ := List.eq_nil_or_concat rest
    · exact ⟨before, [], by simpa using hread⟩
    · have hlast : last = '/' := by
        have hend := congrArg List.getLast? hread
        simpa using hend.symm
      exact absurd (by simp [hrest, hlast]) hs

theorem Terminates.of_append_left (h : Terminates (s ++ t)) (hs : '/' ∉ s.toList)
    (hlast : s.toList.getLast? ≠ some '*') : Terminates t := by
  obtain ⟨before, behind, h⟩ := h
  rw [String.toList_append, List.append_assoc] at h
  obtain ⟨rest, hrest, hread⟩ | ⟨rest, -, ht⟩ := List.append_eq_append_iff.mp h
  -- the terminator begins in `s`, unless nothing of it stands there
  · match rest with
    | [] => exact ⟨[], behind, by simpa using hread⟩
    | [c] =>
      simp only [List.cons_append, String.reduceToList, List.cons.injEq] at hread
      exact absurd (by simp [hrest, ← hread.1]) hlast
    | c :: d :: rest =>
      simp only [List.cons_append, String.reduceToList, List.cons.injEq] at hread
      exact absurd (by simp [hrest, ← hread.2.1]) hs
  · exact ⟨rest, behind, by simpa using ht.symm⟩

theorem terminates_between_iff (hs : '/' ∉ s.toList) (hlast : s.toList.getLast? ≠ some '*')
    (hu : '/' ∉ u.toList) : Terminates (s ++ t ++ u) ↔ Terminates t :=
  ⟨fun h => (h.of_append_right hu).of_append_left hs hlast,
    fun h => (h.append_left s).append_right u⟩

theorem Terminates.first (h : Terminates t) :
    ∃ s u, t = s ++ "*/" ++ u ∧ ¬ Terminates s := by
  induction hn : t.toList.length using Nat.strong_induction_on generalizing t with
  | _ n ih =>
    obtain ⟨before, behind, ht⟩ := h
    have ht : t = String.ofList before ++ "*/" ++ String.ofList behind := by
      rw [← String.toList_inj]
      simpa using ht.symm
    by_cases hbefore : Terminates (String.ofList before)
    · have hlength : (String.ofList before).toList.length < n := by
        rw [← hn, ht]
        simp
      obtain ⟨s, u, hs, hfirst⟩ := ih _ hlength hbefore rfl
      exact ⟨s, u ++ "*/" ++ String.ofList behind, by simp [ht, hs, String.append_assoc], hfirst⟩
    · exact ⟨_, _, ht, hbefore⟩

theorem read_cut_comment (hs : ¬ Terminates s) (comments : List String) (u : String) :
    comments ++ [s] <+: ((after comments).read ("/*" ++ (s ++ "*/" ++ u) ++ "*/")).comments := by
  have hsplit : "/*" ++ (s ++ "*/" ++ u) ++ "*/" = "/*" ++ s ++ "*/" ++ (u ++ "*/") := by
    simp only [String.append_assoc]
  rw [hsplit, Reader.read_append, read_comment hs]
  exact Reader.comments_prefix (after (comments ++ [s])) _

def Neutral (t : String) : Prop :=
  ∀ comments, (after comments).read t = after comments

theorem Neutral.append (hs : Neutral s) (ht : Neutral t) : Neutral (s ++ t) := by
  intro comments
  rw [Reader.read_append, hs, ht]

def isPlain (c : Char) : Bool :=
  c ≠ '/' && !isQuote c

theorem step_plain {c : Char} (h : isPlain c = true) : (after comments).step c = after comments := by
  simp only [isPlain, ne_eq, decide_not, Bool.and_eq_true, Bool.not_eq_true',
    decide_eq_false_iff_not] at h
  simp [Reader.step, after, Mode.ofCode, h]

theorem neutral_of_plain (h : t.toList.all isPlain = true) : Neutral t := by
  intro comments
  unfold Reader.read
  generalize t.toList = cs at h
  induction cs with
  | nil => rfl
  | cons c cs ih =>
    rw [List.all_cons, Bool.and_eq_true] at h
    rw [List.foldl_cons, step_plain h.1, ih h.2]

theorem Neutral.plain (ht : Neutral t) (hu : u.toList.all isPlain = true) : Neutral (t ++ u) :=
  ht.append (neutral_of_plain hu)

theorem neutral_between (hs : s.toList.all isPlain = true) (ht : Neutral t)
    (hu : u.toList.all isPlain = true) : Neutral (s ++ t ++ u) :=
  ((neutral_of_plain hs).append ht).plain hu

theorem neutral_join {ts : List String} (h : ∀ t ∈ ts, Neutral t) : Neutral (String.join ts) := by
  induction ts with
  | nil => exact neutral_of_plain rfl
  | cons t ts ih =>
    rw [List.forall_mem_cons] at h
    rw [String.join_cons]
    exact h.1.append (ih h.2)

theorem neutral_intercalate {ts : List String} (hs : Neutral s) (h : ∀ t ∈ ts, Neutral t) :
    Neutral (s.intercalate ts) := by
  induction ts with
  | nil => exact neutral_of_plain rfl
  | cons t ts ih =>
    rw [List.forall_mem_cons] at h
    by_cases hts : ts = []
    · rw [hts, String.intercalate_singleton]
      exact h.1
    · rw [String.intercalate_cons_of_ne_nil hts]
      exact (h.1.append hs).append (ih h.2)

inductive Written : List String → String → Prop
  | code {t : String} (h : Neutral t) : Written [] t
  | comment (body : String) : Written [body] ("/*" ++ body ++ "*/")
  | append {bs cs : List String} {t u : String} (ht : Written bs t) (hu : Written cs u) :
      Written (bs ++ cs) (t ++ u)

namespace Written

theorem neutral (ht : Written bodies t) (hu : Neutral u) : Written bodies (t ++ u) := by
  have h := ht.append (.code hu)
  rwa [List.append_nil] at h

theorem read (h : Written bodies t) (hb : ∀ b ∈ bodies, ¬ Terminates b) (comments : List String) :
    (after comments).read t = after (comments ++ bodies) := by
  induction h generalizing comments with
  | code h => rw [h, List.append_nil]
  | comment body => exact read_comment (hb body (List.mem_singleton_self body))
  | append _ _ iht ihu =>
    rw [List.forall_mem_append] at hb
    rw [Reader.read_append, iht hb.1, ihu hb.2, List.append_assoc]

theorem split {before behind : List String} {body : String}
    (h : Written (before ++ body :: behind) t) :
    ∃ u v, t = u ++ ("/*" ++ body ++ "*/") ++ v ∧ Written before u := by
  generalize hbodies : before ++ body :: behind = bodies at h
  induction h generalizing before behind with
  | code h => simp at hbodies
  | comment b =>
    obtain ⟨rfl, rfl, rfl⟩ : before = [] ∧ body = b ∧ behind = [] := by
      cases before <;> simp_all
    exact ⟨"", "", by simp, .code (neutral_of_plain rfl)⟩
  | @append bs cs t u ht hu iht ihu =>
    obtain ⟨rest, rfl, hrest⟩ | ⟨rest, rfl, hrest⟩ := List.append_eq_append_iff.mp hbodies
    · match rest with
      | [] =>
        obtain ⟨x, v, rfl, hx⟩ := @ihu [] behind hrest
        exact ⟨t ++ x, v, by simp [String.append_assoc], by simpa using ht.append hx⟩
      | b :: rest =>
        obtain ⟨rfl, rfl⟩ := List.cons.inj hrest
        obtain ⟨x, v, rfl, hx⟩ := iht rfl
        exact ⟨x, v ++ u, by simp [String.append_assoc], hx⟩
    · obtain ⟨x, v, rfl, hx⟩ := ihu hrest.symm
      exact ⟨t ++ x, v, by simp [String.append_assoc], ht.append hx⟩

theorem read_cut {before behind : List String}
    (h : Written (before ++ (s ++ "*/" ++ u) :: behind) t) (hb : ∀ b ∈ before, ¬ Terminates b)
    (hs : ¬ Terminates s) : before ++ [s] <+: ((after []).read t).comments := by
  obtain ⟨x, v, rfl, hx⟩ := h.split
  rw [Reader.read_append, Reader.read_append, hx.read hb, List.nil_append]
  exact (read_cut_comment hs before u).trans (Reader.comments_prefix _ v)

/-- Each comment is read as it was written just when none holds a terminator. -/
theorem read_iff (h : Written bodies t) :
    (after []).read t = after bodies ↔ ∀ b ∈ bodies, ¬ Terminates b := by
  refine ⟨fun hread b hb hterminates => ?_, fun hb => h.read hb []⟩
  obtain ⟨body, hfind⟩ := Option.isSome_iff_exists.mp
    (List.find?_isSome (p := fun b => Terminates b).mpr ⟨b, hb, decide_eq_true hterminates⟩)
  obtain ⟨hbody, before, behind, rfl, hbefore⟩ := List.find?_eq_some_iff_append.mp hfind
  obtain ⟨s, u, rfl, hs⟩ := (of_decide_eq_true hbody).first
  have hcut := h.read_cut (fun b hb => by simpa using hbefore b hb) hs
  rw [hread, after, List.prefix_append_right_inj] at hcut
  have hlength := congrArg String.length (List.cons_prefix_cons.mp hcut).1
  rw [String.length_append, String.length_append] at hlength
  have htwo : "*/".length = 2 := rfl
  omega

end Written

end TypedClient.Proofs.BlockComments
