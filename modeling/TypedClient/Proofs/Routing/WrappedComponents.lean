import TypedClient.Proofs.Literal.Reading
import TypedClient.Proofs.Routing.ExportLines

namespace TypedClient.Proofs.WrappedComponents

open TypedClient.Literal TypedClient.Routing TypedClient.Text
open TypedClient.Text.Regex (Goes Takes lineAfter matchFront? run_eq_none search? searchFrom?)
open TypedClient.Proofs.ExportLines TypedClient.Proofs.LiteralGrammar TypedClient.Proofs.LiteralReading
open TypedClient.Proofs.RegexChoices TypedClient.Proofs.RegexMatches

/-- A call around a component: a callee with the members taken of it, and the blanks at the
parentheses. -/
structure Call where
  callee : List Char
  members : List (List Char)
  before : List Char
  inside : List Char
  behind : List Char
  isName_callee : isName View.inIdentifier callee = true
  isName_member : ∀ m ∈ members, isName View.inIdentifier m = true
  blanks_before : Blanks before
  blanks_inside : Blanks inside
  blanks_behind : Blanks behind

def Call.opened (c : Call) : List Char :=
  c.members.flatMap ('.' :: ·) ++ (c.before ++ '(' :: c.inside)

def written (name : List Char) : List Call → List Char → List Char
  | [], tail => name ++ tail
  | c :: cs, tail => c.callee ++ (c.opened ++ written name cs (c.behind ++ ')' :: tail))

/-- An argument that ends the search for a name: one whose callee has members, or whose callee and a
blank behind it read as the beginning of a function or a class. -/
def Call.hides (c : Call) : Bool :=
  !c.members.isEmpty || (View.isNameless c.callee && !c.before.isEmpty)

/-- The call at which the search for a name ends. Only members count against the outermost one. -/
def hidingCall? : List Call → Option Call
  | [] => none
  | c :: cs => if c.members.isEmpty then cs.find? Call.hides else some c

def shown (url : String) (word : List Char) : String :=
  if View.isNameless word then View.fileComponent url else String.ofList word

def component (url : String) (name : List Char) (calls : List Call) : String :=
  match hidingCall? calls with
  | none => String.ofList name
  | some c => shown url c.callee

variable {s t : Cursor} {b b' r w kw : List Char} {x : Char} {start : Bool} {groups : List (Nat × Span)}

/-- A character that may stand behind a name and blanks: neither a part of the name nor the asterisk of
a generator. -/
def Stops (x : Char) : Prop :=
  isBlank x = false ∧ View.inIdentifier x = false ∧ x ≠ '*'

instance : DecidablePred Stops := fun x =>
  inferInstanceAs (Decidable (isBlank x = false ∧ View.inIdentifier x = false ∧ x ≠ '*'))

section Characters

theorem inIdentifier_of_isWordPart {c : Char} (h : isWordPart c = true) : View.inIdentifier c = true := by
  have hascii : c.toNat < 0x80 := by
    obtain h | h | h | rfl | rfl := toNat_of_isWordPart h
    all_goals first | omega | decide
  rw [View.inIdentifier, isWord, if_pos hascii, isLetterOrDigit, isLetter, isDigit]
  simp only [isWordPart, isWordStart, Bool.or_eq_true, decide_eq_true_eq, beq_iff_eq] at h ⊢
  tauto

theorem not_inIdentifier_of_isBlank {c : Char} (h : isBlank c = true) : View.inIdentifier c = false := by
  have hall : ∀ range ∈ blankRanges, ∀ n ∈ List.range' range.1 (range.2 + 1 - range.1),
      View.inIdentifier (Char.ofNat n) = false := by decide +kernel
  rw [isBlank, inRanges, List.any_eq_true] at h
  obtain ⟨range, hmem, hrange⟩ := h
  rw [Bool.and_eq_true, decide_eq_true_eq, decide_eq_true_eq] at hrange
  rw [← Char.ofNat_toNat c]
  exact hall range hmem _ (List.mem_range'_1.mpr (by omega))

theorem Stops.isWordStart (hx : Stops x) : isWordStart x = false := by
  by_contra h
  have hpart := inIdentifier_of_isWordPart (isWordPart_of_isWordStart (by simpa using h))
  rw [hx.2.1] at hpart
  cases hpart

theorem all_inIdentifier (h : isName View.inIdentifier w = true) : ∀ c ∈ w, View.inIdentifier c = true := by
  obtain ⟨c, cs, rfl, hc, hcs⟩ := exists_of_isName h
  exact List.forall_mem_cons.mpr ⟨inIdentifier_of_isWordPart (isWordPart_of_isWordStart hc), hcs⟩

theorem halts_isBlank_name (h : isName View.inIdentifier w = true) (rest : List Char) :
    Halts isBlank (w ++ rest) := by
  obtain ⟨c, cs, rfl, hc, -⟩ := exists_of_isName h
  exact halts_cons (not_isBlank_of_isWordPart (isWordPart_of_isWordStart hc)) _

theorem stop_ne_name {rest : List Char} (hx : isWordStart x = false)
    (h : isName View.inIdentifier w = true) : x :: r ≠ w ++ rest := by
  intro heq
  obtain ⟨c, cs, rfl, hc, -⟩ := exists_of_isName h
  obtain rfl := (List.cons.inj heq).1
  rw [hx] at hc
  cases hc

theorem halts_inIdentifier_stop (hb : Blanks b) (hx : Stops x) (rest : List Char) :
    Halts View.inIdentifier (b ++ x :: rest) := by
  cases b with
  | nil => exact halts_cons (hx.2.1) rest
  | cons c b => exact halts_cons (not_inIdentifier_of_isBlank (hb c List.mem_cons_self)) _

end Characters

def asyncWord : Regex :=
  .seq (View.keyword "async") View.someBlanks

def declaratorWord : Regex :=
  .group 1 View.declarator

def nameWord : Regex :=
  .group 2 (View.identifier View.inIdentifier)

def exported : List Regex :=
  [.opt asyncWord, .opt declaratorWord, nameWord]

def argument : List Regex :=
  [.opt asyncWord, .opt declaratorWord, .opt nameWord]

theorem defaultExport_eq : View.defaultExport =
    .seqs (opening "default" ++ exported) :=
  rfl

theorem callArgument_eq : View.callArgument =
    .seqs ([View.blanks, .char '(', View.blanks] ++ argument) :=
  rfl

/-- The text begins with a keyword of functions or classes and blanks, perhaps with an asterisk between,
and `rest` stands behind them. -/
def Introduces (cs rest : List Char) : Prop :=
  ∃ kw v b, (View.isNameless kw = true ∧ isName View.inIdentifier kw = true) ∧ (v = [] ∨ v = ['*']) ∧
    (Blanks b ∧ b ≠ []) ∧ cs = kw ++ (v ++ (b ++ rest))

section Goes

theorem name_of_goes (h : Goes nameWord s t) : ∃ w, isName View.inIdentifier w = true ∧ s.rest = w ++ t.rest := by
  obtain ⟨u, h, hu⟩ := goes_group h
  obtain ⟨w, hw, hrest, -⟩ := goes_identifier h
  exact ⟨w, hw, hu ▸ hrest⟩

theorem introduces_of_async (h : Goes asyncWord s t) : Introduces s.rest t.rest := by
  cases h with
  | seq hasync hspace =>
    obtain ⟨b, hne, hb, hrest, -⟩ := goes_some hspace
    refine ⟨"async".toList, [], b, by decide, .inl rfl, ⟨hb, hne⟩, ?_⟩
    rw [(goes_text hasync).1, hrest, List.nil_append]

theorem keyword_of_declarator (h : Goes declaratorWord s t) :
    ∃ kw v b, (kw = "function".toList ∨ kw = "class".toList) ∧ (v = [] ∨ v = ['*']) ∧
      (Blanks b ∧ b ≠ []) ∧ s.rest = kw ++ (v ++ (b ++ t.rest)) := by
  obtain ⟨u, h, hu⟩ := goes_group h
  rw [hu]
  cases h with
  | seq hword hspace =>
    obtain ⟨b, hne, hb, hrest, -⟩ := goes_some hspace
    cases hword with
    | left hfunction =>
      cases hfunction with
      | seq htext hstar =>
        obtain hstar | rfl := goes_opt hstar
        · refine ⟨_, ['*'], b, .inl rfl, .inr rfl, ⟨hb, hne⟩, ?_⟩
          rw [(goes_text htext).1, (goes_char hstar).1, hrest, List.singleton_append]
        · refine ⟨_, [], b, .inl rfl, .inl rfl, ⟨hb, hne⟩, ?_⟩
          rw [(goes_text htext).1, hrest, List.nil_append]
    | right hclass =>
      refine ⟨_, [], b, .inr rfl, .inl rfl, ⟨hb, hne⟩, ?_⟩
      rw [(goes_text hclass).1, hrest, List.nil_append]

theorem introduces_of_declarator (h : Goes declaratorWord s t) : Introduces s.rest t.rest := by
  obtain ⟨kw, v, b, hkw, hrest⟩ := keyword_of_declarator h
  refine ⟨kw, v, b, ?_, hrest⟩
  obtain rfl | rfl := hkw <;> decide

theorem exists_name_of_goes (h : Goes (.seqs [.opt declaratorWord, nameWord]) s t) :
    ∃ w rest, isName View.inIdentifier w = true ∧ s.rest = w ++ rest := by
  obtain ⟨u, hdeclarator, hbehind⟩ := goes_seqs_cons.mp h
  obtain hdeclarator | rfl := goes_opt hdeclarator
  · obtain ⟨kw, v, b, ⟨-, hkw⟩, -, -, hrest⟩ := introduces_of_declarator hdeclarator
    exact ⟨kw, _, hkw, hrest⟩
  · obtain ⟨v, hname, -⟩ := goes_seqs_cons.mp hbehind
    obtain ⟨w, hw, hrest⟩ := name_of_goes hname
    exact ⟨w, _, hw, hrest⟩

/-- A keyword at the beginning of a text is the word that the text begins with. -/
theorem keyword_unique {v rest : List Char} (hw : isName View.inIdentifier w = true)
    (hr : Halts View.inIdentifier r) (hkw : isName View.inIdentifier kw = true) (hv : v = [] ∨ v = ['*'])
    (hb : Blanks b ∧ b ≠ []) (heq : w ++ r = kw ++ (v ++ (b ++ rest))) :
    w = kw ∧ r = v ++ (b ++ rest) := by
  have hhalts : Halts View.inIdentifier (v ++ (b ++ rest)) := by
    obtain rfl | rfl := hv
    · obtain ⟨c, b, rfl⟩ := List.exists_cons_of_ne_nil hb.2
      exact halts_cons (not_inIdentifier_of_isBlank (hb.1 c List.mem_cons_self)) _
    · exact halts_cons (by decide) _
  exact append_inj_of_halts (all_inIdentifier hw) (all_inIdentifier hkw) hr hhalts heq

theorem blanks_of_introduces {rest : List Char} (hw : isName View.inIdentifier w = true) (hb : Blanks b)
    (hx : Stops x) (h : Introduces (w ++ (b ++ x :: r)) rest) :
    View.isNameless w = true ∧ ∃ b', (Blanks b' ∧ b' ≠ []) ∧ b ++ x :: r = b' ++ rest := by
  obtain ⟨kw, v, b', ⟨hkw, hname⟩, hv, hb', heq⟩ := h
  obtain ⟨rfl, hbehind⟩ := keyword_unique hw (halts_inIdentifier_stop hb hx r) hname hv hb' heq
  obtain rfl | rfl := hv
  · exact ⟨hkw, b', hb', hbehind⟩
  · cases b with
    | nil => exact absurd ((List.cons.inj hbehind).1 ▸ hx) (by decide)
    | cons c b => exact absurd ((List.cons.inj hbehind).1 ▸ hb c List.mem_cons_self) (by decide)

/-- A name of a component, or one right before a parenthesis, is not taken for a keyword. -/
theorem not_introduces {rest : List Char} (hw : isName View.inIdentifier w = true) (hb : Blanks b)
    (hx : Stops x) (hplain : View.isNameless w = false ∨ b = []) :
    ¬ Introduces (w ++ (b ++ x :: r)) rest := by
  intro h
  obtain ⟨hnameless, b', ⟨hb', hne⟩, hbehind⟩ := blanks_of_introduces hw hb hx h
  obtain hplain | rfl := hplain
  · rw [hnameless] at hplain
    cases hplain
  · obtain ⟨c, b', rfl⟩ := List.exists_cons_of_ne_nil hne
    have hblank := hb' c List.mem_cons_self
    rw [← (List.cons.inj hbehind).1, hx.1] at hblank
    cases hblank

theorem not_introduces_name {w' rest : List Char} (hw : isName View.inIdentifier w = true) (hb : Blanks b)
    (hx : Stops x) (hw' : isName View.inIdentifier w' = true) :
    ¬ Introduces (w ++ (b ++ x :: r)) (w' ++ rest) := by
  intro h
  obtain ⟨-, b', ⟨hb', -⟩, hbehind⟩ := blanks_of_introduces hw hb hx h
  obtain ⟨-, heq⟩ := append_inj_of_halts hb hb' (halts_cons hx.1 r)
    (halts_isBlank_name hw' rest) hbehind
  exact stop_ne_name hx.isWordStart hw' heq

theorem not_introduces_stop {rest : List Char} (hx : isWordStart x = false) : ¬ Introduces (x :: r) rest := by
  rintro ⟨kw, v, b, ⟨-, hname⟩, -, -, heq⟩
  exact stop_ne_name hx hname heq

end Goes

section Takes

variable {gap inside rest : List Char}

theorem takes_nameWord (hw : isName View.inIdentifier w = true) (hr : Halts View.inIdentifier r)
    (start : Bool) (groups : List (Nat × Span)) :
    Takes nameWord ⟨w ++ r, start, groups⟩
      ⟨r, lineAfter start w, (2, ⟨w ++ r, r⟩) :: groups⟩ :=
  (takes_identifier hw hr start groups).group

theorem takes_exported_name (hw : isName View.inIdentifier w = true) (hr : Halts View.inIdentifier r)
    (hkeyword : ∀ w' rest, isName View.inIdentifier w' = true → ¬ Introduces (w ++ r) (w' ++ rest))
    (start : Bool) :
    Takes (.seqs [.opt declaratorWord, nameWord]) ⟨w ++ r, start, []⟩
      ⟨r, lineAfter start w, [(2, ⟨w ++ r, r⟩)]⟩ := by
  have hname : Takes (.seqs [nameWord]) ⟨w ++ r, start, []⟩ _ :=
    (takes_nameWord hw hr start []).seq (takes_empty _)
  refine takes_behind_opt (fun t h => ?_) hname
  cases h with
  | seq hdeclarator hbehind =>
    obtain ⟨u, hbehind, -⟩ := goes_seqs_cons.mp hbehind
    obtain ⟨w', hw', hrest⟩ := name_of_goes hbehind
    exact hkeyword w' _ hw' (hrest ▸ introduces_of_declarator hdeclarator)

theorem takes_exported (hw : isName View.inIdentifier w = true) (hr : Halts View.inIdentifier r)
    (hkeyword : ∀ w' rest, isName View.inIdentifier w' = true → ¬ Introduces (w ++ r) (w' ++ rest))
    (start : Bool) :
    Takes (.seqs exported) ⟨w ++ r, start, []⟩ ⟨r, lineAfter start w, [(2, ⟨w ++ r, r⟩)]⟩ := by
  refine takes_behind_opt (fun t h => ?_) (takes_exported_name hw hr hkeyword start)
  cases h with
  | seq hasync hbehind =>
    obtain ⟨w', rest, hw', hrest⟩ := exists_name_of_goes hbehind
    exact hkeyword w' rest hw' (hrest ▸ introduces_of_async hasync)

theorem takes_argument_name (hw : isName View.inIdentifier w = true) (hr : Halts View.inIdentifier r)
    (hkeyword : ∀ rest, ¬ Introduces (w ++ r) rest) (start : Bool) :
    Takes (.seqs argument) ⟨w ++ r, start, []⟩ ⟨r, lineAfter start w, [(2, ⟨w ++ r, r⟩)]⟩ := by
  have hasync := takes_nothing (s := ⟨w ++ r, start, []⟩) fun t h => hkeyword _ (introduces_of_async h)
  have hdeclarator := takes_nothing (s := ⟨w ++ r, start, []⟩) fun t h =>
    hkeyword _ (introduces_of_declarator h)
  exact hasync.seq (hdeclarator.seq ((takes_nameWord hw hr start []).left.seq (takes_empty _)))

theorem takes_name_stop (hx : isWordStart x = false) (start : Bool) (groups : List (Nat × Span)) :
    Takes (.seqs [.opt nameWord]) ⟨x :: r, start, groups⟩ ⟨x :: r, start, groups⟩ := by
  have hname := takes_nothing (a := nameWord) (s := ⟨x :: r, start, groups⟩) fun t h => by
    obtain ⟨w, hw, hrest⟩ := name_of_goes h
    exact stop_ne_name hx hw hrest
  exact hname.seq (takes_empty _)

theorem takes_argument_stop (hx : isWordStart x = false) (start : Bool) (groups : List (Nat × Span)) :
    Takes (.seqs [.opt declaratorWord, .opt nameWord]) ⟨x :: r, start, groups⟩ ⟨x :: r, start, groups⟩ := by
  have hdeclarator := takes_nothing (s := ⟨x :: r, start, groups⟩) fun t h =>
    not_introduces_stop hx (introduces_of_declarator h)
  exact hdeclarator.seq (takes_name_stop hx start groups)

theorem takes_asyncWord (hb : Blanks b ∧ b ≠ []) (hr : Halts isBlank r) (start : Bool) :
    ∃ start', Takes asyncWord ⟨"async".toList ++ (b ++ r), start, []⟩ ⟨r, start', []⟩ :=
  ⟨_, (takes_text "async".toList _ start []).seq (takes_someBlanks hb hr _ _)⟩

theorem takes_declaratorWord {kw : List Char} (hkw : kw = "function".toList ∨ kw = "class".toList)
    (hb : Blanks b ∧ b ≠ []) (hr : Halts isBlank r) (start : Bool) :
    ∃ start', Takes declaratorWord ⟨kw ++ (b ++ r), start, []⟩
      ⟨r, start', [(1, ⟨kw ++ (b ++ r), r⟩)]⟩ := by
  have hspace := fun start' => takes_someBlanks hb hr start' []
  obtain rfl | rfl := hkw
  · have hstar := takes_nothing (a := .char '*')
      (s := ⟨b ++ r, lineAfter start "function".toList, []⟩) fun t h => by
        obtain ⟨c, b, rfl⟩ := List.exists_cons_of_ne_nil hb.2
        exact absurd ((List.cons.inj (goes_char h).1).1 ▸ hb.1 c List.mem_cons_self) (by decide)
    exact ⟨_, (((takes_text "function".toList _ start []).seq hstar).left.seq (hspace _)).group⟩
  · have hclass := Takes.right (a := .seq (View.keyword "function") (.opt (.char '*'))) (fun t h => by
        cases h with
        | seq hfunction hstar => exact absurd (List.cons.inj (goes_text hfunction).1).1 (by decide))
      (takes_text "class".toList (b ++ r) start [])
    exact ⟨_, (hclass.seq (hspace _)).group⟩

/-- A keyword with blanks behind it is taken for the beginning of an argument without a name. -/
theorem takes_argument_keyword (hw : View.isNameless w = true) (hb : Blanks b ∧ b ≠ []) (hx : Stops x)
    (start : Bool) :
    ∃ t, Takes (.seqs argument) ⟨w ++ (b ++ x :: r), start, []⟩ t ∧ t.group? 2 = none := by
  by_cases hasync : w = "async".toList
  · subst hasync
    obtain ⟨start', htakes⟩ := takes_asyncWord hb (halts_cons hx.1 r) start
    exact ⟨_, htakes.left.seq (takes_argument_stop hx.isWordStart start' []), rfl⟩
  · have hkw : w = "function".toList ∨ w = "class".toList := by
      simp only [View.isNameless, Bool.or_eq_true, decide_eq_true_eq] at hw
      tauto
    obtain ⟨start', htakes⟩ := takes_declaratorWord hkw hb (halts_cons hx.1 r) start
    have hnothing := takes_nothing (a := asyncWord) (s := ⟨w ++ (b ++ x :: r), start, []⟩) fun t h => by
      cases h with
      | seq htext hspace =>
        obtain rfl | rfl := hkw <;>
          exact absurd (List.cons.inj (goes_text htext).1).1 (by decide)
    exact ⟨_, hnothing.seq (htakes.left.seq (takes_name_stop hx.isWordStart start' _)), rfl⟩

theorem takes_parenthesis (hgap : Blanks gap) (hinside : Blanks inside) (hrest : Halts isBlank rest) :
    ∃ start, Takes (.seqs [View.blanks, .char '(', View.blanks])
      ⟨gap ++ '(' :: (inside ++ rest), true, []⟩ ⟨rest, start, []⟩ :=
  ⟨_, (takes_blanks hgap (halts_cons (by decide) _) true []).seq ((takes_char '(' _ _ []).seq
    ((takes_blanks hinside hrest _ []).seq (takes_empty _)))⟩

end Takes

section InnerName

variable {gap inside rest name : List Char} {fuel : Nat}

theorem text_append (w rest : List Char) : Span.text ⟨w ++ rest, rest⟩ = w := by
  simp [Span.text]

theorem innerName_named {text : List Char} (hgap : Blanks gap) (hinside : Blanks inside)
    (htext : Halts isBlank text) (hnamed : ∀ start, ∃ start',
      Takes (.seqs argument) ⟨text, start, []⟩ ⟨r, start', [(2, ⟨w ++ r, r⟩)]⟩) :
    View.innerName (fuel + 1) name (gap ++ '(' :: (inside ++ text)) = View.innerName fuel w r := by
  obtain ⟨start, hopen⟩ := takes_parenthesis hgap hinside htext
  obtain ⟨start', hargument⟩ := hnamed start
  have hrun := (takes_seqs_append hopen hargument).run
  rw [← callArgument_eq] at hrun
  rw [View.innerName, matchFront?, hrun]
  change View.innerName fuel (Span.text ⟨w ++ r, r⟩) r = _
  rw [text_append]

theorem innerName_nameless {text : List Char} (hgap : Blanks gap) (hinside : Blanks inside)
    (htext : Halts isBlank text) (hnameless : ∀ start, ∃ t,
      Takes (.seqs argument) ⟨text, start, []⟩ t ∧ t.group? 2 = none) :
    View.innerName (fuel + 1) name (gap ++ '(' :: (inside ++ text)) = "function".toList := by
  obtain ⟨start, hopen⟩ := takes_parenthesis hgap hinside htext
  obtain ⟨t, hargument, hnone⟩ := hnameless start
  have hrun := (takes_seqs_append hopen hargument).run
  rw [← callArgument_eq] at hrun
  rw [View.innerName, matchFront?, hrun]
  simp only [hnone]

theorem innerName_name (hgap : Blanks gap) (hinside : Blanks inside)
    (hw : isName View.inIdentifier w = true) (hb : Blanks b) (hx : Stops x)
    (hplain : View.isNameless w = false ∨ b = []) :
    View.innerName (fuel + 1) name (gap ++ '(' :: (inside ++ (w ++ (b ++ x :: r)))) =
      View.innerName fuel w (b ++ x :: r) := by
  exact innerName_named hgap hinside (halts_isBlank_name hw _) fun start =>
    ⟨_, takes_argument_name hw (halts_inIdentifier_stop hb hx r)
      (fun rest => not_introduces hw hb hx hplain) start⟩

theorem innerName_keyword (hgap : Blanks gap) (hinside : Blanks inside)
    (hw : isName View.inIdentifier w = true) (hnameless : View.isNameless w = true)
    (hb : Blanks b ∧ b ≠ []) (hx : Stops x) :
    View.innerName (fuel + 1) name (gap ++ '(' :: (inside ++ (w ++ (b ++ x :: r)))) =
      "function".toList := by
  exact innerName_nameless hgap hinside (halts_isBlank_name hw _) fun start =>
    takes_argument_keyword hnameless hb hx start

theorem innerName_stop (hb : Blanks b) (hx : isBlank x = false) (hcall : x ≠ '(') :
    View.innerName fuel name (b ++ x :: r) = name := by
  cases fuel with
  | zero => rfl
  | succ fuel =>
    have hnone : ∀ t, ¬ Goes View.callArgument ⟨b ++ x :: r, true, []⟩ t := by
      intro t h
      rw [callArgument_eq, goes_seqs_append] at h
      obtain ⟨u, hopen, -⟩ := h
      obtain ⟨s₁, hblanks, hopen⟩ := goes_seqs_cons.mp hopen
      obtain ⟨s₂, hparenthesis, -⟩ := goes_seqs_cons.mp hopen
      obtain ⟨b', hb', hrest, -⟩ := goes_many hblanks
      rw [(goes_char hparenthesis).1] at hrest
      obtain ⟨-, heq⟩ := append_inj_of_halts hb hb' (halts_cons hx r)
        (halts_cons (by decide) s₂.rest) hrest
      exact hcall (List.cons.inj heq).1
    rw [View.innerName, matchFront?, run_eq_none hnone]

end InnerName

section Calls

variable {name : List Char} {calls : List Call}

def firstWord (name : List Char) : List Call → List Char
  | [] => name
  | c :: _ => c.callee

def behindWord (name : List Char) : List Call → List Char → List Char
  | [], tail => tail
  | c :: cs, tail => c.opened ++ written name cs (c.behind ++ ')' :: tail)

theorem written_eq (name : List Char) (calls : List Call) (tail : List Char) :
    written name calls tail = firstWord name calls ++ behindWord name calls tail := by
  cases calls <;> rfl

theorem isName_firstWord (hname : isName View.inIdentifier name = true) (calls : List Call) :
    isName View.inIdentifier (firstWord name calls) = true := by
  cases calls with
  | nil => exact hname
  | cons c cs => exact c.isName_callee

theorem length_le_behindWord (name : List Char) (calls : List Call) (tail : List Char) :
    calls.length ≤ (behindWord name calls tail).length := by
  induction calls generalizing tail with
  | nil => exact Nat.zero_le _
  | cons c cs ih =>
    have hinside := ih (c.behind ++ ')' :: tail)
    rw [behindWord, written_eq]
    simp only [Call.opened, List.length_append, List.length_cons]
    omega

def within : List Call → List Char → List Char
  | [], inner => inner
  | c :: cs, inner => c.callee ++ (c.opened ++ within cs inner)

def Call.beginsKeyword (c : Call) : Bool :=
  c.members.isEmpty && (View.isNameless c.callee && !c.before.isEmpty)

theorem opened_append {c : Call} (hc : c.members = []) (rest : List Char) :
    c.opened ++ rest = c.before ++ '(' :: (c.inside ++ rest) := by
  rw [Call.opened, hc]
  simp

theorem exists_stop_opened (c : Call) (rest : List Char) :
    ∃ b x r, c.opened ++ rest = b ++ x :: r ∧ Blanks b ∧ Stops x ∧
      if c.beginsKeyword then View.isNameless c.callee = true ∧ b ≠ []
      else View.isNameless c.callee = false ∨ b = [] := by
  cases hmembers : c.members with
  | nil =>
    refine ⟨c.before, '(', c.inside ++ rest, opened_append hmembers rest, c.blanks_before, by decide, ?_⟩
    cases hnameless : View.isNameless c.callee <;> cases hbefore : c.before <;>
      simp [Call.beginsKeyword, hmembers, hnameless, hbefore]
  | cons m ms =>
    rw [Call.opened, Call.beginsKeyword, hmembers]
    exact ⟨[], '.', _, rfl, nofun, by decide, .inr rfl⟩

theorem innerName_members {c : Call} {fuel : Nat} (hc : c.members ≠ []) (rest : List Char) :
    View.innerName fuel c.callee (c.opened ++ rest) = c.callee := by
  obtain ⟨m, ms, hmembers⟩ := List.exists_cons_of_ne_nil hc
  rw [Call.opened, hmembers]
  exact innerName_stop (b := []) (x := '.') blanks_nil (by decide) (by decide)

theorem hidingCall?_members {c : Call} (hc : c.members ≠ []) (cs : List Call) :
    hidingCall? (c :: cs) = some c := by
  rw [hidingCall?, if_neg (by simpa using hc)]

theorem hidingCall?_cons {c d : Call} (hc : c.members = []) (cs : List Call) :
    hidingCall? (c :: d :: cs) = if d.beginsKeyword then some d else hidingCall? (d :: cs) := by
  rw [hidingCall?, hidingCall?, hc, List.find?_cons, Call.hides, Call.beginsKeyword]
  cases d.members.isEmpty <;> cases View.isNameless d.callee && !d.before.isEmpty <;> rfl

/-- The search goes through calls to what stands in them, unless one of them hides it. -/
theorem shown_innerName_within {inner : List Char} {answer : String} {steps : Nat} (url : String)
    (hinner : ∀ fuel name gap inside, steps ≤ fuel → Blanks gap → Blanks inside →
      shown url (View.innerName (fuel + 1) name (gap ++ '(' :: (inside ++ inner))) = answer)
    (c : Call) (cs : List Call) {fuel : Nat} (hfuel : cs.length + steps < fuel) :
    shown url (View.innerName fuel c.callee (c.opened ++ within cs inner)) =
      match hidingCall? (c :: cs) with
      | none => answer
      | some d => shown url d.callee := by
  induction cs generalizing c fuel with
  | nil =>
    by_cases hmembers : c.members = []
    · obtain ⟨fuel, rfl⟩ := Nat.exists_eq_succ_of_ne_zero (Nat.ne_zero_of_lt hfuel)
      have hsteps : steps ≤ fuel := by
        rw [List.length_nil] at hfuel
        omega
      rw [opened_append hmembers, within,
        hinner fuel c.callee _ _ hsteps c.blanks_before c.blanks_inside, hidingCall?, hmembers]
      rfl
    · rw [innerName_members hmembers, hidingCall?_members hmembers]
  | cons d ds ih =>
    by_cases hmembers : c.members = []
    · obtain ⟨fuel, rfl⟩ := Nat.exists_eq_succ_of_ne_zero (Nat.ne_zero_of_lt hfuel)
      have hbound : ds.length + steps < fuel := by
        rw [List.length_cons] at hfuel
        omega
      have hinside := ih d hbound
      obtain ⟨b, x, r, hopened, hb, hx, hkeyword⟩ := exists_stop_opened d (within ds inner)
      rw [opened_append hmembers, within, hopened, hidingCall?_cons hmembers]
      rw [hopened] at hinside
      split at hkeyword
      · rename_i hbegins
        rw [innerName_keyword c.blanks_before c.blanks_inside d.isName_callee hkeyword.1 ⟨hb, hkeyword.2⟩ hx,
          if_pos hbegins]
        exact (if_pos hkeyword.1).symm
      · rename_i hbegins
        rw [innerName_name c.blanks_before c.blanks_inside d.isName_callee hb hx hkeyword, if_neg hbegins,
          hinside]
    · rw [innerName_members hmembers, hidingCall?_members hmembers]

/-- A name within calls stands between the beginnings of the calls and what closes them. -/
theorem exists_written_eq (name : List Char) (calls : List Call) (hb : Blanks b) (hx : Stops x)
    (hcall : x ≠ '(') : ∃ b' x' r', Blanks b' ∧ Stops x' ∧ x' ≠ '(' ∧
      written name calls (b ++ x :: r) = within calls (name ++ (b' ++ x' :: r')) := by
  induction calls generalizing b x r with
  | nil => exact ⟨b, x, r, hb, hx, hcall, rfl⟩
  | cons c cs ih =>
    obtain ⟨b', x', r', hb', hx', hcall', heq⟩ :=
      ih (r := b ++ x :: r) c.blanks_behind (x := ')') (by decide) (by decide)
    exact ⟨b', x', r', hb', hx', hcall', by rw [written, within, heq]⟩

theorem exists_stop (name : List Char) (calls : List Call) (hb : Blanks b) (hx : Stops x) :
    ∃ b' x' r', behindWord name calls (b ++ x :: r) = b' ++ x' :: r' ∧ Blanks b' ∧ Stops x' := by
  cases calls with
  | nil => exact ⟨b, x, r, rfl, hb, hx⟩
  | cons c cs =>
    obtain ⟨b', x', r', hopened, hb', hx', -⟩ :=
      exists_stop_opened c (written name cs (c.behind ++ ')' :: (b ++ x :: r)))
    exact ⟨b', x', r', hopened, hb', hx'⟩

theorem shown_innerName (url : String) {fuel : Nat} (hname : isName View.inIdentifier name = true)
    (hown : View.isNameless name = false) (hb : Blanks b) (hx : Stops x) (hcall : x ≠ '(')
    (hfuel : calls.length ≤ fuel) :
    shown url (View.innerName fuel (firstWord name calls) (behindWord name calls (b ++ x :: r))) =
      component url name calls := by
  cases calls with
  | nil =>
    rw [behindWord, innerName_stop hb hx.1 hcall, firstWord, shown, hown]
    rfl
  | cons c cs =>
    obtain ⟨b', x', r', hb', hx', hcall', hwritten⟩ :=
      exists_written_eq name cs (r := b ++ x :: r) c.blanks_behind (x := ')') (by decide) (by decide)
    have hinner : ∀ fuel w gap inside, 0 ≤ fuel → Blanks gap → Blanks inside →
        shown url (View.innerName (fuel + 1) w (gap ++ '(' :: (inside ++ (name ++ (b' ++ x' :: r'))))) =
          String.ofList name := by
      intro fuel w gap inside _ hgap hinside
      rw [innerName_name hgap hinside hname hb' hx' (.inl hown), innerName_stop hb' hx'.1 hcall', shown,
        hown]
      rfl
    rw [firstWord, behindWord, hwritten, shown_innerName_within url hinner c cs hfuel]
    rfl

end Calls

section Parsing

variable {source before name gap after : List Char} {calls : List Call}

theorem goes_defaultExport {front back : List Char} {u : Cursor}
    (h : Goes View.defaultExport ⟨back, lineAfter true front, []⟩ u) :
    ∃ rest, Exports "default" (front ++ back) front rest := by
  rw [defaultExport_eq, goes_seqs_append] at h
  obtain ⟨t, hopening, -⟩ := h
  exact ⟨t.rest, (exports_of_goes hopening).1⟩

theorem search?_exported {text : List Char} (htext : Halts isBlank text)
    (hnamed : ∀ start, ∃ start', Takes (.seqs exported) ⟨text, start, []⟩ ⟨r, start', groups⟩)
    (h : Exports "default" source before text)
    (hfirst : ∀ before' rest', Exports "default" source before' rest' →
      before.length ≤ before'.length) :
    ∃ start, View.defaultExport.search? source = some ⟨r, start, groups⟩ := by
  obtain ⟨back, start, hback, hopening⟩ := takes_opening h (by decide) htext
  obtain ⟨start', htakes⟩ := hnamed start
  have hrun := (takes_seqs_append hopening htakes).run
  rw [← defaultExport_eq] at hrun
  refine ⟨_, searchFrom?_eq_some_iff.mpr ⟨before, back, hback, hrun, fun front' back' hsplit hlt u hgoes => ?_⟩⟩
  obtain ⟨rest', hexports⟩ := goes_defaultExport hgoes
  exact absurd hlt (Nat.not_lt_of_le (hfirst front' rest' (hsplit ▸ hexports)))

theorem search?_defaultExport {w : List Char} (hw : isName View.inIdentifier w = true)
    (hb : Blanks b) (hx : Stops x) (h : Exports "default" source before (w ++ (b ++ x :: r)))
    (hfirst : ∀ before' rest', Exports "default" source before' rest' →
      before.length ≤ before'.length) :
    ∃ start, View.defaultExport.search? source =
      some ⟨b ++ x :: r, start, [(2, ⟨w ++ (b ++ x :: r), b ++ x :: r⟩)]⟩ := by
  exact search?_exported (halts_isBlank_name hw _) (fun start => ⟨_, takes_exported hw
    (halts_inIdentifier_stop hb hx r) (fun w' rest hw' => not_introduces_name hw hb hx hw') start⟩)
    h hfirst

theorem componentName?_of_found {url : String} {start : Bool} {w rest : List Char}
    (h : View.defaultExport.search? source = some ⟨rest, start, [(2, ⟨w ++ rest, rest⟩)]⟩) :
    View.componentName? url source = some (shown url (View.innerName (rest.length + 1) w rest)) := by
  rw [View.componentName?, h]
  change some (shown url (View.innerName _ (Span.text ⟨w ++ rest, rest⟩) rest)) = _
  rw [text_append]

/-- A view whose first default export is a name within calls is named for that, unless a call hides it:
one with members, or one inside that reads as the beginning of a function or a class. -/
theorem parse_written {url : String} (hname : isName View.inIdentifier name = true)
    (hown : View.isNameless name = false) (hgap : Blanks gap)
    (h : Exports "default" source before (written name calls (gap ++ ';' :: after)))
    (hfirst : ∀ before' rest', Exports "default" source before' rest' →
      before.length ≤ before'.length) :
    View.parse url (String.ofList source) =
      (View.readConfig url source).map fun config => ⟨url, some (component url name calls), config⟩ := by
  obtain ⟨b, x, r, hbehind, hb, hx⟩ := exists_stop (r := after) name calls hgap (x := ';') (by decide)
  have hlength := length_le_behindWord name calls (gap ++ ';' :: after)
  have hshown := shown_innerName (r := after) (x := ';') url hname hown hgap (by decide) (by decide)
    (Nat.le_succ_of_le hlength)
  rw [written_eq, hbehind] at h
  obtain ⟨start, hsearch⟩ := search?_defaultExport (isName_firstWord hname calls) hb hx h hfirst
  rw [View.parse, String.toList_ofList, componentName?_of_found hsearch, ← hbehind, hshown]

/-- `memo(observer( View ))` is named for `View`. -/
theorem parse_written_observer :
    let observer : Call := ⟨"observer".toList, [], [], [' '], [' '], by decide, nofun, nofun,
      List.forall_mem_singleton.mpr (by decide), List.forall_mem_singleton.mpr (by decide)⟩
    let memo : Call := ⟨"memo".toList, [], [], [], [], by decide, nofun, nofun, nofun, nofun⟩
    written "View".toList [memo, observer] (";".toList) = "memo(observer( View ));".toList ∧
      View.parse "views/orders.tsx" "export default memo(observer( View ));" =
        (View.readConfig "views/orders.tsx" "export default memo(observer( View ));".toList).map
          fun config => ⟨"views/orders.tsx", some "View", config⟩ := by
  intro observer memo
  have hspace : Blanks [' '] ∧ [' '] ≠ [] := ⟨List.forall_mem_singleton.mpr (by decide), by decide⟩
  have hexports : Exports "default" "export default memo(observer( View ));".toList []
      (written "View".toList [memo, observer] ([] ++ ';' :: [])) :=
    ⟨nofun, [], [' '], [' '], nofun, hspace, hspace, by decide⟩
  exact ⟨by decide, parse_written (by decide) (by decide) blanks_nil hexports fun _ _ _ => Nat.zero_le _⟩

/-- A callee with a member is taken for the component. -/
theorem member_ends_search :
    let source := "export default React.memo(OrderList);"
    let memo : Call := ⟨"React".toList, ["memo".toList], [], [], [], by decide, by decide, nofun, nofun,
      nofun⟩
    Exports "default" source.toList [] (written "OrderList".toList [memo] [';']) ∧
      (View.parse "views/order-list.tsx" source).map View.component = .ok (some "React") := by
  intro source memo
  have hspace : Blanks [' '] ∧ [' '] ≠ [] := ⟨List.forall_mem_singleton.mpr (by decide), by decide⟩
  refine ⟨⟨nofun, [], [' '], [' '], nofun, hspace, hspace, by decide⟩, ?_⟩
  decide +kernel

end Parsing

end TypedClient.Proofs.WrappedComponents
