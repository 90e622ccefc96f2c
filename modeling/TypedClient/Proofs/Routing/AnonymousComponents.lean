import TypedClient.Proofs.Routing.WrappedComponents

namespace TypedClient.Proofs.AnonymousComponents

open TypedClient.Literal TypedClient.Routing TypedClient.Text
open TypedClient.Text.Regex (Goes Takes lineAfter search? searchFrom?)
open TypedClient.Proofs.ExportLines TypedClient.Proofs.LiteralGrammar TypedClient.Proofs.LiteralReading
open TypedClient.Proofs.RegexChoices TypedClient.Proofs.RegexMatches TypedClient.Proofs.WrappedComponents

/-- How the parameters of a function begin, in parentheses or behind parameters of types, and their
first word if they begin with one. A parameter is not named for a keyword, and no parenthesis stands
behind it. -/
inductive Signature : List Char → Option (List Char) → Prop
  | word {b w b' r : List Char} {x : Char} (hb : Blanks b) (hw : isName View.inIdentifier w = true)
      (hkeyword : w ≠ "function".toList ∧ w ≠ "class".toList) (hb' : Blanks b')
      (hx : Stops x) (hcall : x ≠ '(') : Signature ('(' :: (b ++ (w ++ (b' ++ x :: r)))) (some w)
  | other {b r : List Char} {x : Char} (hb : Blanks b)
      (hx : isBlank x = false ∧ isWordStart x = false) : Signature ('(' :: (b ++ x :: r)) none
  | types (r : List Char) : Signature ('<' :: r) none

inductive Asynchronous : List Char → Prop
  | no : Asynchronous []
  | yes {b : List Char} (hb : Blanks b ∧ b ≠ []) : Asynchronous ("async".toList ++ b)

/-- How a function without a name begins, by itself or as the argument of a call, and the word in it
that is taken for its name. Behind `function` or `async` and a blank the parameters are looked through
only if no call was entered. -/
inductive Anonymous (called : Bool) : List Char → Option (List Char) → Prop
  | function {a g p : List Char} {w : Option (List Char)} (ha : Asynchronous a) (hg : Blanks g)
      (hp : Signature p w) : Anonymous called (a ++ ("function".toList ++ (g ++ p)))
        (if called && !g.isEmpty then none else w)
  | generator {a g g' p : List Char} {w : Option (List Char)} (ha : Asynchronous a) (hg : Blanks g)
      (hg' : Blanks g') (hp : Signature p w) :
      Anonymous called (a ++ ("function".toList ++ (g ++ '*' :: (g' ++ p)))) none
  | asyncArrow {g p : List Char} {w : Option (List Char)} (hg : Blanks g) (hp : Signature p w) :
      Anonymous called ("async".toList ++ (g ++ p)) (if called && !g.isEmpty then none else w)
  | arrow {p : List Char} {w : Option (List Char)} (hcalled : called = true) (hp : Signature p w) :
      Anonymous called p none
  | shortArrow {a w b r : List Char} (ha : Asynchronous a) (hw : isName View.inIdentifier w = true)
      (hkeyword : w ≠ "function".toList ∧ w ≠ "class".toList) (hb : Blanks b) :
      Anonymous called (a ++ (w ++ (b ++ '=' :: '>' :: r))) (some w)

def named (url : String) : Option (List Char) → String
  | none => View.fileComponent url
  | some w => shown url w

def component (url : String) (calls : List WrappedComponents.Call) (word : Option (List Char)) :
    String :=
  match hidingCall? calls with
  | none => named url word
  | some c => shown url c.callee

variable {url : String} {b g p r w rest gap inside name : List Char} {word : Option (List Char)}
  {x : Char} {fuel : Nat} {start : Bool}

theorem Signature.exists_stop (hp : Signature p word) : ∃ x r, p = x :: r ∧ Stops x := by
  cases hp with
  | word | other => exact ⟨'(', _, rfl, by decide⟩
  | types r => exact ⟨'<', r, rfl, by decide⟩

theorem shown_nameless (hname : View.isNameless name = true) (url : String) :
    shown url name = View.fileComponent url :=
  if_pos hname

section Reads

variable {rs : List Regex} {text a core k : List Char} {found : Option (List Char × List Char)}

/-- What is taken for a name at the beginning of a text: a word, with what stands behind it, or
nothing. -/
inductive Reads (rs : List Regex) (text : List Char) : Option (List Char × List Char) → Prop
  | word {w rest : List Char} (h : ∀ start, ∃ start', Takes (.seqs rs) ⟨text, start, []⟩
      ⟨rest, start', [(2, ⟨w ++ rest, rest⟩)]⟩) : Reads rs text (some (w, rest))
  | nothing (h : ∀ start, ∃ t, Takes (.seqs rs) ⟨text, start, []⟩ t ∧ t.group? 2 = none) :
      Reads rs text none

theorem Reads.behind {a : Regex} (h : Reads rs core found)
    (ha : ∀ start, ∃ start', Takes a ⟨text, start, []⟩ ⟨core, start', []⟩) : Reads (a :: rs) text found := by
  cases h with
  | word h =>
    refine .word fun start => ?_
    obtain ⟨start', hfirst⟩ := ha start
    obtain ⟨start'', hbehind⟩ := h start'
    exact ⟨start'', hfirst.seq hbehind⟩
  | nothing h =>
    refine .nothing fun start => ?_
    obtain ⟨start', hfirst⟩ := ha start
    obtain ⟨t, hbehind, hnone⟩ := h start'
    exact ⟨t, hfirst.seq hbehind, hnone⟩

theorem Reads.asynchronous_yes (h : Reads rs core found) (hb : Blanks b ∧ b ≠ [])
    (hcore : Halts isBlank core) : Reads (.opt asyncWord :: rs) ("async".toList ++ b ++ core) found := by
  refine h.behind fun start => ?_
  rw [List.append_assoc]
  obtain ⟨start', htakes⟩ := takes_asyncWord hb hcore start
  exact ⟨start', htakes.left⟩

theorem Reads.asynchronous (h : Reads rs core found) (ha : Asynchronous a) (hcore : Halts isBlank core)
    (hasync : ∀ start t, ¬ Goes asyncWord ⟨core, start, []⟩ t) :
    Reads (.opt asyncWord :: rs) (a ++ core) found := by
  cases ha with
  | no => exact h.behind fun start => ⟨start, takes_nothing (hasync start)⟩
  | yes hb => exact h.asynchronous_yes hb hcore

theorem not_asyncWord (r : List Char) (start : Bool) (t : Cursor) :
    ¬ Goes asyncWord ⟨"function".toList ++ r, start, []⟩ t := by
  intro h
  cases h with
  | seq htext _ => exact absurd (List.cons.inj (goes_text htext).1).1 (by decide)

theorem halts_isBlank_function (r : List Char) : Halts isBlank ("function".toList ++ r) :=
  halts_append (w := "function".toList) (by decide) r

theorem isName_function : isName View.inIdentifier "function".toList = true := by
  decide

theorem keyword_of_goes {t : Cursor} (hw : isName View.inIdentifier w = true)
    (hr : Halts View.inIdentifier r) (h : Goes declaratorWord ⟨w ++ r, start, []⟩ t) :
    (w = "function".toList ∨ w = "class".toList) ∧
      ∃ v b, (v = [] ∨ v = ['*']) ∧ (Blanks b ∧ b ≠ []) ∧ r = v ++ (b ++ t.rest) := by
  obtain ⟨kw, v, b, hkw, hv, hb, heq⟩ := keyword_of_declarator h
  have hname : isName View.inIdentifier kw = true := by
    obtain rfl | rfl := hkw <;> decide
  obtain ⟨rfl, hbehind⟩ := keyword_unique hw hr hname hv hb heq
  exact ⟨hkw, v, b, hv, hb, hbehind⟩

theorem reads_word (hw : isName View.inIdentifier w = true) (hr : Halts View.inIdentifier r)
    (hdeclarator : ∀ start t, ¬ Goes declaratorWord ⟨w ++ r, start, []⟩ t) :
    Reads [.opt declaratorWord, .opt nameWord] (w ++ r) (some (w, r)) :=
  .word fun start => ⟨_, (takes_nothing (hdeclarator start)).seq
    ((takes_nameWord hw hr start []).left.seq (takes_empty _))⟩

theorem reads_nothing (hx : isWordStart x = false)
    (hdeclarator : ∀ start, ∃ start' span, Takes declaratorWord ⟨text, start, []⟩
      ⟨x :: r, start', [(1, span)]⟩) :
    Reads [.opt declaratorWord, .opt nameWord] text none := by
  refine .nothing fun start => ?_
  obtain ⟨start', span, htakes⟩ := hdeclarator start
  exact ⟨_, htakes.left.seq (takes_name_stop hx start' _), rfl⟩

theorem reads_stop (hx : isWordStart x = false) (r : List Char) : Reads argument (x :: r) none := by
  refine .nothing fun start => ?_
  have hasync := takes_nothing (a := asyncWord) (s := ⟨x :: r, start, []⟩) fun t h =>
    not_introduces_stop hx (introduces_of_async h)
  exact ⟨_, hasync.seq (takes_argument_stop hx start []), rfl⟩

/-- A function in a call has the name `function` if its parameters follow at once, and else none. -/
theorem reads_function (hg : Blanks g) (hx : Stops x) :
    Reads [.opt declaratorWord, .opt nameWord] ("function".toList ++ (g ++ x :: r))
      (if g.isEmpty then some ("function".toList, x :: r) else none) := by
  cases g with
  | nil =>
    refine reads_word isName_function (halts_cons hx.2.1 r) fun start t h => ?_
    obtain ⟨-, v, b, rfl | rfl, hb, heq⟩ := keyword_of_goes isName_function (halts_cons hx.2.1 r) h
    · obtain ⟨c, b, rfl⟩ := List.exists_cons_of_ne_nil hb.2
      have hblank := hb.1 c List.mem_cons_self
      rw [← (List.cons.inj heq).1, hx.1] at hblank
      cases hblank
    · exact hx.2.2 (List.cons.inj heq).1
  | cons c g =>
    refine reads_nothing (x := x) (r := r) hx.isWordStart fun start => ?_
    obtain ⟨start', htakes⟩ :=
      takes_declaratorWord (.inl rfl) ⟨hg, List.cons_ne_nil c g⟩ (halts_cons hx.1 r) start
    exact ⟨start', _, htakes⟩

theorem takes_generatorWord (hg : Blanks g ∧ g ≠ []) (hr : Halts isBlank r) (start : Bool) :
    ∃ start' span, Takes declaratorWord ⟨"function".toList ++ '*' :: (g ++ r), start, []⟩
      ⟨r, start', [(1, span)]⟩ :=
  ⟨_, _, (((takes_text "function".toList _ start []).seq (takes_char '*' _ _ []).left).left.seq
    (takes_someBlanks hg hr _ [])).group⟩

/-- What is taken for the name of a generator in a call is nothing, or `function` before its asterisk. -/
theorem reads_generator {g' : List Char} (hg : Blanks g) (hg' : Blanks g') (hx : Stops x) :
    Reads [.opt declaratorWord, .opt nameWord] ("function".toList ++ (g ++ '*' :: (g' ++ x :: r)))
      (if g.isEmpty && g'.isEmpty then some ("function".toList, '*' :: (g' ++ x :: r)) else none) := by
  cases g with
  | cons c g =>
    refine reads_nothing (x := '*') (r := g' ++ x :: r) (by decide) fun start => ?_
    obtain ⟨start', htakes⟩ :=
      takes_declaratorWord (r := '*' :: (g' ++ x :: r)) (.inl rfl) ⟨hg, List.cons_ne_nil c g⟩
        (halts_cons (by decide) _) start
    exact ⟨start', _, htakes⟩
  | nil =>
    cases g' with
    | cons c g' =>
      exact reads_nothing (x := x) (r := r) hx.isWordStart
        (takes_generatorWord ⟨hg', List.cons_ne_nil c g'⟩ (halts_cons hx.1 r))
    | nil =>
      have hstar : Halts View.inIdentifier ('*' :: x :: r) := halts_cons (by decide) _
      refine reads_word isName_function hstar fun start t h => ?_
      obtain ⟨-, v, b, rfl | rfl, hb, heq⟩ := keyword_of_goes isName_function hstar h
      · obtain ⟨c, b, rfl⟩ := List.exists_cons_of_ne_nil hb.2
        exact absurd ((List.cons.inj heq).1 ▸ hb.1 c List.mem_cons_self) (by decide)
      · obtain ⟨c, b, rfl⟩ := List.exists_cons_of_ne_nil hb.2
        have hblank := hb.1 c List.mem_cons_self
        rw [← (List.cons.inj (List.cons.inj heq).2).1, hx.1] at hblank
        cases hblank

theorem halts_generator (hg : Blanks g) (r : List Char) : Halts View.inIdentifier (g ++ '*' :: r) := by
  cases g with
  | nil => exact halts_cons (by decide) _
  | cons c g => exact halts_cons (not_inIdentifier_of_isBlank (hg c List.mem_cons_self)) _

theorem not_introduces_generator {g' w' : List Char} (hg : Blanks g) (hg' : Blanks g') (hx : Stops x)
    (hw' : isName View.inIdentifier w' = true) :
    ¬ Introduces ("function".toList ++ (g ++ '*' :: (g' ++ x :: r))) (w' ++ rest) := by
  intro h
  obtain ⟨kw, v, b, ⟨-, hkw⟩, hv, hb, heq⟩ := h
  obtain ⟨-, heq⟩ := keyword_unique isName_function (halts_generator hg _) hkw hv hb heq
  obtain rfl | rfl := hv
  · obtain ⟨-, hstar⟩ := append_inj_of_halts hg hb.1 (halts_cons (by decide) _)
      (halts_isBlank_name hw' rest) heq
    exact stop_ne_name (by decide) hw' hstar
  · cases g with
    | cons c g => exact absurd ((List.cons.inj heq).1 ▸ hg c List.mem_cons_self) (by decide)
    | nil =>
      obtain ⟨-, hstop⟩ := append_inj_of_halts hg' hb.1 (halts_cons hx.1 r) (halts_isBlank_name hw' rest)
        (List.cons.inj heq).2
      exact stop_ne_name hx.isWordStart hw' hstop

end Reads

section InnerName

variable {text k : List Char}

theorem innerName_of_word (hgap : Blanks gap) (hinside : Blanks inside) (htext : Halts isBlank text)
    (h : Reads argument text (some (k, rest))) :
    View.innerName (fuel + 1) name (gap ++ '(' :: (inside ++ text)) = View.innerName fuel k rest := by
  cases h with
  | word h => exact innerName_named hgap hinside htext h

theorem innerName_of_nothing (hgap : Blanks gap) (hinside : Blanks inside) (htext : Halts isBlank text)
    (h : Reads argument text none) :
    View.innerName (fuel + 1) name (gap ++ '(' :: (inside ++ text)) = "function".toList := by
  cases h with
  | nothing h => exact innerName_nameless hgap hinside htext h

theorem innerName_word (hgap : Blanks gap) (hb : Blanks b) (hw : isName View.inIdentifier w = true)
    {b' : List Char} (hb' : Blanks b') (hx : Stops x) (hcall : x ≠ '(') :
    shown url (View.innerName (fuel + 1) name (gap ++ '(' :: (b ++ (w ++ (b' ++ x :: r))))) =
      shown url w := by
  by_cases hplain : View.isNameless w = false ∨ b' = []
  · rw [innerName_name hgap hb hw hb' hx hplain, innerName_stop hb' hx.1 hcall]
  · rw [not_or, Bool.not_eq_false] at hplain
    rw [innerName_keyword hgap hb hw hplain.1 ⟨hb', hplain.2⟩ hx, shown_nameless hplain.1]
    rfl

/-- Parameters behind a word that is no name are looked through like the arguments of a call. -/
theorem innerName_signature (hname : View.isNameless name = true) (hgap : Blanks gap)
    (hp : Signature p word) :
    shown url (View.innerName (fuel + 1) name (gap ++ p)) = named url word := by
  cases hp with
  | word hb hw _ hb' hx hcall => exact innerName_word hgap hb hw hb' hx hcall
  | @other b r x hb hx =>
    rw [innerName_of_nothing hgap hb (halts_cons hx.1 r) (reads_stop hx.2 r)]
    rfl
  | types r => rw [innerName_stop hgap (by decide) (by decide), shown_nameless hname, named]

theorem Asynchronous.halts {a core : List Char} (ha : Asynchronous a) (hcore : Halts isBlank core) :
    Halts isBlank (a ++ core) := by
  cases ha with
  | no => exact hcore
  | yes =>
    rw [List.append_assoc]
    exact halts_append (w := "async".toList) (by decide) _

theorem Anonymous.halts {called : Bool} (hf : Anonymous called text word) : Halts isBlank text := by
  cases hf with
  | function ha | generator ha => exact ha.halts (halts_isBlank_function _)
  | asyncArrow => exact halts_append (w := "async".toList) (by decide) _
  | arrow _ hp =>
    obtain ⟨x, r, rfl, hx⟩ := hp.exists_stop
    exact halts_cons hx.1 r
  | shortArrow ha hw => exact ha.halts (halts_isBlank_name hw _)

theorem innerName_argument (hf : Anonymous true text word) (hgap : Blanks gap) (hinside : Blanks inside) :
    shown url (View.innerName (fuel + 2) name (gap ++ '(' :: (inside ++ text))) = named url word := by
  have htext := hf.halts
  cases hf with
  | @function a g p w ha hg hp =>
    obtain ⟨x, r, rfl, hx⟩ := hp.exists_stop
    have hreads := (reads_function (r := r) hg hx).asynchronous ha (halts_isBlank_function _)
      (not_asyncWord _)
    cases g with
    | nil =>
      rw [innerName_of_word hgap hinside htext hreads]
      exact innerName_signature (by decide) blanks_nil hp
    | cons c g =>
      rw [innerName_of_nothing hgap hinside htext hreads]
      rfl
  | @generator a g g' p w ha hg hg' hp =>
    obtain ⟨x, r, rfl, hx⟩ := hp.exists_stop
    have hreads := (reads_generator (r := r) hg hg' hx).asynchronous ha (halts_isBlank_function _)
      (not_asyncWord _)
    split at hreads
    · rw [innerName_of_word hgap hinside htext hreads]
      exact congrArg (shown url)
        (innerName_stop (b := []) (x := '*') blanks_nil (by decide) (by decide))
    · rw [innerName_of_nothing hgap hinside htext hreads]
      rfl
  | @asyncArrow g p w hg hp =>
    obtain ⟨x, r, rfl, hx⟩ := hp.exists_stop
    cases g with
    | nil =>
      rw [innerName_name (b := []) hgap hinside (by decide) blanks_nil hx (.inr rfl)]
      exact innerName_signature (by decide) blanks_nil hp
    | cons c g =>
      rw [innerName_keyword hgap hinside (by decide) (by decide) ⟨hg, List.cons_ne_nil c g⟩ hx]
      rfl
  | arrow _ hp =>
    obtain ⟨x, r, rfl, hx⟩ := hp.exists_stop
    rw [innerName_of_nothing hgap hinside htext (reads_stop hx.isWordStart r)]
    rfl
  | @shortArrow a w b r ha hw hkeyword hb =>
    cases ha with
    | no => exact innerName_word hgap hinside hw hb (by decide) (by decide)
    | yes hb' =>
      have hr := halts_inIdentifier_stop hb (x := '=') (by decide) ('>' :: r)
      have hreads := reads_word hw hr fun start t h => by
        obtain ⟨rfl | rfl, -⟩ := keyword_of_goes hw hr h
        · exact hkeyword.1 rfl
        · exact hkeyword.2 rfl
      rw [innerName_of_word hgap hinside htext
        (hreads.asynchronous_yes hb' (halts_isBlank_name hw _)),
        innerName_stop hb (by decide) (by decide)]
      rfl

theorem exists_exported (url : String) (hf : Anonymous false text word) : ∃ k rest,
    Reads exported text (some (k, rest)) ∧
      ∀ fuel, shown url (View.innerName (fuel + 1) k rest) = named url word := by
  cases hf with
  | @function a g p w ha hg hp =>
    obtain ⟨x, r, rfl, hx⟩ := hp.exists_stop
    have hreads := Reads.word fun start => ⟨_, takes_exported_name isName_function
      (halts_inIdentifier_stop hg hx r)
      (fun w' rest hw' => not_introduces_name isName_function hg hx hw') start⟩
    exact ⟨_, _, hreads.asynchronous ha (halts_isBlank_function _) (not_asyncWord _),
      fun fuel => innerName_signature (by decide) hg hp⟩
  | @generator a g g' p w ha hg hg' hp =>
    obtain ⟨x, r, rfl, hx⟩ := hp.exists_stop
    have hreads := Reads.word fun start => ⟨_, takes_exported_name isName_function
      (halts_generator hg (g' ++ x :: r))
      (fun w' rest hw' => not_introduces_generator hg hg' hx hw') start⟩
    refine ⟨_, _, hreads.asynchronous ha (halts_isBlank_function _) (not_asyncWord _), fun fuel => ?_⟩
    rw [innerName_stop hg (by decide) (by decide)]
    rfl
  | @asyncArrow g p w hg hp =>
    obtain ⟨x, r, rfl, hx⟩ := hp.exists_stop
    have hasync : isName View.inIdentifier "async".toList = true := by decide
    exact ⟨_, _, .word fun start => ⟨_, takes_exported hasync (halts_inIdentifier_stop hg hx r)
      (fun w' rest hw' => not_introduces_name hasync hg hx hw') start⟩,
      fun fuel => innerName_signature (by decide) hg hp⟩
  | arrow hcalled => cases hcalled
  | @shortArrow a w b r ha hw hkeyword hb =>
    have hr := halts_inIdentifier_stop hb (x := '=') (by decide) ('>' :: r)
    have hkeyword : ∀ w' rest, isName View.inIdentifier w' = true →
        ¬ Introduces (w ++ (b ++ '=' :: '>' :: r)) (w' ++ rest) :=
      fun w' rest hw' => not_introduces_name hw hb (by decide) hw'
    refine ⟨w, b ++ '=' :: '>' :: r, ?_, fun fuel => ?_⟩
    · cases ha with
      | no => exact .word fun start => ⟨_, takes_exported hw hr hkeyword start⟩
      | yes hb' =>
        have hreads := Reads.word fun start => ⟨_, takes_exported_name hw hr hkeyword start⟩
        exact hreads.asynchronous_yes hb' (halts_isBlank_name hw _)
    · rw [innerName_stop hb (by decide) (by decide)]
      rfl

end InnerName

section Parsing

variable {source before text : List Char} {calls : List WrappedComponents.Call}

theorem length_le_within (calls : List WrappedComponents.Call) (inner : List Char) :
    calls.length ≤ (within calls inner).length := by
  induction calls with
  | nil => exact Nat.zero_le _
  | cons c cs ih =>
    rw [within]
    simp only [WrappedComponents.Call.opened, List.length_append, List.length_cons]
    omega

/-- The component of a view whose first default export is a function without a name within calls. -/
theorem componentName?_anonymous (h : Exports "default" source before (within calls text))
    (hfirst : ∀ before' rest', Exports "default" source before' rest' →
      before.length ≤ before'.length)
    (hf : Anonymous (!calls.isEmpty) text word) :
    View.componentName? url source = some (component url calls word) := by
  cases calls with
  | nil =>
    obtain ⟨k, rest, hreads, hname⟩ := exists_exported url hf
    cases hreads with
    | word hreads =>
      obtain ⟨start, hsearch⟩ := search?_exported hf.halts hreads h hfirst
      rw [componentName?_of_found hsearch, hname]
      rfl
  | cons c cs =>
    obtain ⟨b, x, r, hopened, hb, hx, -⟩ := exists_stop_opened c (within cs text)
    have hinner : ∀ fuel w gap inside, 1 ≤ fuel → Blanks gap → Blanks inside →
        shown url (View.innerName (fuel + 1) w (gap ++ '(' :: (inside ++ text))) = named url word := by
      intro fuel w gap inside hfuel hgap hinside
      obtain ⟨fuel, rfl⟩ := Nat.exists_eq_succ_of_ne_zero (Nat.ne_zero_of_lt hfuel)
      exact innerName_argument hf hgap hinside
    have hfuel : cs.length + 1 < (c.opened ++ within cs text).length + 1 := by
      have hlength := length_le_within cs text
      simp only [WrappedComponents.Call.opened, List.length_append, List.length_cons]
      omega
    have hshown := shown_innerName_within url hinner c cs hfuel
    rw [within, hopened] at h
    rw [hopened] at hshown
    obtain ⟨start, hsearch⟩ := search?_defaultExport c.isName_callee hb hx h hfirst
    rw [componentName?_of_found hsearch, hshown]
    rfl

def BeginsArrow (rest : List Char) : Prop :=
  ∃ b x r, rest = b ++ x :: r ∧ Blanks b ∧ (x = '(' ∨ x = '<')

theorem BeginsArrow.ne_name (h : BeginsArrow (w ++ rest)) (hw : isName View.inIdentifier w = true) :
    False := by
  obtain ⟨b, x, r, heq, hb, hx⟩ := h
  cases b with
  | nil =>
    have hstart : isWordStart x = false := by
      obtain rfl | rfl := hx <;> decide
    exact stop_ne_name hstart hw heq.symm
  | cons c b =>
    have hblank := hb c List.mem_cons_self
    have hstart : isWordStart c = false := by
      by_contra hpart
      rw [not_isBlank_of_isWordPart (isWordPart_of_isWordStart (by simpa using hpart))] at hblank
      cases hblank
    exact stop_ne_name hstart hw heq.symm

theorem exists_name_of_exported {s t : Cursor} (h : Goes (.seqs exported) s t) :
    ∃ w rest, isName View.inIdentifier w = true ∧ s.rest = w ++ rest := by
  obtain ⟨u, hasync, hbehind⟩ := goes_seqs_cons.mp h
  obtain hasync | rfl := goes_opt hasync
  · obtain ⟨kw, v, b, ⟨-, hkw⟩, -, -, hrest⟩ := introduces_of_async hasync
    exact ⟨kw, _, hkw, hrest⟩
  · exact exists_name_of_goes hbehind

theorem componentName?_arrow
    (h : ∀ before rest, Exports "default" source before rest → BeginsArrow rest) :
    View.componentName? url source = none := by
  have hnone : View.defaultExport.search? source = none := by
    rw [search?, searchFrom?_eq_none_iff]
    rintro front back rfl t hgoes
    rw [defaultExport_eq, goes_seqs_append] at hgoes
    obtain ⟨u, hopening, hexported⟩ := hgoes
    obtain ⟨hexports, -⟩ := exports_of_goes hopening
    obtain ⟨w, rest, hw, hrest⟩ := exists_name_of_exported hexported
    have harrow := h front u.rest hexports
    rw [hrest] at harrow
    exact harrow.ne_name hw
  rw [View.componentName?, hnone]
  rfl

/-- A view whose first default export is a function without a name is named for its file, unless one of
the calls around the function hides it or a parameter is taken for its name. Arrow functions that begin
with their parameters are passed over: a view with no other default export has no component. -/
theorem parse_anonymous (url : String) (source : List Char) :
    (∀ before calls text word, Exports "default" source before (within calls text) →
      (∀ before' rest', Exports "default" source before' rest' → before.length ≤ before'.length) →
      Anonymous (!calls.isEmpty) text word →
      View.parse url (String.ofList source) = (View.readConfig url source).map fun config =>
        ⟨url, some (component url calls word), config⟩) ∧
    ((∀ before rest, Exports "default" source before rest → BeginsArrow rest) →
      View.parse url (String.ofList source) = (View.readConfig url source).map fun config =>
        ⟨url, none, config⟩) := by
  constructor
  · intro before calls text word h hfirst hf
    rw [View.parse, String.toList_ofList, componentName?_anonymous h hfirst hf]
  · intro h
    rw [View.parse, String.toList_ofList, componentName?_arrow h]

theorem exports_arrow {before rest : List Char}
    (h : Exports "default" "export default () => null;".toList before rest) : BeginsArrow rest := by
  obtain ⟨-, b, b', b'', hb, hb', hb'', heq⟩ := h
  have hcount := congrArg (List.count 'x') heq
  have hone : "export default () => null;".toList.count 'x' = 1 := by decide
  have hx : "export".toList.count 'x' = 1 := by decide
  simp only [List.count_append, hone, hx] at hcount
  have hfront : ∀ c ∈ before ++ (b ++ ['e']), (c != 'x') = true := by
    intro c hc
    rw [bne_iff_ne]
    rintro rfl
    have hpos := List.count_pos_iff.mpr hc
    have he : ['e'].count 'x' = 0 := by decide
    simp only [List.count_append, he] at hpos
    omega
  have hparts : ['e'] ++ "xport default () => null;".toList = (before ++ (b ++ ['e'])) ++
      ("xport".toList ++ (b' ++ ("default".toList ++ (b'' ++ rest)))) :=
    heq.trans (by rw [List.append_assoc, List.append_assoc]; rfl)
  have hxport : "xport".toList.head?.map (· != 'x') = some false := by decide
  have hplain : ∀ c ∈ ['e'], (c != 'x') = true := List.forall_mem_singleton.mpr (by decide)
  obtain ⟨-, hcut⟩ := append_inj_of_halts hplain hfront (halts_cons (by decide) _)
    (halts_append hxport _) hparts
  have hbehindX : "xport".toList ++ ([' '] ++ "default () => null;".toList) =
      "xport".toList ++ (b' ++ ("default".toList ++ (b'' ++ rest))) := hcut
  have hblank := List.append_cancel_left hbehindX
  have hbegins : "default () => null;".toList.head?.map isBlank = some false := by decide
  have hdefault : "default".toList.head?.map isBlank = some false := by decide
  have hspace : ∀ c ∈ [' '], isBlank c = true := List.forall_mem_singleton.mpr (by decide)
  have hhalts := halts_append hbegins []
  rw [List.append_nil] at hhalts
  obtain ⟨-, hword⟩ := append_inj_of_halts hspace hb'.1 hhalts (halts_append hdefault _) hblank
  have hbehindT : "default".toList ++ (' ' :: "() => null;".toList) =
      "default".toList ++ (b'' ++ rest) := hword
  have hbehind := List.append_cancel_left hbehindT
  obtain ⟨c, b'', rfl⟩ := List.exists_cons_of_ne_nil hb''.2
  obtain ⟨rfl, hrest⟩ := List.cons.inj hbehind
  cases b'' with
  | nil => exact ⟨[], '(', _, hrest.symm, blanks_nil, .inl rfl⟩
  | cons d b'' => exact absurd ((List.cons.inj hrest).1 ▸ hb''.1 d (by simp)) (by decide)

/-- `memo(async ({ id }) => null)` is named for its file, and `() => null` by itself is passed over. -/
theorem parse_anonymous_arrows :
    let memo : WrappedComponents.Call :=
      ⟨"memo".toList, [], [], [], [], by decide, nofun, nofun, nofun, nofun⟩
    within [memo] "async ({ id }) => null);".toList = "memo(async ({ id }) => null);".toList ∧
      View.parse "views/order-list.tsx" "export default memo(async ({ id }) => null);" =
        ((View.readConfig "views/order-list.tsx"
          "export default memo(async ({ id }) => null);".toList).map
            fun config => ⟨"views/order-list.tsx", some "OrderList", config⟩) ∧
      View.parse "views/home.tsx" "export default () => null;" =
        (View.readConfig "views/home.tsx" "export default () => null;".toList).map
          fun config => ⟨"views/home.tsx", none, config⟩ := by
  intro memo
  have hspace : Blanks [' '] ∧ [' '] ≠ [] := ⟨List.forall_mem_singleton.mpr (by decide), by decide⟩
  have hexports : Exports "default" "export default memo(async ({ id }) => null);".toList []
      (within [memo] "async ({ id }) => null);".toList) :=
    ⟨nofun, [], [' '], [' '], nofun, hspace, hspace, by decide⟩
  have hparameters : Signature "({ id }) => null);".toList none := .other blanks_nil (by decide)
  have hname : View.fileComponent "views/order-list.tsx" = "OrderList" := by decide +kernel
  have hparse := (parse_anonymous "views/order-list.tsx" _).1 [] [memo] _ none hexports
    (fun _ _ _ => Nat.zero_le _) (.asyncArrow hspace.1 hparameters)
  rw [component, hidingCall?] at hparse
  exact ⟨by decide, hname ▸ hparse,
    (parse_anonymous "views/home.tsx" _).2 fun _ _ h => exports_arrow h⟩

/-- The first parameter of a function is taken for its name. -/
theorem parameter_taken :
    let source := "export default function (props) { return null; }"
    Exports "default" source.toList [] (within [] "function (props) { return null; }".toList) ∧
      Anonymous false "function (props) { return null; }".toList (some "props".toList) ∧
      View.fileComponent "views/user-list.tsx" = "UserList" ∧
      (View.parse "views/user-list.tsx" source).map View.component = .ok (some "props") := by
  intro source
  have hspace : Blanks [' '] ∧ [' '] ≠ [] := ⟨List.forall_mem_singleton.mpr (by decide), by decide⟩
  have hparameters : Signature "(props) { return null; }".toList (some "props".toList) :=
    .word (x := ')') blanks_nil (w := "props".toList) (by decide) (by decide) blanks_nil
      (by decide) (by decide)
  refine ⟨⟨nofun, [], [' '], [' '], nofun, hspace, hspace, by decide⟩, ?_, by decide +kernel,
    by decide +kernel⟩
  exact .function .no hspace.1 hparameters

end Parsing

end TypedClient.Proofs.AnonymousComponents
