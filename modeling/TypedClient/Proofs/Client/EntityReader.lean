import TypedClient.Proofs.Client.EntityComments
import TypedClient.Proofs.Client.FunctionReading

namespace TypedClient.Proofs.EntityReader

open TypedClient.Module TypedClient.Entity TypedClient.Literal TypedClient.Text
open TypedClient.Proofs.BlockComments TypedClient.Proofs.CallReading
open TypedClient.Proofs.EndpointComments TypedClient.Proofs.EntityComments
open TypedClient.Proofs.FreshName TypedClient.Proofs.FunctionReader TypedClient.Proofs.FunctionReading
open TypedClient.Proofs.LiteralGrammar TypedClient.Proofs.LiteralReading
open TypedClient.Proofs.NeutralText TypedClient.Proofs.PlainSchemas
open TypedClient.Proofs.RoundTrip (blanks_space key_keyChars quoteChar_cases)

abbrev Reading := StateT (List Char) Option

inductive Token
  | word (w : String)
  | mark (c : Char)

def Token.after? : Token → List Char → Option (List Char)
  | word w => keyword? w
  | mark c => CallReading.after? c

def afterTokens? : List Token → List Char → Option (List Char)
  | [], cs => some cs
  | t :: ts, cs => match t.after? cs with
    | some cs => afterTokens? ts cs
    | none => none

def phrase (ts : List Token) : Reading Unit :=
  fun cs => (afterTokens? ts cs).map ((), ·)

/-- No line ends in front of the next word, as it may not behind `return`. -/
def sameLine : Reading Unit :=
  fun cs => if '\n' ∈ cs.takeWhile isBlank then none else some ((), cs)

def key? : Reading String :=
  fun cs => (text? cs).or (name? cs)

/-- What follows the bracket that closes those which are open, strings and comments apart. -/
def afterClose : Nat → Mode → List Char → Option (List Char)
  | _, _, [] => none
  | n, mode, c :: cs =>
    let next := (Reader.step ⟨mode, []⟩ c).mode
    if mode = .code ∧ c ∈ ['(', '[', '{'] then afterClose (n + 1) next cs
    else if mode = .code ∧ c ∈ [')', ']', '}'] then
      match n with
      | 0 => some cs
      | n + 1 => afterClose n next cs
    else afterClose n next cs

def closing : Reading Unit :=
  fun cs => (afterClose 0 .code cs).map ((), ·)

def optionalMark (c : Char) : Reading Unit :=
  fun cs => some ((), (after? c cs).getD cs)

def extended? : Reading (Option String) :=
  fun cs => match keyword? "extends" cs with
    | some cs => (name? cs).map fun r => (some r.1, r.2)
    | none => some (none, cs)

def blockWithin {α : Type} (item : Reading α) : Nat → List Char → Option (List α × List Char)
  | 0, _ => none
  | n + 1, cs => match after? '}' cs with
    | some cs => some ([], cs)
    | none => (item cs).bind fun r => (blockWithin item n r.2).map fun s => (r.1 :: s.1, s.2)

def block {α : Type} (item : Reading α) : Reading (List α) :=
  fun cs => blockWithin item cs.length cs

/-- An accessor: the property that it stands for, and the call that it makes. -/
structure Getter where
  name : String
  lookup : String
  property : String
  model : String
deriving DecidableEq, Repr

structure ModelClass where
  name : String
  type : String
  base : String
  getters : List Getter
deriving DecidableEq, Repr

/-- An interface, which is the default export, with the names of its members. -/
structure Interface where
  name : String
  extended : Option String
  members : List String
deriving DecidableEq, Repr

def getter : Reading Getter := do
  phrase [.word "get"]
  let name ← key?
  phrase [.mark '(', .mark ')', .mark ':']
  modify (skipType 0)
  phrase [.mark '{', .word "return"]
  sameLine
  phrase [.word "this", .mark '[']
  let lookup ← name?
  phrase [.mark ']', .mark '(']
  let property ← text?
  phrase [.mark ',']
  let model ← name?
  phrase [.mark ',', .mark '[']
  closing
  phrase [.mark ')', .word "as"]
  modify (skipType 0)
  phrase [.mark ';', .mark '}']
  return ⟨name, lookup, property, model⟩

def exported (name : String) : Reading Unit := do
  phrase [.word "export", .word "default"]
  phrase [.word name]
  phrase [.mark ';']

def modelClass : Reading ModelClass := do
  phrase [.word "class"]
  let name ← name?
  phrase [.mark '<', .word "T", .word "extends"]
  let type ← name?
  phrase [.mark '=']
  phrase [.word type]
  phrase [.mark '>', .word "extends"]
  let base ← name?
  phrase [.mark '<', .word "T", .mark '>', .mark '{', .word "declare", .word "static",
    .word "createEmptyValue", .mark ':', .mark '(', .mark ')', .mark '=', .mark '>']
  phrase [.word type]
  phrase [.mark ';']
  let getters ← block getter
  exported name
  return ⟨name, type, base, getters⟩

def member : Reading String := do
  let name ← key?
  optionalMark '?'
  phrase [.mark ':']
  modify (skipType 0)
  phrase [.mark ';']
  return name

def interface : Reading Interface := do
  modify skipComment
  phrase [.word "interface"]
  let name ← name?
  let extended ← extended?
  phrase [.mark '{']
  let members ← block member
  exported name
  return ⟨name, extended, members⟩

def whole? {α : Type} (p : Reading α) (text : String) : Option α :=
  match p text.toList with
  | some (a, rest) => if skipBlank rest = [] then some a else none
  | none => none

def ModelClass.read? (text : String) : Option ModelClass :=
  whole? modelClass text

def Interface.read? (text : String) : Option Interface :=
  whole? interface text

/-- A reader takes the front of a text as a value, up to what follows. -/
def Reads {α : Type} (p : Reading α) (cs : List Char) (a : α) (rest : List Char) : Prop :=
  p cs = some (a, rest)

section Readings

variable {α β : Type} {p : Reading α} {f : α → Reading β} {b cs ds r : List Char} {a : α} {x : β}

theorem Reads.bind (hp : Reads p cs a ds) (hf : Reads (f a) ds x r) : Reads (p >>= f) cs x r := by
  change (p cs).bind (fun s => f s.1 s.2) = some (x, r)
  rw [hp]
  exact hf

theorem Reads.whole {text : String} (h : Reads p text.toList a r) (hr : skipBlank r = []) :
    whole? p text = some a := by
  rw [whole?, h]
  exact if_pos hr

theorem stops_text {s : String} (hs : s.toList.head?.map isWordPart = some false)
    (r : List Char) : Stops (s.toList ++ r) := by
  intro c hc
  cases htext : s.toList with
  | nil =>
    rw [htext] at hs
    cases hs
  | cons d ds =>
    rw [htext] at hs hc
    obtain rfl := Option.some.inj hc
    exact Option.some.inj hs

theorem reads_name {id : String} (hb : Blanks b) (h : IsIdentifier id) (hr : Stops r) :
    Reads name? (b ++ (id.toList ++ r)) id r := by
  have hread := name?_append hb (isBareKey_of_isIdentifier h) hr
  rwa [String.ofList_toList] at hread

theorem reads_word {w : String} (hb : Blanks b) (hw : isBareKey w.toList = true) (hr : Stops r) :
    Reads (phrase [.word w]) (b ++ (w.toList ++ r)) () r := by
  rw [Reads, phrase, afterTokens?, Token.after?, keyword?_append hb hw hr]
  rfl

theorem reads_key (hb : Blanks b) (name : String) (hr : Stops r) :
    Reads key? (b ++ ((propertyKey name).toList ++ r)) name r := by
  rw [Reads, key?, propertyKey, String.toList_ofList, keyChars]
  by_cases hbare : isBareKey name.toList = true
  · rw [if_pos hbare, text?_bare hb hbare, name?_append hb hbare hr, String.ofList_toList]
    rfl
  · rw [if_neg hbare, text?_blanks hb]
    rfl

theorem begins_key (hb : Blanks b) (name : String) (r : List Char) :
    ∃ c rest, skipBlank (b ++ ((propertyKey name).toList ++ r)) = c :: rest ∧ c ≠ '}' := by
  rw [propertyKey, String.toList_ofList, keyChars]
  by_cases hbare : isBareKey name.toList = true
  · rw [if_pos hbare]
    obtain ⟨c, rest, hc, hword⟩ := begins_bare hb hbare r
    refine ⟨c, rest, hc, ?_⟩
    rintro rfl
    exact absurd hword (by decide)
  · rw [if_neg hbare, skipBlank_append hb]
    exact ⟨'"', _, rfl, by decide⟩

theorem reads_quoted (s : String) (r : List Char) :
    Reads text? ((quoted s).toList ++ r) s r := by
  rw [Reads, quoted, String.toList_ofList]
  exact text?_append s r

theorem reads_type {t : TypeExpr} (h : Named t) (r : List Char) :
    Reads (modify (skipType 0)) (' ' :: (t.text.toList ++ r)) PUnit.unit (skipType 0 r) := by
  change some (PUnit.unit, skipType 0 _) = _
  rw [skipType_type h]

theorem afterClose_coded {t : String} (h : Coded t) (n : Nat) (r : List Char) :
    afterClose n .code (t.toList ++ r) = afterClose n .code r := by
  induction h generalizing n r with
  | @code t h =>
    generalize t.toList = cs at h
    induction cs with
    | nil => rfl
    | cons c cs ih =>
      rw [List.all_cons, Bool.and_eq_true] at h
      obtain ⟨hc, hcs⟩ := h
      rw [isInner, Bool.and_eq_true, decide_eq_true_eq] at hc
      have hmode : (Reader.step ⟨.code, []⟩ c).mode = .code := congrArg Reader.mode (step_plain hc.1)
      have hopen : c ∉ ['(', '[', '{'] := fun hmem =>
        hc.2 ((by decide : ['(', '[', '{'] ⊆ ['(', ')', '[', ']', '{', '}']) hmem)
      have hclose : c ∉ [')', ']', '}'] := fun hmem =>
        hc.2 ((by decide : [')', ']', '}'] ⊆ ['(', ')', '[', ']', '{', '}']) hmem)
      rw [List.cons_append, afterClose.eq_def]
      dsimp only
      rw [if_neg fun h => hopen h.2, if_neg fun h => hclose h.2]
      exact (congrArg (afterClose n · (cs ++ r)) hmode).trans (ih hcs)
  | quoted cs =>
    have hinside : ∀ r, afterClose n (.quoted '"') (cs.flatMap quoteChar ++ r) =
        afterClose n (.quoted '"') r := by
      intro r
      induction cs with
      | nil => rfl
      | cons c cs ih =>
        rw [List.flatMap_cons, List.append_assoc]
        have hstep : (quoteChar c).foldl Reader.step ⟨.quoted '"', []⟩ = ⟨.quoted '"', []⟩ :=
          foldl_step_quoteChar c
        obtain ⟨hc, -⟩ | ⟨e, hc, -⟩ := quoteChar_cases c
        · rw [hc] at hstep ⊢
          exact (congrArg (afterClose n · _) (congrArg Reader.mode hstep)).trans ih
        · rw [hc]
          exact ih
    have hchars : (String.ofList (quoteChars cs)).toList ++ r =
        '"' :: (cs.flatMap quoteChar ++ '"' :: r) := by simp [quoteChars]
    rw [hchars]
    exact hinside ('"' :: r)
  | append _ _ ihs iht => rw [String.toList_append, List.append_assoc, ihs, iht]
  | @within o t c hb _ ih =>
    rw [String.toList_append, String.toList_append, List.append_assoc, List.append_assoc]
    simp only [List.mem_cons, Prod.mk.injEq, List.not_mem_nil, or_false] at hb
    obtain ⟨rfl, rfl⟩ | ⟨rfl, rfl⟩ | ⟨rfl, rfl⟩ := hb <;> exact ih (n + 1) _

theorem reads_closing {t : String} (h : Coded t) (r : List Char) :
    Reads closing (t.toList ++ ("]) as ".toList ++ r)) () (") as ".toList ++ r) := by
  rw [Reads, closing, afterClose_coded h]
  rfl

structure Item (item : Reading α) (t : String) (a : α) : Prop where
  begins : ∃ c rest, skipBlank t.toList = c :: rest ∧ c ≠ '}'
  read : ∀ r, Reads item (t.toList ++ r) a r

theorem Item.length_pos {t : String} (h : Item p t a) : 0 < t.toList.length := by
  obtain ⟨c, rest, hc, -⟩ := h.begins
  refine List.length_pos_of_ne_nil fun hnil => ?_
  rw [hnil] at hc
  cases hc

theorem blockWithin_items {ts : List String} {as : List α} (h : List.Forall₂ (Item p) ts as)
    {n : Nat} (hn : (String.join ts).toList.length < n) (r : List Char) :
    blockWithin p n ((String.join ts).toList ++ '\n' :: '}' :: r) = some (as, r) := by
  induction h generalizing n with
  | nil =>
    obtain ⟨n, rfl⟩ := Nat.exists_eq_succ_of_ne_zero (Nat.ne_of_gt hn)
    rfl
  | @cons t a ts as ht _ ih =>
    obtain ⟨n, rfl⟩ := Nat.exists_eq_succ_of_ne_zero (Nat.ne_of_gt (Nat.zero_lt_of_lt hn))
    have hpos := ht.length_pos
    rw [String.join_cons, String.toList_append] at hn ⊢
    rw [List.length_append] at hn
    obtain ⟨c, rest, hc, hne⟩ := ht.begins
    have hread := ht.read ((String.join ts).toList ++ '\n' :: '}' :: r)
    rw [Reads] at hread
    rw [List.append_assoc, blockWithin, after?_of_ne (skipBlank_cons_append hc _) hne]
    simp only [hread, Option.bind_some, ih (by omega : _ < n), Option.map_some]

theorem reads_block {ts : List String} {as : List α} (h : List.Forall₂ (Item p) ts as)
    (r : List Char) :
    Reads (block p) ((String.join ts).toList ++ '\n' :: '}' :: r) as r := by
  refine blockWithin_items h ?_ r
  rw [List.length_append, List.length_cons]
  omega

end Readings

section Texts

variable {name type base lookup : String}

theorem reads_exported (h : IsIdentifier name) :
    Reads (exported name) ("\nexport default ".toList ++ (name.toList ++ ";".toList)) () [] :=
  have hstart (r : List Char) : Reads (phrase [.word "export", .word "default"])
      ("\nexport default ".toList ++ r) () (' ' :: r) := rfl
  (hstart _).bind <|
    (reads_word blanks_space (isBareKey_of_isIdentifier h) (stops_cons rfl [])).bind rfl

def getterOf (lookup : String) (a : Accessor) : Getter :=
  ⟨a.name, lookup, a.name, a.model⟩

theorem item_getter {a : Accessor} (h : NamedAccessor a) (hl : IsIdentifier lookup) :
    Item getter (a.text lookup) (getterOf lookup a) := by
  constructor
  · have hget : ∃ rest, (a.text lookup).toList = "\n\n  get ".toList ++ rest := by
      unfold Accessor.text
      simp only [String.toList_append, List.append_assoc]
      exact ⟨_, rfl⟩
    obtain ⟨rest, hrest⟩ := hget
    rw [hrest]
    exact ⟨'g', _, rfl, by decide⟩
  · intro r
    have hchars : (a.text lookup).toList ++ r = "\n\n  get ".toList ++
        ((propertyKey a.name).toList ++ ("():".toList ++ (' ' :: (a.modelType.text.toList ++
          (" \x7b\n    return this[".toList ++ (lookup.toList ++ ("](".toList ++
            ((quoted a.name).toList ++ (", ".toList ++ (a.model.toList ++ (", [".toList ++
              ((Expr.listText a.validators).toList ++ ("]) as ".toList ++
                (a.modelType.text.toList ++ (";\n  \x7d".toList ++ r))))))))))))))) := by
      unfold Accessor.text
      simp only [String.toList_append, List.append_assoc]
      rfl
    have hget (r : List Char) :
        Reads (phrase [.word "get"]) ("\n\n  get ".toList ++ r) () (' ' :: r) := rfl
    have hcall (r : List Char) : Reads (phrase [.mark '(', .mark ')', .mark ':'])
        ("():".toList ++ r) () r := rfl
    have hreturn (r : List Char) : Reads (phrase [.mark '{', .word "return"])
        (skipType 0 (" \x7b\n    return this[".toList ++ r)) () (" this[".toList ++ r) := rfl
    have hline (r : List Char) :
        Reads sameLine (" this[".toList ++ r) () (" this[".toList ++ r) := rfl
    have hthis (r : List Char) :
        Reads (phrase [.word "this", .mark '[']) (" this[".toList ++ r) () r := rfl
    have hargs (r : List Char) :
        Reads (phrase [.mark ']', .mark '(']) ("](".toList ++ r) () r := rfl
    have hcomma (r : List Char) : Reads (phrase [.mark ',']) (", ".toList ++ r) () (' ' :: r) := rfl
    have hlist (r : List Char) :
        Reads (phrase [.mark ',', .mark '[']) (", [".toList ++ r) () r := rfl
    have has (r : List Char) :
        Reads (phrase [.mark ')', .word "as"]) (") as ".toList ++ r) () (' ' :: r) := rfl
    have hend (r : List Char) : Reads (phrase [.mark ';', .mark '}'])
        (skipType 0 (";\n  \x7d".toList ++ r)) () r := rfl
    rw [hchars]
    unfold getter
    apply (hget _).bind
    apply (reads_key blanks_space a.name (stops_text rfl _)).bind
    apply (hcall _).bind
    apply (reads_type h.modelType _).bind
    apply (hreturn _).bind
    apply (hline _).bind
    apply (hthis _).bind
    apply (reads_name blanks_nil hl (stops_text rfl _)).bind
    apply (hargs _).bind
    apply (reads_quoted a.name _).bind
    apply (hcomma _).bind
    apply (reads_name blanks_space h.model (stops_text rfl _)).bind
    apply (hlist _).bind
    apply (reads_closing (coded_listText h.validators) _).bind
    apply (has _).bind
    apply (reads_type h.modelType _).bind
    apply (hend _).bind
    rfl

theorem read?_modelText {accessors : List Accessor} (hn : IsIdentifier name)
    (ht : IsIdentifier type) (hb : IsIdentifier base) (hl : IsIdentifier lookup)
    (ha : ∀ a ∈ accessors, NamedAccessor a) :
    ModelClass.read? (modelText name type base lookup accessors) =
      some ⟨name, type, base, accessors.map (getterOf lookup)⟩ := by
  have hitems : List.Forall₂ (Item getter) (accessors.map (Accessor.text lookup))
      (accessors.map (getterOf lookup)) :=
    forall₂_map _ _ fun a h => item_getter (ha a h) hl
  have hchars : (modelText name type base lookup accessors).toList = "class ".toList ++
      (name.toList ++ ("<T extends ".toList ++ (type.toList ++ (" = ".toList ++ (type.toList ++
        ("> extends ".toList ++ (base.toList ++
          ("<T> \x7b\n  declare static createEmptyValue: () => ".toList ++ (type.toList ++
            (";".toList ++ ((String.join (accessors.map (Accessor.text lookup))).toList ++
              '\n' :: '}' :: ("\nexport default ".toList ++
                (name.toList ++ ";".toList))))))))))))) := by
    unfold modelText defaultExport
    simp only [String.toList_append, List.append_assoc]
    rfl
  have hclass (r : List Char) :
      Reads (phrase [.word "class"]) ("class ".toList ++ r) () (' ' :: r) := rfl
  have hopen (r : List Char) : Reads (phrase [.mark '<', .word "T", .word "extends"])
      ("<T extends ".toList ++ r) () (' ' :: r) := rfl
  have hdefault (r : List Char) : Reads (phrase [.mark '=']) (" = ".toList ++ r) () (' ' :: r) := rfl
  have hextends (r : List Char) : Reads (phrase [.mark '>', .word "extends"])
      ("> extends ".toList ++ r) () (' ' :: r) := rfl
  have hdeclare (r : List Char) : Reads (phrase [.mark '<', .word "T", .mark '>', .mark '{',
      .word "declare", .word "static", .word "createEmptyValue", .mark ':', .mark '(', .mark ')',
      .mark '=', .mark '>']) ("<T> \x7b\n  declare static createEmptyValue: () => ".toList ++ r) ()
      (' ' :: r) := rfl
  have hsemicolon (r : List Char) : Reads (phrase [.mark ';']) (";".toList ++ r) () r := rfl
  have hword := isBareKey_of_isIdentifier ht
  refine Reads.whole (r := []) ?_ rfl
  rw [hchars]
  unfold modelClass
  apply (hclass _).bind
  apply (reads_name blanks_space hn (stops_text rfl _)).bind
  apply (hopen _).bind
  apply (reads_name blanks_space ht (stops_text rfl _)).bind
  apply (hdefault _).bind
  apply (reads_word blanks_space hword (stops_text rfl _)).bind
  apply (hextends _).bind
  apply (reads_name blanks_space hb (stops_text rfl _)).bind
  apply (hdeclare _).bind
  apply (reads_word blanks_space hword (stops_text rfl _)).bind
  apply (hsemicolon _).bind
  apply (reads_block hitems _).bind
  apply (reads_exported hn).bind
  rfl

theorem item_member (p : Property) {t : TypeExpr} (h : Named t) :
    Item member (propertyText p t) p.name := by
  generalize hmark : (!p.required || t.isOptional) = marked
  have hchars : (propertyText p t).toList = "\n  ".toList ++ ((propertyKey p.name).toList ++
      ((if marked then "?" else "").toList ++ (":".toList ++ (' ' ::
        (t.required.text.toList ++ ";".toList))))) := by
    unfold propertyText
    simp only [hmark, String.toList_append, List.append_assoc]
    rfl
  have hblanks : Blanks "\n  ".toList := blanks_of_all rfl
  constructor
  · rw [hchars]
    exact begins_key hblanks p.name _
  · intro r
    have hstops (r : List Char) :
        Stops ((if marked then "?" else "").toList ++ (":".toList ++ r)) := by
      cases marked
      · exact stops_text (s := ":") rfl r
      · exact stops_text (s := "?") rfl _
    have hoptional (r : List Char) : Reads (optionalMark '?')
        ((if marked then "?" else "").toList ++ (":".toList ++ r)) () (":".toList ++ r) := by
      cases marked <;> rfl
    have hcolon (r : List Char) : Reads (phrase [.mark ':']) (":".toList ++ r) () r := rfl
    have hend (r : List Char) :
        Reads (phrase [.mark ';']) (skipType 0 (";".toList ++ r)) () r := rfl
    rw [hchars]
    simp only [List.append_assoc, List.cons_append]
    unfold member
    apply (reads_key hblanks p.name (hstops _)).bind
    apply (hoptional _).bind
    apply (hcolon _).bind
    apply (reads_type h.required _).bind
    apply (hend _).bind
    rfl

theorem reads_extended {parent : Option String} (hp : ∀ n ∈ parent, IsIdentifier n)
    (r : List Char) : Reads extended? ((extendsText parent).toList ++ (" \x7b".toList ++ r)) parent
      (" \x7b".toList ++ r) := by
  cases parent with
  | none => rfl
  | some n =>
    have hkeyword (r : List Char) :
        keyword? "extends" (" extends ".toList ++ r) = some (' ' :: r) := rfl
    have hname : name? (' ' :: (n.toList ++ (" \x7b".toList ++ r))) = some (n, " \x7b".toList ++ r) :=
      reads_name blanks_space (hp n rfl) (stops_text rfl _)
    rw [Reads, extended?, extendsText, String.toList_append, List.append_assoc, hkeyword]
    simp only [hname, Option.map_some]

theorem read?_interfaceText {description : String} {parent : Option String} {texts names : List String}
    (hd : ¬ Terminates description) (hn : IsIdentifier name) (hp : ∀ n ∈ parent, IsIdentifier n)
    (ht : List.Forall₂ (Item member) texts names) :
    Interface.read? (interfaceText description name parent texts) = some ⟨name, parent, names⟩ := by
  generalize htail : name.toList ++ ((extendsText parent).toList ++ (" \x7b".toList ++
    ((String.join texts).toList ++ '\n' :: '}' :: ("\nexport default ".toList ++
      (name.toList ++ ";".toList))))) = tail
  have hchars : (interfaceText description name parent texts).toList =
      (docComment description).toList ++ 'i' :: ("nterface ".toList ++ tail) := by
    rw [← htail]
    unfold interfaceText defaultExport
    simp only [String.toList_append, List.append_assoc]
    rfl
  obtain ⟨b, hb, hskip⟩ :=
    skipComment_docComment hd (c := 'i') rfl (by decide) ("nterface ".toList ++ tail)
  have hcomment : Reads (modify skipComment) (interfaceText description name parent texts).toList
      PUnit.unit (b ++ ("interface".toList ++ ' ' :: tail)) := by
    rw [hchars]
    exact congrArg (fun cs => some (PUnit.unit, cs)) hskip
  have hstops : Stops ((extendsText parent).toList ++ (" \x7b".toList ++
      ((String.join texts).toList ++ '\n' :: '}' :: ("\nexport default ".toList ++
        (name.toList ++ ";".toList))))) := by
    cases parent with
    | none => exact stops_text (s := " \x7b") rfl _
    | some n =>
      rw [extendsText, String.toList_append, List.append_assoc]
      exact stops_text (s := " extends ") rfl _
  have hopen (r : List Char) : Reads (phrase [.mark '{']) (" \x7b".toList ++ r) () r := rfl
  refine Reads.whole (r := []) ?_ rfl
  have hspace : isWordPart ' ' = false := by decide
  apply hcomment.bind
  apply (reads_word hb rfl (stops_cons hspace _)).bind
  rw [← htail]
  apply (reads_name blanks_space hn hstops).bind
  apply (reads_extended hp _).bind
  apply (hopen _).bind
  apply (reads_block ht _).bind
  apply (reads_exported hn).bind
  rfl

example : Interface.read? ("/** An; */ interface A extends B \x7b \"a b\"?: M<C | D>; c: E; \x7d" ++
    "export default A;") = some ⟨"A", some "B", ["a b", "c"]⟩ := by
  decide +kernel

end Texts

end TypedClient.Proofs.EntityReader
