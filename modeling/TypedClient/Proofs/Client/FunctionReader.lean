import TypedClient.Proofs.Client.EndpointComments
import TypedClient.Proofs.Json.LiteralText
import TypedClient.Proofs.Routing.RouteModuleReading

namespace TypedClient.Proofs.FunctionReader

open TypedClient.Module TypedClient.Literal TypedClient.Text
open TypedClient.Proofs.BlockComments TypedClient.Proofs.EndpointComments
open TypedClient.Proofs.FreshName TypedClient.Proofs.LiteralGrammar TypedClient.Proofs.LiteralReading
open TypedClient.Proofs.Numeral TypedClient.Proofs.PlainSchemas TypedClient.Proofs.RouteModuleReading
open TypedClient.Proofs.CallReading
open TypedClient.Proofs.LiteralText (Solid solid_of_all)

inductive Member
  | shorthand (name : String)
  | keyed (key value : String)
deriving DecidableEq, Repr

structure Emitted where
  name : String
  parameters : List String
  callee : String
  service : String
  operation : String
  bag : List Member
deriving DecidableEq, Repr

structure Declared where
  name : String
  marked : Bool
  type : String
deriving DecidableEq, Repr

/-- What stands in front of the body of a function, without the type of the result. -/
structure Header where
  name : String
  parameters : List Declared
deriving DecidableEq, Repr

def afterComment : List Char → List Char
  | '*' :: '/' :: cs => cs
  | _ :: cs => afterComment cs
  | [] => []

def skipComment (cs : List Char) : List Char :=
  match skipBlank cs with
  | '/' :: '*' :: cs => afterComment cs
  | cs => cs

def word? (cs : List Char) : Option (String × List Char) :=
  let (w, rest) := word cs
  if isBareKey w then some (String.ofList w, rest) else none

def name? (cs : List Char) : Option (String × List Char) :=
  word? (skipBlank cs)

def keyword? (w : String) (cs : List Char) : Option (List Char) :=
  (name? cs).bind fun r => if r.1 = w then some r.2 else none

/-- What follows a type with some angle brackets open. It ends before the first of some marks that
stands outside of all. -/
def skipType : Nat → List Char → List Char
  | _, [] => []
  | depth, c :: cs =>
    if c = '<' then skipType (depth + 1) cs
    else if c = '>' then skipType (depth - 1) cs
    else if depth = 0 ∧ c ∈ [',', ':', ';', ')', '{'] then c :: cs
    else skipType depth cs

def parameter? (cs : List Char) : Option (String × List Char) := do
  let (name, cs) ← name? cs
  let cs ← after? ':' ((after? '?' cs).getD cs)
  some (name, skipType 0 cs)

/-- The declaration of the parameter at the front. The blanks at both ends of its type are left out. -/
def declared? (cs : List Char) : Option (Declared × List Char) := do
  let (name, cs) ← name? cs
  let mark := after? '?' cs
  let cs ← after? ':' (mark.getD cs)
  let rest := skipType 0 cs
  let type := trim isBlank (cs.take (cs.length - rest.length))
  some (⟨name, mark.isSome, String.ofList type⟩, rest)

def member? (cs : List Char) : Option (Member × List Char) :=
  match text? cs with
  | some (key, cs) => do
    let (value, cs) ← name? (← after? ':' cs)
    some (.keyed key value, cs)
  | none => do
    let (key, cs) ← name? cs
    match after? ':' cs with
    | some cs => (name? cs).map fun r => (.keyed key r.1, r.2)
    | none => some (.shorthand key, cs)

/-- The parts up to a closing character, with commas between them and perhaps one behind the last;
`fuel` bounds their number. -/
def list? {α : Type} (part? : List Char → Option (α × List Char)) (close : Char) :
    Nat → List Char → Option (List α × List Char)
  | 0, _ => none
  | fuel + 1, cs => match after? close cs with
    | some cs => some ([], cs)
    | none => do
      let (a, cs) ← part? cs
      match after? ',' cs with
      | some cs => (list? part? close fuel cs).map fun r => (a :: r.1, r.2)
      | none => (after? close cs).map fun cs => ([a], cs)

def signature? (cs : List Char) : Option ((String × List String) × List Char) := do
  let cs ← keyword? "function" (← keyword? "async" (skipComment cs))
  let (name, cs) ← name? cs
  let (parameters, cs) ← list? parameter? ')' cs.length (← after? '(' cs)
  let cs ← after? '{' (skipType 0 (← after? ':' cs))
  some ((name, parameters), cs)

def header? (cs : List Char) : Option (Header × List Char) := do
  let cs ← keyword? "function" (← keyword? "async" (skipComment cs))
  let (name, cs) ← name? cs
  let (parameters, cs) ← list? declared? ')' cs.length (← after? '(' cs)
  let cs ← after? '{' (skipType 0 (← after? ':' cs))
  some (⟨name, parameters⟩, cs)

def Header.read? (text : String) : Option Header :=
  (header? text.toList).map Prod.fst

/-- The variable whose method is called by the statement at the front. It stands in the line of
`return`, which would else return nothing. -/
def callee? (cs : List Char) : Option (String × List Char) := do
  match ← keyword? "return" cs with
  | ' ' :: cs => word? cs
  | _ => none

def passed? (cs : List Char) : Option ((String × String × List Member) × List Char) := do
  let (service, cs) ← text? cs
  let (operation, cs) ← text? (← after? ',' cs)
  let cs ← after? '{' (← after? ',' cs)
  let (bag, cs) ← list? member? '}' cs.length cs
  some ((service, operation, bag), cs)

/-- What the function at the front of a text says, if it does nothing but make one call. -/
def Emitted.read? (text : String) : Option Emitted := do
  let ((name, parameters), cs) ← signature? text.toList
  let (callee, cs) ← callee? cs
  let cs ← after? '(' (← keyword? "call" (← after? '.' cs))
  let ((service, operation, bag), cs) ← passed? cs
  let _ ← after? '}' (← after? ';' (← after? ')' cs))
  some ⟨name, parameters, callee, service, operation, bag⟩

example : Emitted.read? ("async function f(a?: Map<T, U>): R<void> \x7b\n" ++
    "return c.call(\"S\", \"op\", \x7b \"a b\": a, a \x7d);\x7d") =
      some ⟨"f", ["a"], "c", "S", "op", [.keyed "a b" "a", .shorthand "a"]⟩ := by
  decide +kernel

example : Header.read? ("async function f(a: Map<T, U> | undefined, b?: S): R<void> \x7b") =
    some ⟨"f", [⟨"a", false, "Map<T, U> | undefined"⟩, ⟨"b", true, "S"⟩]⟩ := by
  decide +kernel

section Words

variable {b w r : List Char} {c : Char}

def Stops (r : List Char) : Prop :=
  ∀ c ∈ r.head?, isWordPart c = false

theorem stops_cons (h : isWordPart c = false) (r : List Char) : Stops (c :: r) := by
  rintro _ ⟨⟩
  exact h

theorem blanks_of_all (h : b.all isBlank = true) : Blanks b :=
  List.all_eq_true.mp h

theorem isWordPart_of_isBareKey (h : isBareKey w = true) : ∀ c ∈ w, isWordPart c = true := by
  cases w with
  | nil => cases h
  | cons c w =>
    rw [isBareKey, Bool.and_eq_true, List.all_eq_true] at h
    exact List.forall_mem_cons.mpr ⟨isWordPart_of_isWordStart h.1, h.2⟩

theorem isBareKey_of_isIdentifier {id : String} (h : IsIdentifier id) :
    isBareKey id.toList = true := by
  have hword := isWord_of_isIdentifier h
  obtain ⟨c, cs, hid, hdigit, -⟩ := h
  rw [hid] at hword ⊢
  obtain ⟨hc, hcs⟩ := List.forall_mem_cons.mp hword.2
  rw [isWordPart, Bool.or_eq_true] at hc
  rw [isBareKey, Bool.and_eq_true, List.all_eq_true]
  refine ⟨hc.resolve_right fun h => ?_, hcs⟩
  rw [Text.isDigit, h] at hdigit
  cases hdigit

theorem word?_append (hw : isBareKey w = true) (hr : Stops r) :
    word? (w ++ r) = some (String.ofList w, r) := by
  have hword : word (w ++ r) = (w, r) := span_append (isWordPart_of_isBareKey hw) hr
  rw [word?, hword]
  exact if_pos hw

theorem skipBlank_bare (hb : Blanks b) (hw : isBareKey w = true) (r : List Char) :
    skipBlank (b ++ (w ++ r)) = w ++ r := by
  have hne : w ≠ [] := by
    rintro rfl
    cases hw
  rw [skipBlank_append hb, IsWord.skipBlank ⟨hne, isWordPart_of_isBareKey hw⟩]

theorem begins_bare (hb : Blanks b) (hw : isBareKey w = true) (r : List Char) :
    ∃ c rest, skipBlank (b ++ (w ++ r)) = c :: rest ∧ isWordPart c = true := by
  have hskip := skipBlank_bare hb hw r
  have hpart := isWordPart_of_isBareKey hw
  cases w with
  | nil => cases hw
  | cons c w => exact ⟨c, w ++ r, hskip, hpart c List.mem_cons_self⟩

theorem name?_append (hb : Blanks b) (hw : isBareKey w = true) (hr : Stops r) :
    name? (b ++ (w ++ r)) = some (String.ofList w, r) := by
  rw [name?, skipBlank_bare hb hw, word?_append hw hr]

theorem keyword?_append {w : String} (hb : Blanks b) (hw : isBareKey w.toList = true)
    (hr : Stops r) : keyword? w (b ++ (w.toList ++ r)) = some r := by
  rw [keyword?, name?_append hb hw hr, Option.bind_some, String.ofList_toList]
  exact if_pos rfl

theorem after?_of_skipBlank (h : skipBlank w = c :: r) : after? c w = some r := by
  rw [after?, h]
  exact if_pos rfl

theorem after?_blanks (hb : Blanks b) (hc : isBlank c = false) (r : List Char) :
    after? c (b ++ c :: r) = some r :=
  after?_of_skipBlank ((skipBlank_append hb _).trans (skipBlank_cons hc r))

end Words

section Comments

theorem afterComment_append {body : List Char} (h : ¬ "*/".toList <:+: body) (r : List Char) :
    afterComment (body ++ '*' :: '/' :: r) = r := by
  induction body with
  | nil => rfl
  | cons c body ih =>
    have hrest := ih fun hbody => h (hbody.trans (List.suffix_cons c body).isInfix)
    rw [List.cons_append, afterComment.eq_def]
    split
    · -- only a terminator in the body would end the comment here
      rename_i heq
      cases body with
      | nil => simp at heq
      | cons d body =>
        obtain ⟨rfl, rfl⟩ : c = '*' ∧ d = '/' := by simp_all
        exact absurd (List.prefix_append ['*', '/'] body).isInfix h
    · rename_i heq
      obtain ⟨-, rfl⟩ := List.cons.inj heq
      exact hrest
    · rename_i heq
      cases heq

/-- The comment of a description is passed over if no terminator stands in it. -/
theorem skipComment_docComment {description : String} (h : ¬ Terminates description)
    {c : Char} (hblank : isBlank c = false) (hc : c ≠ '/') (r : List Char) :
    ∃ b, Blanks b ∧ skipComment ((docComment description).toList ++ c :: r) = b ++ c :: r := by
  by_cases hempty : description = ""
  · refine ⟨[], blanks_nil, ?_⟩
    have hskip : skipBlank ("".toList ++ c :: r) = c :: r := skipBlank_cons hblank r
    rw [docComment, if_pos hempty, skipComment, hskip]
    split
    · rename_i heq
      exact absurd (List.cons.inj heq).1 hc
    · rfl
  · have hbody : ¬ Terminates ("*\n * " ++ description ++ "\n ") := by
      intro hbody
      have hmem : ("*\n * " ++ description ++ "\n ") ∈ docBodies description := by
        rw [docBodies, if_neg hempty]
        exact List.mem_singleton_self _
      exact h ((terminates_docBodies_iff description).mp ⟨_, hmem, hbody⟩)
    have htext : (docComment description).toList ++ c :: r = '/' :: '*' ::
        (("*\n * " ++ description ++ "\n ").toList ++ '*' :: '/' :: '\n' :: c :: r) := by
      simp [docComment, hempty]
    refine ⟨['\n'], List.forall_mem_singleton.mpr rfl, ?_⟩
    rw [htext]
    exact afterComment_append hbody _

end Comments

section Types

def isTypePart (c : Char) : Bool :=
  c ∉ ['<', '>', ',', ':', ';', ')', '{']

def Skipped (opened : Nat) (t : String) : Prop :=
  ∀ depth r, opened ≤ depth → skipType depth (t.toList ++ r) = skipType depth r

variable {m n : Nat} {s t id : String}

theorem Skipped.append (hs : Skipped n s) (ht : Skipped n t) : Skipped n (s ++ t) := by
  intro depth r hdepth
  rw [String.toList_append, List.append_assoc, hs depth _ hdepth, ht depth r hdepth]

theorem Skipped.mono (h : Skipped m t) (hmn : m ≤ n) : Skipped n t :=
  fun depth r hdepth => h depth r (hmn.trans hdepth)

theorem skipType_plain {cs : List Char} (h : cs.all isTypePart = true) (depth : Nat)
    (r : List Char) : skipType depth (cs ++ r) = skipType depth r := by
  induction cs with
  | nil => rfl
  | cons c cs ih =>
    rw [List.all_cons, Bool.and_eq_true] at h
    obtain ⟨hc, hcs⟩ := h
    rw [isTypePart, decide_eq_true_eq, List.mem_cons, List.mem_cons, not_or, not_or] at hc
    obtain ⟨hopen, hclose, hmark⟩ := hc
    rw [List.cons_append, skipType, if_neg hopen, if_neg hclose, if_neg fun h => hmark h.2, ih hcs]

theorem skipped_plain (h : t.toList.all isTypePart = true) : Skipped n t :=
  fun depth r _ => skipType_plain h depth r

theorem all_isTypePart {p : Char → Bool} (hp : ['<', '>', ',', ':', ';', ')', '{'].any p = false)
    {cs : List Char} (h : ∀ c ∈ cs, p c = true) : cs.all isTypePart = true := by
  refine List.all_eq_true.mpr fun c hc => ?_
  rw [isTypePart, decide_eq_true_eq]
  exact fun hmem => List.any_eq_false.mp hp c hmem (h c hc)

theorem skipped_identifier (h : IsIdentifier id) : Skipped n id :=
  skipped_plain (all_isTypePart rfl (isWord_of_isIdentifier h).2)

theorem skipped_comma : Skipped 1 ", " := by
  intro depth r hdepth
  change skipType depth (',' :: ' ' :: r) = _
  rw [skipType, if_neg (by decide), if_neg (by decide), if_neg (by omega)]
  have hspace : [' '].all isTypePart = true := rfl
  exact skipType_plain hspace depth r

theorem skipped_generic (hs : Skipped n s) (ht : Skipped (n + 1) t) :
    Skipped n (s ++ "<" ++ t ++ ">") := by
  intro depth r hdepth
  have htext : (s ++ "<" ++ t ++ ">").toList ++ r =
      s.toList ++ '<' :: (t.toList ++ '>' :: r) := by simp
  rw [htext, hs depth _ hdepth, skipType, if_pos rfl, ht (depth + 1) _ (by omega), skipType,
    if_neg (by decide), if_pos rfl]
  rfl

mutual

theorem skipped_type : ∀ (t : TypeExpr) (_ : Named t) (n : Nat), Skipped n t.text
  | .array t, h, n =>
    skipped_generic (s := "ReadonlyArray") (skipped_plain rfl) (skipped_type t h (n + 1))
  | .record t, h, n => by
    have htext : (TypeExpr.record t).text =
        "Readonly" ++ "<" ++ ("Record" ++ "<" ++ ("string" ++ ", " ++ t.text) ++ ">") ++ ">" := by
      change "Readonly<Record<string, " ++ t.text ++ ">>" = _
      simp [← String.toList_inj]
    have hvalue := skipped_type t h (n + 2)
    have hargs := ((skipped_plain (n := n + 2) (t := "string") rfl).append
      (skipped_comma.mono (by omega))).append hvalue
    rw [htext]
    exact skipped_generic (skipped_plain rfl) (skipped_generic (skipped_plain rfl) hargs)
  | .reference id, h, n => skipped_identifier (h id (List.mem_singleton_self id))
  | .generic id ts, h, n =>
    have h := List.forall_mem_cons.mp h
    skipped_generic (skipped_identifier h.1) (skipped_typeList ts h.2 (n + 1) (by omega))
  | .optional t, h, n => (skipped_type t h n).append (skipped_plain rfl)
  | .promise t, h, n =>
    skipped_generic (s := "Promise") (skipped_plain rfl) (skipped_type t h (n + 1))
  | .typeOf id, h, n =>
    (skipped_plain rfl).append (skipped_identifier (h id (List.mem_singleton_self id)))
  | .string, _, n => skipped_plain rfl
  | .number, _, n => skipped_plain rfl
  | .boolean, _, n => skipped_plain rfl
  | .unknown, _, n => skipped_plain rfl
  | .any, _, n => skipped_plain rfl
  | .void, _, n => skipped_plain rfl

theorem skipped_typeList : ∀ (ts : List TypeExpr)
    (_ : ∀ id ∈ TypeExpr.namesOfList ts, IsIdentifier id) (n : Nat), 1 ≤ n →
    Skipped n (TypeExpr.listText ts)
  | [], _, _, _ => skipped_plain rfl
  | [t], h, n, _ => skipped_type t (fun id hid => h id (List.mem_append_left _ hid)) n
  | t :: u :: ts, h, n, hn =>
    have h := List.forall_mem_append.mp h
    ((skipped_type t h.1 n).append (skipped_comma.mono hn)).append
      (skipped_typeList (u :: ts) h.2 n hn)

end

theorem solid_identifier (h : IsIdentifier id) : Solid id.toList := by
  obtain ⟨hne, hpart⟩ := isWord_of_isIdentifier h
  refine solid_of_all hne fun c hc => ⟨not_isBlank_of_isWordPart (hpart c hc), ?_⟩
  rintro rfl
  exact absurd (hpart _ hc) (by decide)

theorem solid_around {s u : String} {c : Char} {cs : List Char} (hs : s.toList = c :: cs)
    (hc : isBlank c = false ∧ c ≠ ']') (hu : Solid u.toList) (t : String) :
    Solid (s ++ t ++ u).toList := by
  obtain ⟨ds, d, hlast, hd⟩ := hu.last
  refine ⟨⟨c, cs ++ t.toList ++ u.toList, ?_, hc⟩, (s ++ t).toList ++ ds, d, ?_, hd⟩
  · simp [hs]
  · simp [hlast]

theorem solid_plain {s : String} (hne : s.toList ≠ [])
    (h : s.toList.all (fun c => !isBlank c && c ≠ ']') = true) : Solid s.toList :=
  solid_of_all hne (by simpa using h)

theorem solid_type : ∀ (t : TypeExpr) (_ : Named t), Solid t.text.toList
  | .array t, _ =>
    solid_around (s := "ReadonlyArray<") rfl (by decide) (solid_plain (by decide) rfl) t.text
  | .record t, _ =>
    solid_around (s := "Readonly<Record<string, ") rfl (by decide) (solid_plain (by decide) rfl) t.text
  | .reference id, h => solid_identifier (h id (List.mem_singleton_self id))
  | .generic id ts, h => by
    obtain ⟨c, cs, hhead, hc⟩ := (solid_identifier (h id List.mem_cons_self)).head
    have hopen : (id ++ "<").toList = c :: (cs ++ ['<']) := by
      rw [String.toList_append, hhead]
      rfl
    exact solid_around hopen hc (solid_plain (by decide) rfl) (TypeExpr.listText ts)
  | .optional t, h => by
    obtain ⟨c, cs, hhead, hc⟩ := (solid_type t h).head
    have hunion : " | undefined" = " | " ++ "undefined" := rfl
    have htext : (TypeExpr.optional t).text = t.text ++ " | undefined" := rfl
    rw [htext, hunion, ← String.append_assoc]
    exact solid_around hhead hc (solid_plain (by decide) rfl) " | "
  | .promise t, _ =>
    solid_around (s := "Promise<") rfl (by decide) (solid_plain (by decide) rfl) t.text
  | .typeOf id, h => by
    have hid := solid_identifier (h id (List.mem_singleton_self id))
    have htext : (TypeExpr.typeOf id).text = "typeof" ++ " " ++ id := rfl
    rw [htext]
    exact solid_around rfl (by decide) hid " "
  | .string, _ => solid_plain (by decide) rfl
  | .number, _ => solid_plain (by decide) rfl
  | .boolean, _ => solid_plain (by decide) rfl
  | .unknown, _ => solid_plain (by decide) rfl
  | .any, _ => solid_plain (by decide) rfl
  | .void, _ => solid_plain (by decide) rfl

theorem skipType_type {t : TypeExpr} (h : Named t) (r : List Char) :
    skipType 0 (' ' :: (t.text.toList ++ r)) = skipType 0 r := by
  have hspace : Skipped 0 " " := skipped_plain rfl
  exact (hspace 0 _ (Nat.le_refl 0)).trans (skipped_type t h 0 0 r (Nat.le_refl 0))

end Types

section Lists

variable {α : Type} {part? : List Char → Option (α × List Char)} {close : Char}
  {b cs r : List Char} {a : α} {as : List α}

/-- A text of a part that is read up to the comma or the closing character behind it. -/
structure Part (part? : List Char → Option (α × List Char)) (close : Char) (cs : List Char)
    (a : α) : Prop where
  begins : ∃ c rest, skipBlank cs = c :: rest ∧ c ≠ close
  read : ∀ b c r, Blanks b → c = ',' ∨ c = close →
    ∃ rest, part? (cs ++ (b ++ c :: r)) = some (a, rest) ∧ skipBlank rest = c :: r

theorem skipBlank_cons_append {c : Char} {rest : List Char} (h : skipBlank cs = c :: rest)
    (r : List Char) : skipBlank (cs ++ r) = c :: (rest ++ r) := by
  obtain ⟨b, hb, hcs⟩ := exists_blanks cs
  have hc : isBlank c = false := by
    have hhead := List.head?_dropWhile_not isBlank cs
    rw [← skipBlank, h] at hhead
    simpa using hhead
  rw [hcs, h, List.append_assoc, skipBlank_append hb, List.cons_append, skipBlank_cons hc]

theorem list?_map {β : Type} {other? : List Char → Option (β × List Char)} {f : α → β}
    (hother : ∀ cs, other? cs = (part? cs).map fun r => (f r.1, r.2)) (n : Nat) (cs : List Char) :
    list? other? close n cs = (list? part? close n cs).map fun r => (r.1.map f, r.2) := by
  induction n generalizing cs with
  | zero => rfl
  | succ n ih =>
    rw [list?, list?]
    cases after? close cs with
    | some cs => rfl
    | none =>
      rw [hother]
      cases hpart : part? cs with
      | none => rfl
      | some r =>
        simp only [Option.map_some, Option.bind_eq_bind, Option.bind_some]
        cases after? ',' r.2 with
        | some cs => simp [ih, Function.comp_def]
        | none => simp [Function.comp_def]

theorem list?_listed (hclose : isBlank close = false) (hcomma : close ≠ ',') (hb : Blanks b)
    (r : List Char) {n : Nat} (h : Listed (Part part? close) cs as) (hn : cs.length < n) :
    list? part? close n (cs ++ (b ++ close :: r)) = some (as, r) := by
  induction n generalizing cs as with
  | zero => omega
  | succ n ih =>
    obtain ⟨hcs, rfl⟩ | ⟨a, ha, rfl⟩ | ⟨ds, es, a, as', ha, has, rfl, rfl⟩ := h.front
    · rw [list?, ← List.append_assoc, after?_blanks (hcs.append hb) hclose]
    · obtain ⟨c, rest, hbegin, hne⟩ := ha.begins
      obtain ⟨u, hpart, hu⟩ := ha.read b close r hb (.inr rfl)
      rw [list?, after?_of_ne (skipBlank_cons_append hbegin _) hne]
      simp only [hpart, Option.bind_eq_bind, Option.bind_some, after?_of_ne hu hcomma,
        after?_of_skipBlank hu, Option.map_some]
    · obtain ⟨c, rest, hbegin, hne⟩ := ha.begins
      obtain ⟨u, hpart, hu⟩ := ha.read [] ',' (es ++ (b ++ close :: r)) blanks_nil (.inl rfl)
      rw [List.length_append, List.length_cons] at hn
      have hsplit : ds ++ ',' :: es ++ (b ++ close :: r) =
          ds ++ ([] ++ ',' :: (es ++ (b ++ close :: r))) := by simp
      rw [hsplit, list?, after?_of_ne (skipBlank_cons_append hbegin _) hne]
      simp only [hpart, Option.bind_eq_bind, Option.bind_some, after?_of_skipBlank hu,
        ih has (by omega), Option.map_some]

theorem separated_intercalate {P : List Char → α → Prop} {ts : List (List Char)} (b : List Char)
    (h : List.Forall₂ (fun t a => P (b ++ t) a) ts as) (hne : ts ≠ []) :
    Separated P (b ++ (',' :: b).intercalate ts) as := by
  induction h with
  | nil => exact absurd rfl hne
  | @cons t a ts as ha has ih =>
    cases has with
    | nil =>
      rw [List.intercalate_singleton]
      exact .one ha
    | @cons u a' ts as ha' has =>
      have hrest := ih (List.cons_ne_nil u ts)
      rw [List.intercalate_cons_cons, List.append_assoc, List.cons_append, ← List.append_assoc]
      exact .more ha hrest

end Lists

end TypedClient.Proofs.FunctionReader
