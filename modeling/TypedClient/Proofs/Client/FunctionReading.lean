import TypedClient.Client.Endpoint
import TypedClient.Proofs.Client.FunctionReader

namespace TypedClient.Proofs.FunctionReading

open TypedClient.Module TypedClient.Endpoint TypedClient.Literal TypedClient.Text
open TypedClient.Proofs.BlockComments TypedClient.Proofs.EndpointComments
open TypedClient.Proofs.FreshName TypedClient.Proofs.FunctionReader TypedClient.Proofs.LiteralGrammar
open TypedClient.Proofs.LiteralReading TypedClient.Proofs.Numeral TypedClient.Proofs.PlainSchemas
open TypedClient.Proofs.CallReading
open TypedClient.Proofs.RoundTrip (blanks_space key_keyChars)

section Parts

variable {b : List Char} {a : Argument}

def declaredType (a : Argument) : TypeExpr :=
  if a.trailing then a.type.required else if a.optional then a.type.orUndefined else a.type

def declarationOf (a : Argument) : Declared :=
  ⟨a.binding, a.trailing, (declaredType a).text⟩

theorem named_declaredType (h : Named a.type) : Named (declaredType a) := by
  unfold declaredType
  split
  · exact h.required
  split
  · exact h.orUndefined
  · exact h

theorem declaration_eq (a : Argument) :
    a.declaration = a.binding ++ (if a.trailing then "?" else "") ++ ": " ++ (declaredType a).text := by
  unfold Argument.declaration declaredType
  split
  · simp [← String.toList_inj]
  split <;> simp

theorem declared?_append {id : String} {marked : Bool} {t : TypeExpr} {b' r : List Char} {c : Char}
    (hb : Blanks b) (hid : IsIdentifier id) (ht : Named t) (hb' : Blanks b')
    (hc : c = ',' ∨ c = ')') :
    declared? (b ++ (id.toList ++ ((if marked then "?" else "").toList ++ ':' :: ' ' ::
      (t.text.toList ++ (b' ++ c :: r))))) = some (⟨id, marked, t.text⟩, c :: r) := by
  generalize hcolon : ':' :: ' ' :: (t.text.toList ++ (b' ++ c :: r)) = colon
  have hmark : after? '?' ((if marked then "?" else "").toList ++ colon) =
      if marked then some colon else none := by
    rw [← hcolon]
    cases marked <;> rfl
  have hmarked : (if marked then some colon else none).getD
      ((if marked then "?" else "").toList ++ colon) = colon := by
    cases marked <;> rfl
  have htype : after? ':' colon = some (' ' :: (t.text.toList ++ (b' ++ c :: r))) := by
    rw [← hcolon]
    exact after?_cons rfl _
  have hrest : skipType 0 (' ' :: (t.text.toList ++ (b' ++ c :: r))) = c :: r := by
    have hplain : b'.all isTypePart = true := all_isTypePart rfl hb'
    rw [skipType_type ht, skipType_plain hplain]
    obtain rfl | rfl := hc <;> rfl
  -- the type is what stands in front of the rest, without the blanks at its ends
  have hpassed : ' ' :: (t.text.toList ++ (b' ++ c :: r)) =
      [' '] ++ (t.text.toList ++ b') ++ c :: r := by simp
  have htrim := (solid_type t ht).trim_between blanks_space hb'
  have hstops : Stops ((if marked then "?" else "").toList ++ colon) := by
    rw [← hcolon]
    cases marked <;> exact stops_cons rfl _
  have hname := name?_append hb (isBareKey_of_isIdentifier hid) hstops
  rw [declared?, hname]
  simp only [Option.bind_eq_bind, Option.bind_some, hmark, hmarked, htype, hrest]
  rw [hpassed, List.length_append, Nat.add_sub_cancel, List.take_left', htrim]
  · cases marked <;> simp
  · rfl

theorem part_declared (hb : Blanks b) (h : NamedArgument a) :
    Part declared? ')' (b ++ a.declaration.toList) (declarationOf a) := by
  have ht := named_declaredType h.type
  have hchars (r : List Char) : b ++ a.declaration.toList ++ r =
      b ++ (a.binding.toList ++ ((if a.trailing then "?" else "").toList ++ ':' :: ' ' ::
        ((declaredType a).text.toList ++ r))) := by
    simp [declaration_eq]
  constructor
  · obtain ⟨c, rest, hc, hword⟩ := begins_bare hb (isBareKey_of_isIdentifier h.binding)
      ((if a.trailing then "?" else "").toList ++ ':' :: ' ' :: (declaredType a).text.toList)
    refine ⟨c, rest, ?_, ?_⟩
    · have hnil := hchars []
      simp only [List.append_nil] at hnil
      rw [hnil, hc]
    · rintro rfl
      exact absurd hword (by decide)
  · intro b' c r hb' hc
    refine ⟨c :: r, ?_, ?_⟩
    · rw [hchars, declared?_append hb h.binding ht hb' hc]
      rfl
    · obtain rfl | rfl := hc <;> rfl

theorem parameter?_eq (cs : List Char) :
    parameter? cs = (declared? cs).map fun r => (r.1.name, r.2) := by
  rw [parameter?, declared?]
  cases name? cs with
  | none => rfl
  | some r =>
    simp only [Option.bind_eq_bind, Option.bind_some]
    cases after? ':' ((after? '?' r.2).getD r.2) <;> rfl

def memberOf (a : Argument) : Member :=
  if a.name = a.binding then .shorthand a.name else .keyed a.name a.binding

theorem propertyKey_eq_iff (h : IsIdentifier a.binding) :
    propertyKey a.name = a.binding ↔ a.name = a.binding := by
  have hbare := isBareKey_of_isIdentifier h
  rw [← String.toList_inj, propertyKey, String.toList_ofList, keyChars]
  constructor
  · intro hkey
    split at hkey
    · exact String.toList_inj.mp hkey
    · rw [← hkey] at hbare
      cases hbare
  · intro hname
    rw [hname, if_pos hbare]

theorem text?_blanks (hb : Blanks b) (s : String) (r : List Char) :
    text? (b ++ (quoteChars s.toList ++ r)) = some (s, r) := by
  rw [← text?_append, text?, text?, skipBlank_append hb]

theorem text?_bare {w : List Char} (hb : Blanks b) (hw : isBareKey w = true) (r : List Char) :
    text? (b ++ (w ++ r)) = none := by
  obtain ⟨c, rest, hskip, hc⟩ := begins_bare hb hw r
  rw [text?, hskip]
  split
  · rename_i heq
    rw [(List.cons.inj heq).1] at hc
    exact absurd hc (by decide)
  · rfl

theorem member?_keyed {k value : String} (hb : Blanks b) (hv : IsIdentifier value) {r : List Char}
    (hr : Stops r) : member? (b ++ ((propertyKey k).toList ++ ':' :: ' ' :: (value.toList ++ r))) =
      some (.keyed k value, r) := by
  have hvalue := name?_append blanks_space (isBareKey_of_isIdentifier hv) hr
  generalize hrest : ' ' :: (value.toList ++ r) = rest
  rw [List.singleton_append, hrest] at hvalue
  have hcolon : after? ':' (':' :: rest) = some rest := after?_cons rfl rest
  rw [propertyKey, String.toList_ofList, keyChars, member?]
  by_cases hbare : isBareKey k.toList = true
  · have hname := name?_append hb hbare (stops_cons rfl rest : Stops (':' :: rest))
    rw [if_pos hbare, text?_bare hb hbare, hname]
    simp only [Option.bind_eq_bind, Option.bind_some, hcolon, hvalue, Option.map_some,
      String.ofList_toList]
  · rw [if_neg hbare, text?_blanks hb]
    simp only [Option.bind_eq_bind, Option.bind_some, hcolon, hvalue, String.ofList_toList]

theorem member?_shorthand {id : String} (hb : Blanks b) (hid : IsIdentifier id) {c : Char}
    {r rest : List Char} (hr : Stops r) (hc : skipBlank r = c :: rest) (hne : c ≠ ':') :
    member? (b ++ (id.toList ++ r)) = some (.shorthand id, r) := by
  have hbare := isBareKey_of_isIdentifier hid
  rw [member?, text?_bare hb hbare, name?_append hb hbare hr]
  simp only [Option.bind_eq_bind, Option.bind_some, after?_of_ne hc hne, String.ofList_toList]

theorem begins_entry (a : Argument) : Begins a.entry.toList := by
  have hkey : Begins (propertyKey a.name).toList := by
    rw [propertyKey, String.toList_ofList]
    exact begins_key (key_keyChars a.name.toList)
  obtain ⟨c, rest, hc, hbegins⟩ := hkey
  unfold Argument.entry
  dsimp only
  split
  · exact ⟨c, rest, hc, hbegins⟩
  · exact ⟨c, rest ++ (": " ++ a.binding).toList, by simp [hc], hbegins⟩

theorem part_member (hb : Blanks b) (h : NamedArgument a) :
    Part member? '}' (b ++ a.entry.toList) (memberOf a) := by
  have hstops : ∀ b' c r, Blanks b' → c = ',' ∨ c = '}' → Stops (b' ++ c :: r) := by
    intro b' c r hb' hc
    have hends : Ends (c :: r) := by
      obtain rfl | rfl := hc <;> exact ends_cons (by decide) (by decide)
    exact fun x hx => (ends_append hb' hends x hx).1
  have hblank : ∀ b' c r, Blanks b' → c = ',' ∨ c = '}' → skipBlank (b' ++ c :: r) = c :: r := by
    intro b' c r hb' hc
    rw [skipBlank_append hb']
    obtain rfl | rfl := hc <;> rfl
  have hbegins : ∃ c rest, skipBlank (b ++ a.entry.toList) = c :: rest ∧ c ≠ '}' := by
    obtain ⟨c, rest, hc, hblank, -, hne⟩ := begins_entry a
    exact ⟨c, rest, by rw [skipBlank_append hb, hc, skipBlank_cons hblank], hne⟩
  by_cases hname : a.name = a.binding
  · have hentry : a.entry = a.binding := by
      have hkey := (propertyKey_eq_iff h.binding).mpr hname
      rw [Argument.entry]
      exact (if_pos hkey).trans hkey
    have hmember : memberOf a = .shorthand a.binding := by rw [memberOf, if_pos hname, hname]
    rw [hmember]
    refine ⟨hbegins, fun b' c r hb' hc => ⟨b' ++ c :: r, ?_, hblank b' c r hb' hc⟩⟩
    rw [hentry, List.append_assoc]
    refine member?_shorthand hb h.binding (hstops b' c r hb' hc) (hblank b' c r hb' hc) ?_
    obtain rfl | rfl := hc <;> decide
  · have hentry : a.entry = propertyKey a.name ++ ": " ++ a.binding :=
      if_neg fun hkey => hname ((propertyKey_eq_iff h.binding).mp hkey)
    have hmember : memberOf a = .keyed a.name a.binding := if_neg hname
    have hchars (r : List Char) : b ++ a.entry.toList ++ r =
        b ++ ((propertyKey a.name).toList ++ ':' :: ' ' :: (a.binding.toList ++ r)) := by
      simp [hentry]
    rw [hmember]
    refine ⟨hbegins, fun b' c r hb' hc => ⟨b' ++ c :: r, ?_, hblank b' c r hb' hc⟩⟩
    rw [hchars, member?_keyed hb h.binding (hstops b' c r hb' hc)]

end Parts

section Functions

variable {f : Function} {client service : String}

theorem forall₂_map {α β γ : Type} {R : β → γ → Prop} (g : α → β) (k : α → γ) {as : List α}
    (h : ∀ a ∈ as, R (g a) (k a)) : List.Forall₂ R (as.map g) (as.map k) := by
  rw [List.forall₂_map_left_iff, List.forall₂_map_right_iff]
  exact List.forall₂_same.mpr h

theorem listed_parameterList {as : List Argument} (h : ∀ a ∈ as, NamedArgument a) :
    ∃ cs b, (parameterList (as.map Argument.declaration)).toList = cs ++ b ∧ Blanks b ∧
      Listed (Part declared? ')') cs (as.map declarationOf) := by
  cases as with
  | nil => exact ⟨[], [], rfl, blanks_nil, .none blanks_nil⟩
  | cons a as =>
    have hindent : Blanks "\n  ".toList := blanks_of_all rfl
    have hbreak : Blanks ['\n'] := blanks_of_all rfl
    have hparts := forall₂_map (R := fun t q => Part declared? ')' ("\n  ".toList ++ t) q)
      (fun a : Argument => a.declaration.toList) declarationOf
      fun a ha => part_declared hindent (h a ha)
    refine ⟨_, [], ?_, blanks_nil,
      .trailing (separated_intercalate _ hparts (List.cons_ne_nil _ _)) hbreak⟩
    have htext : parameterList ((a :: as).map Argument.declaration) =
        "\n  " ++ ",\n  ".intercalate ((a :: as).map Argument.declaration) ++ ",\n" := rfl
    have hcomma : ",\n  ".toList = ',' :: "\n  ".toList := rfl
    have hlast : ",\n".toList = [',', '\n'] := rfl
    rw [htext, String.toList_append, String.toList_append, String.toList_intercalate, List.map_map,
      hcomma, hlast, List.append_nil]
    simp only [Function.comp_def]

theorem listed_inlineObject {as : List Argument} (h : ∀ a ∈ as, NamedArgument a) :
    ∃ cs b, (inlineObject (as.map Argument.entry)).toList = '{' :: (cs ++ (b ++ ['}'])) ∧
      Blanks b ∧ Listed (Part member? '}') cs (as.map memberOf) := by
  cases as with
  | nil => exact ⟨[], [], rfl, blanks_nil, .none blanks_nil⟩
  | cons a as =>
    have hparts := forall₂_map (R := fun t m => Part member? '}' ([' '] ++ t) m)
      (fun a : Argument => a.entry.toList) memberOf fun a ha => part_member blanks_space (h a ha)
    refine ⟨_, [' '], ?_, blanks_space,
      .parts (separated_intercalate [' '] hparts (List.cons_ne_nil _ _))⟩
    have htext : inlineObject ((a :: as).map Argument.entry) =
        "\x7b " ++ ", ".intercalate ((a :: as).map Argument.entry) ++ " \x7d" := rfl
    have hopen : "\x7b ".toList = ['{', ' '] := rfl
    have hcomma : ", ".toList = [',', ' '] := rfl
    have hclose : " \x7d".toList = [' ', '}'] := rfl
    rw [htext, String.toList_append, String.toList_append, String.toList_intercalate, List.map_map,
      hopen, hcomma, hclose]
    simp [Function.comp_def]

def headerChars (f : Function) : List Char :=
  "async".toList ++ ([' '] ++ ("function".toList ++ ([' '] ++ (f.binding.toList ++ '(' ::
    ((parameterList (f.arguments.map Argument.declaration)).toList ++ ')' :: ':' :: ' ' ::
      (f.response.promise.text.toList ++ [' ', '{']))))))

def passedChars (service : String) (f : Function) : List Char :=
  quoteChars service.toList ++ ',' :: ' ' :: (quoteChars f.operation.name.toList ++ ',' :: ' ' ::
    ((inlineObject (f.arguments.map Argument.entry)).toList))

def uncommented (service client : String) (f : Function) : String :=
  "async function " ++ f.binding ++ "(" ++ parameterList (f.arguments.map Argument.declaration) ++
    "): " ++ f.response.promise.text ++ " \x7b\n  return " ++ client ++ ".call(" ++ quoted service ++
    ", " ++ quoted f.operation.name ++ ", " ++ inlineObject (f.arguments.map Argument.entry) ++
    ");\n\x7d\nexport \x7b " ++ f.binding ++ " as " ++ f.exported ++ " \x7d;"

theorem text_eq (service client : String) (f : Function) : f.text service client =
    docComment (f.operation.description.getD "") ++ uncommented service client f := by
  unfold Function.text uncommented
  simp only [String.append_assoc]

theorem toList_uncommented (service client : String) (f : Function) :
    ∃ rest, (uncommented service client f).toList = headerChars f ++ ("\n  ".toList ++
      ("return".toList ++ ' ' :: (client.toList ++ '.' :: ("call".toList ++ '(' ::
        (passedChars service f ++ ')' :: ';' :: '\n' :: '}' :: rest))))) := by
  refine ⟨("\nexport \x7b " ++ f.binding ++ " as " ++ f.exported ++ " \x7d;").toList, ?_⟩
  have hfunction : "async function ".toList =
      "async".toList ++ ' ' :: ("function".toList ++ [' ']) := rfl
  have hcolon : "): ".toList = [')', ':', ' '] := rfl
  have hbody : " \x7b\n  return ".toList =
      ' ' :: '{' :: ("\n  ".toList ++ ("return".toList ++ [' '])) := rfl
  have hcall : ".call(".toList = '.' :: ("call".toList ++ ['(']) := rfl
  have hcomma : ", ".toList = [',', ' '] := rfl
  -- the braces of the function and of the export that follows
  have hend : ");\n\x7d\nexport \x7b ".toList =
      ')' :: ';' :: '\n' :: '}' :: "\nexport \x7b ".toList := rfl
  have hparen : "(".toList = ['('] := rfl
  delta headerChars
  unfold uncommented passedChars quoted
  simp only [String.toList_append, String.toList_ofList, hfunction, hcolon, hbody, hcall, hcomma,
    hend, hparen, List.append_assoc, List.cons_append, List.nil_append]

theorem keywords_append {description : String} (hd : ¬ Terminates description) {r : List Char}
    (hr : Stops r) :
    ∃ cs, keyword? "async" (skipComment ((docComment description).toList ++ ("async".toList ++
        ([' '] ++ ("function".toList ++ r))))) = some cs ∧ keyword? "function" cs = some r := by
  have hword : "async".toList = 'a' :: "sync".toList := rfl
  obtain ⟨b, hb, hskip⟩ := skipComment_docComment hd (c := 'a') rfl (by decide)
    ("sync".toList ++ ([' '] ++ ("function".toList ++ r)))
  refine ⟨[' '] ++ ("function".toList ++ r), ?_, keyword?_append blanks_space rfl hr⟩
  rw [hword, List.cons_append, hskip, ← List.cons_append, ← hword]
  exact keyword?_append hb rfl (stops_cons rfl _)

def headerOf (f : Function) : Header :=
  ⟨f.binding, f.arguments.map declarationOf⟩

theorem header?_append (h : NamedFunction f) {description : String} (hd : ¬ Terminates description)
    (r : List Char) : header? ((docComment description).toList ++ (headerChars f ++ r)) =
      some (headerOf f, r) := by
  obtain ⟨cs, b, hlist, hb, hlisted⟩ := listed_parameterList h.arguments
  -- what is left after the name, after the parameters, and after the type
  generalize hbody : ' ' :: '{' :: r = body
  generalize htype : ' ' :: (f.response.promise.text.toList ++ body) = type
  generalize hparameters : '(' :: (cs ++ (b ++ ')' :: ':' :: type)) = parameters
  have hspace : isWordPart ' ' = false := rfl
  obtain ⟨rest, hasync, hfunction⟩ :=
    keywords_append hd (stops_cons hspace (f.binding.toList ++ parameters))
  have hchars : headerChars f ++ r = "async".toList ++ ([' '] ++ ("function".toList ++ ' ' ::
      (f.binding.toList ++ parameters))) := by
    -- the equation of the definition would evaluate the words in it
    delta headerChars
    rw [hlist, ← hparameters, ← htype, ← hbody]
    simp only [List.append_assoc, List.cons_append, List.nil_append]
  have hname : name? (' ' :: (f.binding.toList ++ parameters)) = some (f.binding, parameters) := by
    have hstops : Stops parameters := by
      rw [← hparameters]
      exact stops_cons rfl _
    have hread := name?_append blanks_space (isBareKey_of_isIdentifier h.binding) hstops
    rwa [String.ofList_toList] at hread
  have hparen : after? '(' parameters = some (cs ++ (b ++ ')' :: ':' :: type)) := by
    rw [← hparameters]
    exact after?_cons rfl _
  have hlength : cs.length < parameters.length := by
    rw [← hparameters, List.length_cons, List.length_append]
    omega
  have hread := list?_listed rfl (by decide) hb (':' :: type) hlisted hlength
  have hcolon : after? ':' (':' :: type) = some type := after?_cons rfl type
  have hskipped : skipType 0 type = '{' :: r := by
    have hpromise : Named f.response.promise := h.response
    rw [← htype, skipType_type hpromise, ← hbody]
    rfl
  have hbrace : after? '{' ('{' :: r) = some r := after?_cons rfl r
  rw [header?, hchars]
  refine Option.bind_eq_some_iff.mpr ⟨rest, hasync, ?_⟩
  refine Option.bind_eq_some_iff.mpr ⟨_, hfunction, ?_⟩
  refine Option.bind_eq_some_iff.mpr ⟨_, hname, ?_⟩
  refine Option.bind_eq_some_iff.mpr ⟨_, hparen, ?_⟩
  refine Option.bind_eq_some_iff.mpr ⟨_, hread, ?_⟩
  refine Option.bind_eq_some_iff.mpr ⟨_, hcolon, ?_⟩
  rw [hskipped]
  exact Option.bind_eq_some_iff.mpr ⟨_, hbrace, rfl⟩

theorem signature?_eq (cs : List Char) : signature? cs =
    (header? cs).map fun r => ((r.1.name, r.1.parameters.map Declared.name), r.2) := by
  simp only [signature?, header?, list?_map parameter?_eq, Option.bind_eq_bind, Option.map_bind,
    Option.bind_map, Function.comp_def, Option.map_some]

theorem signature?_append (h : NamedFunction f) {description : String}
    (hd : ¬ Terminates description) (r : List Char) :
    signature? ((docComment description).toList ++ (headerChars f ++ r)) =
      some ((f.binding, f.arguments.map Argument.binding), r) := by
  rw [signature?_eq, header?_append h hd, Option.map_some, headerOf, List.map_map]
  rfl

theorem passed?_append (h : ∀ a ∈ f.arguments, NamedArgument a) (r : List Char) :
    passed? (passedChars service f ++ r) =
      some ((service, f.operation.name, f.arguments.map memberOf), r) := by
  obtain ⟨cs, b, hobject, hb, hlisted⟩ := listed_inlineObject h
  generalize hbag : cs ++ (b ++ '}' :: r) = bag
  generalize hoperation : [' '] ++ (quoteChars f.operation.name.toList ++ ',' :: ' ' :: '{' :: bag) =
    operation
  have hchars : passedChars service f ++ r =
      [] ++ (quoteChars service.toList ++ ',' :: operation) := by
    simp [passedChars, hobject, ← hoperation, ← hbag]
  have hservice := text?_blanks blanks_nil service (',' :: operation)
  have hname : text? operation = some (f.operation.name, ',' :: ' ' :: '{' :: bag) := by
    rw [← hoperation]
    exact text?_blanks blanks_space _ _
  have hcomma (t : List Char) : after? ',' (',' :: t) = some t := after?_cons rfl t
  have hbrace : after? '{' (' ' :: '{' :: bag) = some bag := after?_blanks blanks_space rfl bag
  have hlength : cs.length < bag.length := by
    rw [← hbag, List.length_append, List.length_append, List.length_cons]
    omega
  have hread := list?_listed rfl (by decide) hb r hlisted hlength
  rw [hbag] at hread
  rw [hchars, passed?, hservice]
  simp only [hcomma, hname, hbrace, hread, Option.bind_eq_bind, Option.bind_some]

/-- The header of a function is read with the comment in front of it, if that ends where it should, and
without it. -/
theorem read?_header (h : NamedFunction f) (service client : String) :
    Header.read? (uncommented service client f) = some (headerOf f) ∧
      (¬ Terminates (f.operation.description.getD "") →
        Header.read? (f.text service client) = some (headerOf f)) := by
  obtain ⟨rest, htext⟩ := toList_uncommented service client f
  have hempty : ¬ Terminates "" := by decide
  constructor
  · rw [Header.read?, htext]
    exact congrArg (Option.map Prod.fst) (header?_append h hempty _)
  · intro hd
    rw [Header.read?, text_eq, String.toList_append, htext, header?_append h hd]
    rfl

theorem read?_text (h : NamedFunction f) (hc : IsIdentifier client)
    (hd : ¬ Terminates (f.operation.description.getD "")) (service : String) :
    Emitted.read? (f.text service client) = some ⟨f.binding, f.arguments.map Argument.binding,
      client, service, f.operation.name, f.arguments.map memberOf⟩ := by
  obtain ⟨rest, htext⟩ := toList_uncommented service client f
  generalize hend : ')' :: ';' :: '\n' :: '}' :: rest = fin at htext
  generalize hcall : '.' :: ("call".toList ++ '(' :: (passedChars service f ++ fin)) = call at htext
  have hcallee : callee? ("\n  ".toList ++ ("return".toList ++ ' ' :: (client.toList ++ call))) =
      some (client, call) := by
    have hreturn := keyword?_append (w := "return") (b := "\n  ".toList) (blanks_of_all rfl) rfl
      (stops_cons rfl (client.toList ++ call) : Stops (' ' :: (client.toList ++ call)))
    have hword : word? (client.toList ++ call) = some (client, call) := by
      rw [word?_append (isBareKey_of_isIdentifier hc), String.ofList_toList]
      rw [← hcall]
      exact stops_cons rfl _
    rw [callee?, hreturn]
    exact hword
  have hdot : after? '.' call =
      some ([] ++ ("call".toList ++ '(' :: (passedChars service f ++ fin))) := by
    rw [← hcall]
    exact after?_cons rfl _
  have hkeyword := keyword?_append (w := "call") blanks_nil rfl
    (stops_cons rfl (passedChars service f ++ fin) : Stops ('(' :: (passedChars service f ++ fin)))
  have hparen : after? '(' ('(' :: (passedChars service f ++ fin)) =
      some (passedChars service f ++ fin) := after?_cons rfl _
  have hclose : after? ')' fin = some (';' :: '\n' :: '}' :: rest) := by
    rw [← hend]
    exact after?_cons rfl _
  have hsemicolon : after? ';' (';' :: '\n' :: '}' :: rest) = some ('\n' :: '}' :: rest) :=
    after?_cons rfl _
  have hbrace : after? '}' ('\n' :: '}' :: rest) = some rest :=
    after?_blanks (b := ['\n']) (blanks_of_all rfl) rfl rest
  rw [Emitted.read?, text_eq, String.toList_append, htext, signature?_append h hd]
  simp only [hcallee, hdot, hkeyword, hparen, passed?_append h.arguments, hclose, hsemicolon, hbrace,
    Option.bind_eq_bind, Option.bind_some]

end Functions

end TypedClient.Proofs.FunctionReading
