import TypedClient.Proofs.Literal.RoundTrip
import TypedClient.Routing.RouteModule

namespace TypedClient.Proofs.CallReading

open TypedClient.Literal TypedClient.Routing TypedClient.Routing.RouteModule TypedClient.Text
open TypedClient.Proofs.Numeral TypedClient.Proofs.LiteralReading TypedClient.Proofs.RoundTrip

/-- A tree of routes as nested calls describe it: paths, specifiers of modules and nodes below. -/
inductive Outline
  | node (path : String) (specifier : Option String) (children : List Outline)

def opening? (create cs : List Char) : Option (List Char) :=
  match word (skipBlank cs) with
  | (w, rest) => if w = create then
      match skipBlank rest with
      | '(' :: rest => some rest
      | _ => none
    else none

def text? (cs : List Char) : Option (String × List Char) :=
  match skipBlank cs with
  | '"' :: rest => match quotedRest '"' rest with
    | .ok (s, rest) => some (String.ofList s, rest)
    | .error _ => none
  | _ => none

/-- The identifier behind a comma at the front, if one stands there, as the specifier that it is
resolved to. -/
def view? (specifierOf : String → Option String) (cs : List Char) :
    Option (Option String × List Char) :=
  match skipBlank cs with
  | ',' :: rest => match word (skipBlank rest) with
    | ([], _) => some (none, cs)
    | (w, rest) => (specifierOf (String.ofList w)).map fun s => (some s, rest)
  | _ => some (none, cs)

def after? (c : Char) (cs : List Char) : Option (List Char) :=
  match skipBlank cs with
  | d :: rest => if d = c then some rest else none
  | [] => none

mutual

def readNode (specifierOf : String → Option String) (create : List Char) :
    Nat → List Char → Option (Outline × List Char)
  | 0, _ => none
  | fuel + 1, cs => do
    let cs ← opening? create cs
    let (path, cs) ← text? cs
    let (specifier, cs) ← view? specifierOf cs
    match after? ',' cs with
    | none => (after? ')' cs).map fun cs => (.node path specifier [], cs)
    | some cs => do
      let cs ← after? '[' cs
      let (children, cs) ← readNodes specifierOf create fuel cs
      (after? ')' cs).map fun cs => (.node path specifier children, cs)

def readNodes (specifierOf : String → Option String) (create : List Char) :
    Nat → List Char → Option (List Outline × List Char)
  | 0, _ => none
  | fuel + 1, cs => do
    let (o, cs) ← readNode specifierOf create fuel cs
    match after? ',' cs with
    | some cs => (readNodes specifierOf create fuel cs).map fun r => (o :: r.1, r.2)
    | none => (after? ']' cs).map fun cs => ([o], cs)

end

def Outline.read (specifierOf : String → Option String) (create text : String) : Option Outline :=
  match readNode specifierOf create.toList text.length text.toList with
  | some (o, rest) => if skipBlank rest = [] then some o else none
  | none => none

def IsWord (w : List Char) : Prop :=
  w ≠ [] ∧ ∀ c ∈ w, isWordPart c = true

/-- A text of a call that is read back with enough steps, whatever follows it. -/
structure Reads (specifierOf : String → Option String) (create text : List Char) (o : Outline) :
    Prop where
  head : ∃ c cs, text = c :: cs ∧ isBlank c = false
  read : ∀ n cs r, text.length ≤ n → skipBlank cs = text ++ r →
    readNode specifierOf create n cs = some (o, r)

variable {specifierOf : String → Option String} {create w cs r bs text : List Char}

theorem IsWord.skipBlank (h : IsWord w) (r : List Char) : skipBlank (w ++ r) = w ++ r := by
  obtain ⟨c, cs, rfl⟩ := List.exists_cons_of_ne_nil h.1
  exact skipBlank_cons (not_isBlank_of_isWordPart (h.2 c List.mem_cons_self)) _

theorem opening?_append (hc : IsWord create) (h : skipBlank cs = create ++ '(' :: r) :
    opening? create cs = some r := by
  have hword := word_append hc.2 (ends_cons (c := '(') (r := r) (by decide) (by decide))
  have hparen : skipBlank ('(' :: r) = '(' :: r := rfl
  simp only [opening?, h, hword, if_true, hparen]

theorem text?_append (s : String) (r : List Char) :
    text? (quoteChars s.toList ++ r) = some (s, r) := by
  have hs : quoteChars s.toList ++ r = '"' :: (s.toList.flatMap quoteChar ++ '"' :: r) := by
    simp [quoteChars]
  have hquote : skipBlank ('"' :: (s.toList.flatMap quoteChar ++ '"' :: r)) =
      '"' :: (s.toList.flatMap quoteChar ++ '"' :: r) := rfl
  rw [text?, hs, hquote]
  simp only [quotedRest_append, String.ofList_toList]

def viewChars (view : List String) : List Char :=
  view.flatMap fun id => ',' :: ' ' :: id.toList

theorem view?_some {id s : String} (hid : IsWord id.toList) (hs : specifierOf id = some s)
    (hr : Ends r) : view? specifierOf (viewChars [id] ++ r) = some (some s, r) := by
  have htext : viewChars [id] ++ r = ',' :: ' ' :: (id.toList ++ r) := by simp [viewChars]
  have hcomma : skipBlank (',' :: ' ' :: (id.toList ++ r)) = ',' :: ' ' :: (id.toList ++ r) := rfl
  have hblank : skipBlank (' ' :: (id.toList ++ r)) = id.toList ++ r := hid.skipBlank r
  have hword := word_append hid.2 hr
  rw [view?, htext, hcomma]
  simp only [hblank, hword]
  split
  · rename_i heq
    exact absurd (Prod.mk.inj heq).1 hid.1
  · rename_i heq
    obtain ⟨rfl, rfl⟩ := Prod.mk.inj heq
    rw [String.ofList_toList, hs]
    rfl

theorem view?_none (h : r.head? = some ')' ∨ ∃ t, r = ',' :: ' ' :: '[' :: t) :
    view? specifierOf r = some (none, r) := by
  obtain h | ⟨t, rfl⟩ := h
  · obtain ⟨t, rfl⟩ := List.head?_eq_some_iff.mp h
    rfl
  · rfl

def listChars (bs : List Char) : List (List Char) → List Char
  | [] => []
  | t :: ts => t ++ ts.flatMap fun u => ',' :: bs ++ u

theorem after?_cons {c : Char} (h : isBlank c = false) (cs : List Char) :
    after? c (c :: cs) = some cs := by
  rw [after?, skipBlank_cons h]
  exact if_pos rfl

theorem after?_of_ne {c d : Char} (h : skipBlank cs = d :: r) (hd : d ≠ c) :
    after? c cs = none := by
  rw [after?, h]
  exact if_neg hd

theorem listChars_cons (bs t u : List Char) (ts : List (List Char)) :
    listChars bs (t :: u :: ts) = t ++ ',' :: (bs ++ listChars bs (u :: ts)) := by
  simp [listChars]

theorem readNodes_listChars {ts : List (List Char)} {os : List Outline} {tail : List Char}
    (h : List.Forall₂ (Reads specifierOf create) ts os) (hne : ts ≠ [])
    (hb : ∀ c ∈ bs, isBlank c = true) (ht : ∀ c ∈ tail, isBlank c = true) :
    ∀ n cs r, (listChars bs ts).length < n → skipBlank cs = listChars bs ts ++ tail ++ ']' :: r →
      readNodes specifierOf create n cs = some (os, r) := by
  induction h with
  | nil => exact absurd rfl hne
  | @cons t o ts os hread hrest ih =>
    -- what stands behind the first call, a comma or the end of the list, depends on the others
    intro n cs r hn hcs
    obtain ⟨n, rfl⟩ := Nat.exists_eq_add_one.mpr (Nat.zero_lt_of_lt hn)
    have hbracket : ∀ r, skipBlank (']' :: r) = ']' :: r := fun _ => rfl
    cases hrest with
    | nil =>
      have htext : listChars bs [t] = t := by simp [listChars]
      rw [htext] at hn hcs
      rw [List.append_assoc] at hcs
      have hend : skipBlank (tail ++ ']' :: r) = ']' :: r := by
        rw [skipBlank_append ht, hbracket]
      have hclose : after? ']' (tail ++ ']' :: r) = some r := by
        rw [after?, hend]
        exact if_pos rfl
      have hcomma : after? ',' (tail ++ ']' :: r) = none := after?_of_ne hend (by decide)
      rw [readNodes, hread.read n cs _ (by omega) hcs]
      simp only [Option.bind_eq_bind, Option.bind_some, hcomma, hclose]
      rfl
    | @cons u p us ps hu hus =>
      rw [listChars_cons] at hn hcs
      rw [List.length_append, List.length_cons, List.length_append] at hn
      rw [List.append_assoc, List.append_assoc, List.cons_append, List.append_assoc] at hcs
      have hstart : skipBlank (bs ++ (listChars bs (u :: us) ++ (tail ++ ']' :: r))) =
          listChars bs (u :: us) ++ tail ++ ']' :: r := by
        obtain ⟨c, ds, hc, hblank⟩ := hu.head
        rw [skipBlank_append hb, List.append_assoc, listChars, hc]
        exact skipBlank_cons hblank _
      have hnext := ih (List.cons_ne_nil u us) n _ r (by omega) hstart
      rw [readNodes, hread.read n cs _ (by omega) hcs]
      simp only [Option.bind_eq_bind, Option.bind_some, after?_cons (c := ',') (by decide), hnext]
      rfl

def childChars (bs tail : List Char) : List (List Char) → List Char
  | [] => []
  | t :: ts => ',' :: ' ' :: '[' :: (bs ++ (listChars bs (t :: ts) ++ tail ++ [']']))

def callChars (create path : List Char) (view : List String) (children : List Char) : List Char :=
  create ++ '(' :: (quoteChars path ++ (viewChars view ++ (children ++ [')'])))

/-- What the import of a view and what it is resolved to have to do with each other. -/
inductive ViewOf (specifierOf : String → Option String) : List String → Option String → Prop
  | none : ViewOf specifierOf [] none
  | some {id s : String} (hid : IsWord id.toList) (hs : specifierOf id = some s) :
      ViewOf specifierOf [id] (some s)

theorem view?_viewChars {view : List String} {specifier : Option String}
    (h : ViewOf specifierOf view specifier)
    (hr : r.head? = some ')' ∨ ∃ t, r = ',' :: ' ' :: '[' :: t) :
    view? specifierOf (viewChars view ++ r) = some (specifier, r) := by
  cases h with
  | none => exact view?_none hr
  | some hid hs =>
    refine view?_some hid hs ?_
    obtain hr | ⟨t, rfl⟩ := hr
    · obtain ⟨t, rfl⟩ := List.head?_eq_some_iff.mp hr
      exact ends_cons (by decide) (by decide)
    · exact ends_cons (by decide) (by decide)

theorem reads_callChars {path : String} {view : List String} {specifier : Option String}
    {tail : List Char} {calls : List (List Char)} {os : List Outline} (hc : IsWord create)
    (hview : ViewOf specifierOf view specifier) (hb : ∀ c ∈ bs, isBlank c = true)
    (ht : ∀ c ∈ tail, isBlank c = true) (h : List.Forall₂ (Reads specifierOf create) calls os) :
    Reads specifierOf create (callChars create path.toList view (childChars bs tail calls))
      (.node path specifier os) := by
  constructor
  · obtain ⟨c, ds, hcreate⟩ := List.exists_cons_of_ne_nil hc.1
    refine ⟨c, ds ++ _, by rw [callChars, hcreate, List.cons_append], ?_⟩
    exact not_isBlank_of_isWordPart (hc.2 c (by rw [hcreate]; exact List.mem_cons_self))
  intro n cs r hn hcs
  obtain ⟨n, rfl⟩ : ∃ m, n = m + 1 := by
    refine Nat.exists_eq_add_one.mpr ?_
    rw [callChars, List.length_append, List.length_cons] at hn
    omega
  have hopen : opening? create cs = some (quoteChars path.toList ++ (viewChars view ++
      (childChars bs tail calls ++ ')' :: r))) := by
    refine opening?_append hc ?_
    rw [hcs, callChars]
    simp only [List.append_assoc, List.cons_append, List.nil_append]
  rw [readNode, hopen]
  simp only [Option.bind_eq_bind, Option.bind_some, text?_append]
  cases h with
  | nil =>
    have hv := view?_viewChars hview (r := ')' :: r) (.inl rfl)
    simp only [childChars, List.nil_append, hv, Option.bind_some]
    rfl
  | @cons t o ts os hread hrest =>
    have hforall : List.Forall₂ (Reads specifierOf create) (t :: ts) (o :: os) := .cons hread hrest
    have hchild : childChars bs tail (t :: ts) ++ ')' :: r =
        ',' :: ' ' :: '[' :: (bs ++ (listChars bs (t :: ts) ++ tail ++ ']' :: ')' :: r)) := by
      simp [childChars]
    have hv := view?_viewChars hview (.inr ⟨_, hchild⟩)
    have hstart : skipBlank (bs ++ (listChars bs (t :: ts) ++ tail ++ ']' :: ')' :: r)) =
        listChars bs (t :: ts) ++ tail ++ ']' :: ')' :: r := by
      obtain ⟨c, ds, hhead, hblank⟩ := hread.head
      rw [skipBlank_append hb, listChars, hhead]
      exact skipBlank_cons hblank _
    have hlen : (listChars bs (t :: ts)).length < n := by
      rw [callChars, childChars] at hn
      simp only [List.length_append, List.length_cons] at hn
      omega
    have hlist := readNodes_listChars hforall (List.cons_ne_nil t ts) hb ht n _ _ hlen hstart
    have hbracket : after? '[' (' ' :: '[' ::
        (bs ++ (listChars bs (t :: ts) ++ tail ++ ']' :: ')' :: r))) =
          some (bs ++ (listChars bs (t :: ts) ++ tail ++ ']' :: ')' :: r)) := rfl
    simp only [hv, Option.bind_some]
    rw [hchild, after?_cons (by decide)]
    simp only [hbracket, Option.bind_some, hlist]
    rfl

theorem Reads.whole {create text : String} {o : Outline}
    (h : Reads specifierOf create.toList text.toList o) :
    Outline.read specifierOf create text = some o := by
  obtain ⟨c, cs, hc, hblank⟩ := h.head
  have hstart : skipBlank text.toList = text.toList ++ [] := by
    rw [hc, skipBlank_cons hblank, List.append_nil]
  have hread := h.read text.length text.toList [] (by rw [String.length_toList]) hstart
  rw [Outline.read, hread]
  rfl

end TypedClient.Proofs.CallReading
