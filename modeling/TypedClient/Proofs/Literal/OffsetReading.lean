import Mathlib.Data.List.DropRight
import TypedClient.Proofs.Literal.Reading

namespace TypedClient.Proofs.OffsetReading

open TypedClient.Literal TypedClient.Text TypedClient.Proofs.Numeral
open TypedClient.Proofs.LiteralReading

/-- The text between two offsets in bytes, if each is at an end of a character and they are in order. -/
def slice? (s : String) (i j : Nat) : Option String :=
  if h : String.Pos.Raw.IsValid s ⟨i⟩ ∧ String.Pos.Raw.IsValid s ⟨j⟩ ∧ i ≤ j then
    some (s.extract (s.pos ⟨i⟩ h.1) (s.pos ⟨j⟩ h.2.1))
  else none

abbrev Scanning := StateT Nat (ExceptT ReadError Option)

def noOutcome {α : Type} : Scanning α :=
  (none : Option α)

def fail {α : Type} (f : Fault) : Scanning α := do
  throw ⟨f, ← get⟩

namespace Scan

section

variable (s : String)

def slice (i j : Nat) : Scanning String :=
  slice? s i j

def peek : Scanning (Option Char) := do
  let rest ← slice s (← get) s.utf8ByteSize
  return rest.toList.head?

def bump : Scanning (Option Char) := do
  match ← peek s with
  | none => return none
  | some c =>
    modify (· + c.utf8Size)
    return some c

def skipWithin (p : Char → Bool) : Nat → Scanning Unit
  | 0 => noOutcome
  | fuel + 1 => do
    if (← peek s).any p then
      let _ ← bump s
      skipWithin p fuel

def skip (p : Char → Bool) : Scanning Unit :=
  skipWithin s p (s.length + 1)

def eat (c : Char) : Scanning Bool := do
  if (← peek s) = some c then
    let _ ← bump s
    return true
  return false

def expect (c : Char) (f : Fault) : Scanning Unit := do
  unless ← eat s c do
    fail f

def taken (x : Scanning Unit) : Scanning String := do
  let start ← get
  x
  slice s start (← get)

def word : Scanning String :=
  taken s (skip s isWordPart)

def quotedRest (q : Char) : Nat → Scanning (List Char)
  | 0 => noOutcome
  | fuel + 1 => do
    match ← bump s with
    | none => fail .openText
    | some c =>
      if c = q then return []
      else if c = '\\' then
        match ← bump s with
        | none => fail .openEscape
        | some e => return unescape e :: (← quotedRest q fuel)
      else return c :: (← quotedRest q fuel)

def quoted (q : Char) : Scanning String := do
  let _ ← bump s
  return String.ofList (← quotedRest s q (s.length + 1))

def digits (f : Fault) : Scanning Unit := do
  let start ← get
  skip s Char.isDigit
  unless start < (← get) do
    fail f

def fraction : Scanning Unit := do
  if ← eat s '.' then
    digits s .fractionExpected

def exponentSign : Scanning Unit := do
  unless ← eat s '+' do
    let _ ← eat s '-'

def exponent : Scanning Unit := do
  if (← peek s).any fun c => c = 'e' || c = 'E' then
    let _ ← bump s
    exponentSign s
    digits s .exponentExpected

def numeral : Scanning String :=
  taken s do
    let _ ← eat s '-'
    digits s .digitsExpected
    fraction s
    exponent s

def key : Scanning String := do
  match ← peek s with
  | none => fail .keyExpected
  | some c =>
    if c = '"' || c = '\'' then quoted s c
    else if isWordStart c then word s
    else fail .keyExpected

mutual

def value : Nat → Scanning Literal
  | 0 => noOutcome
  | fuel + 1 => do
    skip s isBlank
    match ← peek s with
    | none => fail .endOfInput
    | some c =>
      if c = '{' then
        let _ ← bump s
        return .object (← entries fuel)
      else if c = '[' then
        let _ ← bump s
        return .array (← items fuel)
      else if c = '"' || c = '\'' then return .string (← quoted s c)
      else if c = '-' || c.isDigit then return .number (← numeral s)
      else if isWordStart c then
        match ofWord? (← word s).toList with
        | some l => return l
        | none => fail .unknownWord
      else fail .unexpectedCharacter

def entries : Nat → Scanning (List (String × Literal))
  | 0 => noOutcome
  | fuel + 1 => do
    skip s isBlank
    if ← eat s '}' then return []
    let k ← key s
    skip s isBlank
    expect s ':' .colonExpected
    let l ← value fuel
    skip s isBlank
    if ← eat s ',' then return (k, l) :: (← entries fuel)
    skip s isBlank
    expect s '}' .braceExpected
    return [(k, l)]

def items : Nat → Scanning (List Literal)
  | 0 => noOutcome
  | fuel + 1 => do
    skip s isBlank
    if ← eat s ']' then return []
    let l ← value fuel
    skip s isBlank
    if ← eat s ',' then return l :: (← items fuel)
    skip s isBlank
    expect s ']' .bracketExpected
    return [l]

end

def front : Scanning Literal :=
  value s (2 * s.length + 2)

def whole : Scanning Literal := do
  let l ← front s
  skip s isBlank
  unless (← get) = s.utf8ByteSize do
    fail .trailingInput
  return l

def parsePrefix : Option (Except ReadError (Literal × Nat)) :=
  ((front s).run 0).run

def parse : Option (Except ReadError Literal) :=
  ((whole s).run' 0).run

end

end Scan

section Slices

theorem isValid_append (a b : String) : String.Pos.Raw.IsValid (a ++ b) ⟨a.utf8ByteSize⟩ :=
  String.Pos.Raw.isValid_iff_exists_append.mpr ⟨a, b, rfl, rfl⟩

theorem slice?_append (a b c : String) :
    slice? (a ++ b ++ c) a.utf8ByteSize (a.utf8ByteSize + b.utf8ByteSize) = some b := by
  have hstart := isValid_append a (b ++ c)
  have hend := isValid_append (a ++ b) c
  rw [← String.append_assoc] at hstart
  rw [String.utf8ByteSize_append] at hend
  rw [slice?, dif_pos ⟨hstart, hend, Nat.le_add_right _ _⟩, Option.some_inj,
    ← String.toByteArray_inj]
  calc
    _ = (a.toByteArray ++ b.toByteArray ++ c.toByteArray).extract (a.utf8ByteSize + 0)
          (a.utf8ByteSize + b.utf8ByteSize) := by
      rw [String.toByteArray_extract, String.toByteArray_append, String.toByteArray_append]
      rfl
    _ = (b.toByteArray ++ c.toByteArray).extract 0 b.utf8ByteSize := by
      rw [ByteArray.append_assoc]
      exact ByteArray.extract_append_size_add' String.size_toByteArray.symm
    _ = b.toByteArray := ByteArray.extract_append_eq_left String.size_toByteArray.symm

end Slices

section Offsets

variable {s : String} {w rest : List Char}

theorem utf8ByteSize_ofList (cs : List Char) : (String.ofList cs).utf8ByteSize = byteSize cs := by
  rw [← byteSize_toList, String.toList_ofList]

def offset (s : String) (rest : List Char) : Nat :=
  byteSize s.toList - byteSize rest

theorem length_lt_of_suffix (h : rest <:+ s.toList) : rest.length < s.length + 1 := by
  rw [← String.length_toList]
  exact Nat.lt_succ_of_le h.length_le

theorem offset_nil : offset s [] = s.utf8ByteSize := by
  rw [offset, byteSize_toList, byteSize_nil, Nat.sub_zero]

theorem offset_toList : offset s s.toList = 0 :=
  Nat.sub_self _

theorem offset_append (h : w ++ rest <:+ s.toList) :
    offset s rest = offset s (w ++ rest) + byteSize w := by
  have hle : byteSize (w ++ rest) ≤ byteSize s.toList := by
    obtain ⟨front, h⟩ := h
    rw [← h, byteSize_append front]
    exact Nat.le_add_left _ _
  rw [byteSize_append] at hle
  rw [offset, offset, byteSize_append]
  omega

/-- The offset from which a rest is left is the length of the front before it. -/
theorem exists_front (h : rest <:+ s.toList) :
    ∃ front, s = front ++ String.ofList rest ∧ offset s rest = front.utf8ByteSize := by
  obtain ⟨front, h⟩ := h
  refine ⟨String.ofList front, ?_, ?_⟩
  · rw [← String.ofList_append, h, String.ofList_toList]
  · rw [offset, ← h, byteSize_append, Nat.add_sub_cancel, utf8ByteSize_ofList]

theorem offset_le (s : String) (rest : List Char) : offset s rest ≤ s.utf8ByteSize := by
  rw [offset, byteSize_toList]
  exact Nat.sub_le _ _

theorem isValid_offset (h : rest <:+ s.toList) : String.Pos.Raw.IsValid s ⟨offset s rest⟩ := by
  obtain ⟨front, hs, hfront⟩ := exists_front h
  rw [hfront, hs]
  exact isValid_append front _

theorem slice?_offset (h : w ++ rest <:+ s.toList) :
    slice? s (offset s (w ++ rest)) (offset s rest) = some (String.ofList w) := by
  have hend := offset_append h
  obtain ⟨front, hs, hfront⟩ := exists_front h
  rw [String.ofList_append, ← String.append_assoc] at hs
  rw [hend, hfront, ← utf8ByteSize_ofList w, hs]
  exact slice?_append front _ _

theorem slice?_to_end (h : rest <:+ s.toList) :
    slice? s (offset s rest) s.utf8ByteSize = some (String.ofList rest) := by
  have hnil : rest ++ [] <:+ s.toList := by rwa [List.append_nil]
  have hslice := slice?_offset hnil
  rwa [List.append_nil, offset_nil] at hslice

end Offsets

section Follows

variable {α β γ : Type} {s : String} {cs w rest : List Char} {x : Scanning α} {f : α → Scanning β}
  {a : α} {e : Stop} {r : Except Stop (α × List Char)} {q : Except Stop (β × List Char)}

def left : Except Stop (α × List Char) → List Char
  | .ok r => r.2
  | .error e => e.rest

def located (s : String) : Except Stop (α × List Char) → Except ReadError (α × Nat)
  | .ok r => .ok (r.1, offset s r.2)
  | .error e => .error (e.toError s.toList)

theorem located_eq_ok {n : Nat} (h : located s r = .ok (a, n)) :
    r = .ok (a, left r) ∧ n = offset s (left r) := by
  cases r with
  | error e => cases h
  | ok p =>
    obtain ⟨rfl, rfl⟩ := Prod.mk.inj (Except.ok.inj h)
    exact ⟨rfl, rfl⟩

theorem located_eq_error {e : ReadError} (h : located s r = .error e) :
    e.offset = offset s (left r) := by
  cases r with
  | error stop => exact congrArg ReadError.offset (Except.error.inj h).symm
  | ok p => cases h

def mapped (g : α → β) (r : Except Stop (α × List Char)) : Except Stop (β × List Char) :=
  r.map fun p => (g p.1, p.2)

theorem mapped_mapped (g : α → β) (h : β → γ) (r : Except Stop (α × List Char)) :
    mapped h (mapped g r) = mapped (fun a => h (g a)) r := by
  cases r <;> rfl

theorem mapped_bind (h : β → γ) (r : Except Stop (α × List Char))
    (g : α × List Char → Except Stop (β × List Char)) :
    mapped h (r >>= g) = r >>= fun p => mapped h (g p) := by
  cases r <;> rfl

/-- From the place of `cs` the work `x` does what the reading `r` of `cs` says. -/
structure Follows (s : String) (x : Scanning α) (cs : List Char)
    (r : Except Stop (α × List Char)) : Prop where
  outcome : cs <:+ s.toList → (x.run (offset s cs)).run = some (located s r)
  left : left r <:+ cs

namespace Follows

theorem pure (a : α) : Follows s (pure a) cs (.ok (a, cs)) :=
  ⟨fun _ => rfl, List.suffix_refl cs⟩

theorem fail (f : Fault) : Follows s (fail f : Scanning α) cs (.error ⟨f, cs⟩) :=
  ⟨fun _ => rfl, List.suffix_refl cs⟩

theorem get : Follows s get cs (.ok (offset s cs, cs)) :=
  ⟨fun _ => rfl, List.suffix_refl cs⟩

theorem bind (hx : Follows s x cs (.ok (a, rest))) (hf : Follows s (f a) rest q) :
    Follows s (x >>= f) cs q := by
  refine ⟨fun h => ?_, hf.left.trans hx.left⟩
  rw [StateT.run_bind, ExceptT.run_bind, hx.outcome h]
  exact hf.outcome (hx.left.trans h)

theorem stop (hx : Follows s x cs (.error e)) : Follows s (x >>= f) cs (.error e) := by
  refine ⟨fun h => ?_, hx.left⟩
  rw [StateT.run_bind, ExceptT.run_bind, hx.outcome h]
  rfl

theorem andThen {g : α × List Char → Except Stop (β × List Char)} (hx : Follows s x cs r)
    (hf : ∀ a rest, rest <:+ cs → Follows s (f a) rest (g (a, rest))) :
    Follows s (x >>= f) cs (r >>= g) := by
  cases r with
  | error e => exact hx.stop
  | ok p => exact hx.bind (hf p.1 p.2 hx.left)

theorem map (hx : Follows s x cs r) (g : α → β) :
    Follows s (x >>= fun a => Pure.pure (g a)) cs (mapped g r) := by
  cases r with
  | error e => exact hx.stop
  | ok p => exact hx.bind (.pure (g p.1))

/-- Work that follows a reading with another result goes on where the reading does. -/
theorem mappedThen {h : γ → α} {p : Except Stop (γ × List Char)}
    {g : γ × List Char → Except Stop (β × List Char)} (hx : Follows s x cs (mapped h p))
    (hf : ∀ c rest, rest <:+ cs → Follows s (f (h c)) rest (g (c, rest))) :
    Follows s (x >>= f) cs (p >>= g) := by
  cases p with
  | error e => exact hx.stop
  | ok p => exact hx.bind (hf p.1 p.2 hx.left)

theorem mapMapped {h : γ → α} {p : Except Stop (γ × List Char)} (hx : Follows s x cs (mapped h p))
    (g : α → β) : Follows s (x >>= fun a => Pure.pure (g a)) cs (mapped (fun c => g (h c)) p) :=
  mapped_mapped h g p ▸ hx.map g

theorem slice {i j : Nat} {t : String} (h : slice? s i j = some t) :
    Follows s (Scan.slice s i j) cs (.ok (t, cs)) := by
  refine ⟨fun _ => ?_, List.suffix_refl cs⟩
  simp [Scan.slice, h, located, Except.map]

theorem peek : Follows s (Scan.peek s) cs (.ok (cs.head?, cs)) := by
  refine ⟨fun h => ?_, List.suffix_refl cs⟩
  have hfirst : Follows s (Scan.peek s) cs (.ok ((String.ofList cs).toList.head?, cs)) :=
    get.bind ((slice (slice?_to_end h)).bind (.pure _))
  rw [String.toList_ofList] at hfirst
  exact hfirst.outcome h

theorem bump : Follows s (Scan.bump s) cs (.ok (cs.head?, cs.tail)) := by
  rw [Scan.bump]
  refine peek.bind ?_
  cases cs with
  | nil => exact .pure none
  | cons c cs =>
    have hmove : Follows s (modify (· + c.utf8Size)) (c :: cs) (.ok ((), cs)) := by
      refine ⟨fun h => ?_, List.suffix_cons c cs⟩
      rw [located, offset_append (w := [c]) h]
      rfl
    exact hmove.bind (.pure (some c))

theorem skipWithin (p : Char → Bool) {n : Nat} (hn : cs.length < n) :
    Follows s (Scan.skipWithin s p n) cs (.ok ((), cs.dropWhile p)) := by
  induction n generalizing cs with
  | zero => exact absurd hn (Nat.not_lt_zero _)
  | succ n ih =>
    rw [Scan.skipWithin]
    refine peek.bind ?_
    cases cs with
    | nil => exact .pure ()
    | cons c cs =>
      rw [List.head?_cons, Option.any_some]
      by_cases hc : p c = true
      · rw [List.dropWhile_cons_of_pos hc, if_pos hc]
        exact bump.bind (ih (Nat.lt_of_succ_lt_succ hn))
      · rw [List.dropWhile_cons_of_neg hc, if_neg hc]
        exact .pure ()

theorem skip (p : Char → Bool) : Follows s (Scan.skip s p) cs (.ok ((), cs.dropWhile p)) :=
  ⟨fun h => (skipWithin p (length_lt_of_suffix h)).outcome h, List.dropWhile_suffix p⟩

theorem eat_cons (c : Char) : Follows s (Scan.eat s c) (c :: cs) (.ok (true, cs)) := by
  rw [Scan.eat]
  refine peek.bind ?_
  rw [List.head?_cons, if_pos rfl]
  exact bump.bind (.pure true)

theorem eat_of_ne {c : Char} (h : ∀ t, cs ≠ c :: t) :
    Follows s (Scan.eat s c) cs (.ok (false, cs)) := by
  rw [Scan.eat]
  refine peek.bind ?_
  rw [if_neg fun hc => (List.head?_eq_some_iff.mp hc).elim h]
  exact .pure false

theorem expect_cons (c : Char) (f : Fault) :
    Follows s (Scan.expect s c f) (c :: cs) (.ok ((), cs)) :=
  (eat_cons c).bind (.pure ())

theorem expect_of_ne {c : Char} (f : Fault) (h : ∀ t, cs ≠ c :: t) :
    Follows s (Scan.expect s c f) cs (.error ⟨f, cs⟩) :=
  (eat_of_ne h).bind (.fail f)

theorem taken {x : Scanning Unit} {p : Except Stop (List Char × List Char)}
    (hx : Follows s x cs (mapped (fun _ => ()) p))
    (hp : ∀ w rest, p = .ok (w, rest) → cs = w ++ rest) :
    Follows s (Scan.taken s x) cs (mapped String.ofList p) := by
  cases p with
  | error e => exact get.bind hx.stop
  | ok p =>
    obtain ⟨w, rest⟩ := p
    obtain rfl := hp w rest rfl
    refine ⟨fun h => ?_, hx.left⟩
    exact (get.bind (hx.bind (get.bind (.slice (slice?_offset h))))).outcome h

theorem word :
    Follows s (Scan.word s) cs (.ok (String.ofList (Literal.word cs).1, (Literal.word cs).2)) := by
  have hsplit := (word_cases cs).1
  refine taken (p := .ok (Literal.word cs)) ?_ fun w rest h => ?_
  · rw [Literal.word]
    rw [List.span_eq_takeWhile_dropWhile]
    exact .skip isWordPart
  · rwa [Except.ok.inj h] at hsplit

theorem quotedRest (q : Char) {n : Nat} (hn : cs.length < n) :
    Follows s (Scan.quotedRest s q n) cs (Literal.quotedRest q cs) := by
  induction n generalizing cs with
  | zero => exact absurd hn (Nat.not_lt_zero _)
  | succ n ih =>
    rw [Scan.quotedRest]
    refine bump.bind ?_
    cases cs with
    | nil => exact .fail .openText
    | cons c cs =>
      rw [Literal.quotedRest.eq_def]
      dsimp only [List.head?_cons, List.tail_cons]
      have hcs : cs.length < n := Nat.lt_of_succ_lt_succ hn
      split
      · exact .pure []
      split
      · refine bump.bind ?_
        cases cs with
        | nil => exact .fail .openEscape
        | cons e cs => exact (ih (Nat.lt_of_succ_lt hcs)).map (unescape e :: ·)
      · exact (ih hcs).map (c :: ·)

theorem quoted (q c : Char) : Follows s (Scan.quoted s q) (c :: cs)
    (mapped String.ofList (Literal.quotedRest q cs)) := by
  have hrest : ∀ {n}, cs.length < n → Follows s (Scan.bump s >>= fun _ =>
      Scan.quotedRest s q n >>= fun t => Pure.pure (String.ofList t)) (c :: cs)
      (mapped String.ofList (Literal.quotedRest q cs)) :=
    fun hn => bump.bind ((quotedRest q hn).map String.ofList)
  refine ⟨fun h => (hrest ?_).outcome h, (hrest (Nat.lt_succ_self _)).left⟩
  exact length_lt_of_suffix ((List.suffix_cons c cs).trans h)

theorem digits (f : Fault) :
    Follows s (Scan.digits s f) cs (mapped (fun _ => ()) (Literal.digits f cs)) := by
  have hspan := List.takeWhile_append_dropWhile (p := Char.isDigit) (l := cs)
  have hskip : Follows s (Scan.skip s Char.isDigit) cs (.ok ((), cs.dropWhile Char.isDigit)) :=
    .skip Char.isDigit
  rw [Literal.digits]
  rw [List.span_eq_takeWhile_dropWhile]
  generalize cs.takeWhile Char.isDigit = w at hspan
  generalize cs.dropWhile Char.isDigit = rest at hspan hskip
  subst hspan
  refine ⟨fun h => ?_, by cases w <;> exact hskip.left⟩
  have hoffset := offset_append h
  refine (get.bind (hskip.bind (get.bind (?_ : Follows s _ rest _)))).outcome h
  -- the offset has moved on just if there was a digit
  cases w with
  | nil =>
    rw [if_neg (by rw [hoffset, byteSize_nil]; exact Nat.lt_irrefl _)]
    exact .fail f
  | cons c w =>
    have hsize := c.utf8Size_pos
    rw [if_pos (by rw [hoffset, byteSize_cons]; omega)]
    exact .pure ()

theorem minus : Follows s (Scan.eat s '-') cs
    (.ok (!(Literal.minus cs).1.isEmpty, (Literal.minus cs).2)) := by
  unfold Literal.minus
  split
  · exact eat_cons '-'
  · rename_i h
    exact eat_of_ne h

theorem fraction :
    Follows s (Scan.fraction s) cs (mapped (fun _ => ()) (Literal.fraction cs)) := by
  unfold Literal.fraction
  split
  · rename_i cs
    change Follows s _ ('.' :: cs) (mapped _ (mapped ('.' :: ·) (Literal.digits _ cs)))
    rw [mapped_mapped]
    exact (eat_cons '.').bind (.digits .fractionExpected)
  · rename_i h
    exact (eat_of_ne h).bind (.pure ())

theorem exponentSign :
    Follows s (Scan.exponentSign s) cs (.ok ((), (Literal.exponentSign cs).2)) := by
  unfold Literal.exponentSign
  split
  · exact (eat_cons '+').bind (.pure ())
  · rename_i h
    exact (eat_of_ne h).bind (minus.bind (.pure ()))

theorem exponent :
    Follows s (Scan.exponent s) cs (mapped (fun _ => ()) (Literal.exponent cs)) := by
  rw [Scan.exponent]
  refine peek.bind ?_
  cases cs with
  | nil => exact .pure ()
  | cons c cs =>
    rw [Literal.exponent, List.head?_cons, Option.any_some]
    split
    · change Follows s _ (c :: cs) (mapped _ (mapped (c :: (Literal.exponentSign cs).1 ++ ·)
        (Literal.digits _ (Literal.exponentSign cs).2)))
      rw [mapped_mapped]
      exact bump.bind (exponentSign.bind (.digits .exponentExpected))
    · exact .pure ()

theorem numeral :
    Follows s (Scan.numeral s) cs (mapped String.ofList (Literal.numeral cs)) := by
  refine taken ?_ fun w rest h => (numeral_of_ok h).1
  rw [Literal.numeral]
  refine minus.bind ?_
  rw [mapped_bind]
  refine (digits .digitsExpected).mappedThen fun whole cs _ => ?_
  rw [mapped_bind]
  refine fraction.mappedThen fun frac cs _ => ?_
  change Follows s _ cs (mapped _ (mapped (_ ++ whole ++ frac ++ ·) (Literal.exponent cs)))
  rw [mapped_mapped]
  exact exponent

theorem key : Follows s (Scan.key s) cs (mapped String.ofList (Literal.key cs)) := by
  rw [Scan.key]
  refine peek.bind ?_
  cases cs with
  | nil => exact .fail .keyExpected
  | cons c cs =>
    dsimp only [List.head?_cons]
    rw [Literal.key]
    split
    · exact quoted c c
    split
    · exact word
    · exact .fail .keyExpected

end Follows

end Follows

section Behind

variable {α : Type} {s : String} {cs w : List Char} {a : α} {closing : Char}
  {more : Scanning (List α)} {r : Except Stop (List α × List Char)}

/-- What is done behind a part `a` up to the closing bracket: what follows is either a comma and `more`
parts or the bracket. -/
def Scan.behind (s : String) (a : α) (closing : Char) (f : Fault) (more : Scanning (List α)) :
    Scanning (List α) := do
  skip s isBlank
  if ← eat s ',' then return a :: (← more)
  skip s isBlank
  expect s closing f
  return [a]

theorem follows_skip_again :
    Follows s (Scan.skip s isBlank) (skipBlank cs) (.ok ((), skipBlank cs)) := by
  have hskip : Follows s (Scan.skip s isBlank) (skipBlank cs)
      (.ok ((), (skipBlank cs).dropWhile isBlank)) := .skip isBlank
  rwa [skipBlank, List.dropWhile_idempotent] at hskip

theorem follows_behind_comma (f : Fault) (h : skipBlank cs = ',' :: w) (hmore : Follows s more w r) :
    Follows s (Scan.behind s a closing f more) cs (mapped (a :: ·) r) := by
  refine (Follows.skip isBlank).bind ?_
  rw [← skipBlank, h]
  exact (Follows.eat_cons ',').bind (hmore.map (a :: ·))

theorem follows_behind_end (f : Fault) (hne : closing ≠ ',') (h : skipBlank cs = closing :: w) :
    Follows s (Scan.behind s a closing f more) cs (.ok ([a], w)) := by
  have hcomma : ∀ t, skipBlank cs ≠ ',' :: t := fun t ht =>
    hne (List.cons.inj (h.symm.trans ht)).1
  refine (Follows.skip isBlank).bind ((Follows.eat_of_ne hcomma).bind (follows_skip_again.bind ?_))
  rw [h]
  exact (Follows.expect_cons closing f).bind (.pure [a])

theorem follows_behind_other (f : Fault) (hcomma : ∀ t, skipBlank cs ≠ ',' :: t)
    (hend : ∀ t, skipBlank cs ≠ closing :: t) :
    Follows s (Scan.behind s a closing f more) cs (.error ⟨f, skipBlank cs⟩) :=
  (Follows.skip isBlank).bind ((Follows.eat_of_ne hcomma).bind
    (follows_skip_again.bind (Follows.expect_of_ne f hend).stop))

end Behind

section Values

variable {s : String} {n : Nat} {cs : List Char}

/-- Reading with `n` steps is followed from wherever few enough characters are left. Every bracket costs
two steps, one for its list and one for the value in it, so a character is worth two. -/
structure Covers (s : String) (n : Nat) : Prop where
  value : ∀ {cs}, 2 * cs.length < n → Follows s (Scan.value s n) cs (value n cs)
  items : ∀ {cs}, 2 * cs.length + 1 < n → Follows s (Scan.items s n) cs (items n cs)
  entries : ∀ {cs}, 2 * cs.length + 1 < n → Follows s (Scan.entries s n) cs (entries n cs)

theorem skipBlank_suffix (cs : List Char) : skipBlank cs <:+ cs :=
  List.dropWhile_suffix isBlank

theorem follows_value (hn : Covers s n) (hlen : 2 * cs.length < n + 1) :
    Follows s (Scan.value s (n + 1)) cs (value (n + 1) cs) := by
  have hskip := (skipBlank_suffix cs).length_le
  rw [Scan.value, value]
  refine (Follows.skip isBlank).bind (Follows.peek.bind ?_)
  rw [← skipBlank]
  generalize skipBlank cs = t at hskip
  cases t with
  | nil => exact .fail .endOfInput
  | cons c t =>
    rw [List.length_cons] at hskip
    have ht : 2 * t.length + 1 < n := by omega
    dsimp only [List.head?_cons]
    split
    · exact Follows.bump.bind ((hn.entries ht).map Literal.object)
    split
    · exact Follows.bump.bind ((hn.items ht).map Literal.array)
    split
    · exact (Follows.quoted c c).mapMapped Literal.string
    split
    · exact Follows.numeral.mapMapped Literal.number
    split
    · refine Follows.word.bind ?_
      rw [String.toList_ofList]
      generalize word (c :: t) = w
      obtain ⟨w, rest⟩ := w
      dsimp only
      cases ofWord? w with
      | none => exact .fail .unknownWord
      | some l => exact .pure l
    · exact .fail .unexpectedCharacter

theorem follows_items (hn : Covers s n) (hlen : 2 * cs.length + 1 < n + 1) :
    Follows s (Scan.items s (n + 1)) cs (items (n + 1) cs) := by
  have hskip := (skipBlank_suffix cs).length_le
  rw [Scan.items, items]
  refine (Follows.skip isBlank).bind ?_
  rw [← skipBlank]
  generalize skipBlank cs = t at hskip
  split
  · exact (Follows.eat_cons ']').bind (.pure [])
  · rename_i h
    refine (Follows.eat_of_ne h).bind ((hn.value (by omega)).andThen fun l u hu => ?_)
    change Follows s (Scan.behind s l ']' .bracketExpected (Scan.items s n)) u _
    have hblank := (skipBlank_suffix u).length_le
    have hlength := hu.length_le
    dsimp only
    split
    · rename_i w h
      rw [h, List.length_cons] at hblank
      exact follows_behind_comma .bracketExpected h (hn.items (by omega))
    · rename_i h
      exact follows_behind_end .bracketExpected (by decide) h
    · rename_i hcomma hend
      exact follows_behind_other .bracketExpected hcomma hend

theorem follows_entries (hn : Covers s n) (hlen : 2 * cs.length + 1 < n + 1) :
    Follows s (Scan.entries s (n + 1)) cs (entries (n + 1) cs) := by
  have hskip := (skipBlank_suffix cs).length_le
  rw [Scan.entries, entries]
  refine (Follows.skip isBlank).bind ?_
  rw [← skipBlank]
  generalize skipBlank cs = t at hskip
  split
  · exact (Follows.eat_cons '}').bind (.pure [])
  · rename_i h
    refine (Follows.eat_of_ne h).bind (Follows.key.mappedThen fun k v hv => ?_)
    refine (Follows.skip isBlank).bind ?_
    have hblank := (skipBlank_suffix v).length_le
    rw [← skipBlank]
    dsimp only
    split
    · rename_i v' hcolon
      rw [hcolon, List.length_cons] at hblank
      rw [hcolon]
      have hlength := hv.length_le
      refine (Follows.expect_cons ':' _).bind ((hn.value (by omega)).andThen fun l u hu => ?_)
      change Follows s (Scan.behind s (String.ofList k, l) '}' .braceExpected (Scan.entries s n)) u _
      have hblank' := (skipBlank_suffix u).length_le
      have hlength' := hu.length_le
      dsimp only
      split
      · rename_i w h
        rw [h, List.length_cons] at hblank'
        exact follows_behind_comma .braceExpected h (hn.entries (by omega))
      · rename_i h
        exact follows_behind_end .braceExpected (by decide) h
      · rename_i hcomma hend
        exact follows_behind_other .braceExpected hcomma hend
    · rename_i hcolon
      exact (Follows.expect_of_ne .colonExpected hcolon).stop

theorem covers (s : String) (n : Nat) : Covers s n := by
  induction n with
  | zero => exact ⟨nofun, nofun, nofun⟩
  | succ n ih => exact ⟨follows_value ih, follows_items ih, follows_entries ih⟩

end Values

section Texts

variable {s : String}

theorem follows_front (s : String) : Follows s (Scan.front s) s.toList (readFront s.toList) := by
  rw [Scan.front, readFront, ← String.length_toList]
  exact (covers s _).value (by omega)

theorem parsePrefix_eq_located (s : String) : parsePrefix s = located s (readFront s.toList) := by
  rw [parsePrefix]
  cases readFront s.toList <;> rfl

/-- By offsets the same is read at the front of a text, with every slice in range. -/
theorem scan_parsePrefix (s : String) : Scan.parsePrefix s = some (parsePrefix s) := by
  have hfront := (follows_front s).outcome (List.suffix_refl s.toList)
  rw [offset_toList] at hfront
  rw [Scan.parsePrefix, hfront, parsePrefix_eq_located]

theorem offset_eq_utf8ByteSize_iff {rest : List Char} (h : rest <:+ s.toList) :
    offset s rest = s.utf8ByteSize ↔ rest = [] := by
  constructor
  · intro heq
    cases rest with
    | nil => rfl
    | cons c rest =>
      have hnil : (c :: rest) ++ [] <:+ s.toList := by rwa [List.append_nil]
      have hend := offset_append hnil
      have hsize := c.utf8Size_pos
      rw [offset_nil, List.append_nil, heq, byteSize_cons] at hend
      omega
  · rintro rfl
    exact offset_nil

def wholeReading (cs : List Char) : Except Stop (Literal × List Char) :=
  (readAll cs).map fun l => (l, [])

theorem wholeReading_of_ok {cs rest : List Char} {l : Literal} (h : readFront cs = .ok (l, rest)) :
    wholeReading cs = if skipBlank rest = [] then .ok (l, [])
      else .error ⟨.trailingInput, skipBlank rest⟩ := by
  rw [wholeReading, readAll, h]
  simp only [bind, Except.bind]
  cases skipBlank rest <;> rfl

theorem follows_whole (s : String) : Follows s (Scan.whole s) s.toList (wholeReading s.toList) := by
  have hfront := follows_front s
  cases hread : readFront s.toList with
  | error e =>
    rw [hread] at hfront
    rw [wholeReading, readAll, hread]
    exact hfront.stop
  | ok p =>
    obtain ⟨l, rest⟩ := p
    rw [hread] at hfront
    have hleft : skipBlank rest <:+ s.toList := (skipBlank_suffix rest).trans hfront.left
    have hend := offset_eq_utf8ByteSize_iff hleft
    rw [wholeReading_of_ok hread]
    refine hfront.bind ((Follows.skip isBlank).bind (Follows.get.bind ?_))
    rw [← skipBlank]
    by_cases hnil : skipBlank rest = []
    · rw [if_pos hnil, if_pos (hend.mpr hnil), hnil]
      exact .pure l
    · rw [if_neg hnil, if_neg fun h => hnil (hend.mp h)]
      exact (Follows.fail .trailingInput).stop

theorem located_wholeReading (s : String) :
    located s (wholeReading s.toList) = (parse s).map fun l => (l, s.utf8ByteSize) := by
  rw [wholeReading, parse]
  cases readAll s.toList with
  | error e => rfl
  | ok l => exact congrArg (fun n => Except.ok (l, n)) offset_nil

/-- By offsets the same is read from the whole text, with every slice in range. -/
theorem scan_parse (s : String) : Scan.parse s = some (parse s) := by
  have hwhole := (follows_whole s).outcome (List.suffix_refl s.toList)
  rw [offset_toList, located_wholeReading] at hwhole
  rw [Scan.parse, StateT.run'_eq, ExceptT.run_map, hwhole]
  cases parse s <;> rfl

end Texts

end TypedClient.Proofs.OffsetReading
