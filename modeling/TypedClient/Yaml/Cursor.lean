namespace TypedClient.Yaml

def isAllowed (c : Char) : Bool :=
  c = '\t' || c = '\n' || c = '\r' || (' ' ≤ c && c ≤ '~') || c = '\x85' ||
    (0xA0 ≤ c.toNat && c.toNat ≤ 0xFFFD) || 0x10000 ≤ c.toNat

def isBlank (c : Char) : Bool :=
  c = ' ' || c = '\t'

def isBreak (c : Char) : Bool :=
  c = '\n' || c = '\r' || c = '\x85' || c = '\u2028' || c = '\u2029'

def isSolid (c : Char) : Bool :=
  !isBlank c && !isBreak c

def isNameChar (c : Char) : Bool :=
  c.isAlphanum || c = '_' || c = '-'

def atGap : List Char → Bool
  | [] => true
  | c :: _ => !isSolid c

structure Cursor where
  rest : List Char
  left : Nat := rest.length
  index : Nat := 0
  line : Nat := 0
  column : Nat := 0
deriving DecidableEq, Repr

namespace Cursor

def skip (c : Cursor) (n : Nat) : Cursor :=
  { c with
    rest := c.rest.drop n
    left := c.left - n
    index := c.index + n
    column := c.column + n }

def newLine (c : Cursor) (n : Nat) : Cursor :=
  { rest := c.rest.drop n
    left := c.left - n
    index := c.index + n
    line := c.line + 1
    column := 0 }

def span (p : Char → Bool) (c : Cursor) : List Char × Cursor :=
  let word := c.rest.takeWhile p
  (word, c.skip word.length)

def skipBlanks (c : Cursor) : Cursor :=
  (c.span isBlank).2

def skipMark (c : Cursor) : Cursor :=
  if c.column = 0 ∧ c.rest.head? = some '\ufeff' then c.skip 1 else c

/-- The line break that comes next, as the character it counts for. -/
def lineBreak? (c : Cursor) : Option (Char × Cursor) :=
  match c.rest with
  | '\r' :: '\n' :: _ => some ('\n', c.newLine 2)
  | b :: _ =>
    if b = '\n' || b = '\r' || b = '\x85' then some ('\n', c.newLine 1)
    else if isBreak b then some (b, c.newLine 1)
    else none
  | [] => none

/-- Whether a marker of documents comes next: three dashes or points at the beginning of a line. -/
def atMarker (c : Cursor) : Bool :=
  c.column = 0 && match c.rest with
  | '-' :: '-' :: '-' :: cs => atGap cs
  | '.' :: '.' :: '.' :: cs => atGap cs
  | _ => false

/-- The end of the line: behind blanks and a comment comes a break, which is passed, or the end of
the text. -/
def endLine? (c : Cursor) : Option Cursor :=
  let c := c.skipBlanks
  let c := if c.rest.head? = some '#' then (c.span fun ch => !isBreak ch).2 else c
  match c.lineBreak? with
  | some (_, c) => some c
  | none => if c.rest.isEmpty then some c else none

end Cursor

/-- A gap between words: the blanks up to the first break, the breaks, and the place behind. -/
structure Gap where
  blanks : List Char
  breaks : List Char
  after : Cursor

/-- Line breaks folded: a single line feed becomes a blank, and the first of several is dropped. -/
def folded : List Char → List Char
  | ['\n'] => [' ']
  | '\n' :: bs => bs
  | bs => bs

def Gap.text (g : Gap) : List Char :=
  if g.breaks.isEmpty then g.blanks else folded g.breaks

/-- The gap that comes next; `broken` says that it began in an earlier line. In lines that belong to
the gap no tab may stand left of column `limit`. `fuel` bounds the number of characters. -/
def gap? (limit : Nat) : Nat → Bool → Cursor → Option Gap
  | 0, _, _ => none
  | fuel + 1, broken, c => match c.lineBreak? with
    | some (b, next) => do
      let g ← gap? limit fuel true next
      some { g with blanks := [], breaks := b :: g.breaks }
    | none => match c.rest with
      | [] => some ⟨[], [], c⟩
      | ch :: _ =>
        if !isBlank ch then some ⟨[], [], c⟩
        else if broken && ch = '\t' && c.column < limit then none
        else do
          let g ← gap? limit fuel broken (c.skip 1)
          some (if broken || !g.breaks.isEmpty then g else { g with blanks := ch :: g.blanks })

end TypedClient.Yaml
