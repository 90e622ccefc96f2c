import TypedClient.Yaml.Tag

namespace TypedClient.Yaml

structure KeyPlace where
  required : Bool
  number : Nat
  index : Nat
  line : Nat
  column : Nat
deriving DecidableEq, Repr

structure Scan where
  cursor : Cursor
  tokens : Array Token := #[]
  /-- The columns of the open block collections, the innermost first. -/
  indents : List Nat := []
  /-- Where a key may have begun, for each open flow collection, the innermost first, and outside. -/
  keys : List (Option KeyPlace) := [none]
  keyAllowed : Bool := true
deriving Repr

namespace Scan

def inFlow (s : Scan) : Bool :=
  s.keys.length > 1

/-- The least column of what stands inside the innermost block collection. -/
def limit (s : Scan) : Nat :=
  match s.indents with
  | [] => 0
  | n :: _ => n + 1

def push (t : Token) (s : Scan) : Scan :=
  { s with tokens := s.tokens.push t }

def insertAt (t : Token) (number : Nat) (s : Scan) : Scan :=
  { s with tokens := s.tokens.insertIdxIfInBounds number t }

def allowKey (b : Bool) (s : Scan) : Scan :=
  { s with keyAllowed := b }

def closeTo (column : Option Nat) (s : Scan) : Scan :=
  if s.inFlow then s
  else
    let closed := s.indents.takeWhile fun n => column.all fun m => n > m
    { s with
      tokens := s.tokens ++ closed.map fun _ => Token.blockEnd
      indents := s.indents.drop closed.length }

/-- Opens a block collection at a column if it is right of the innermost one; its token goes where
there are `number` tokens before it. -/
def openAt (column number : Nat) (t : Token) (s : Scan) : Scan :=
  if !s.inFlow && s.limit ≤ column then
    { s.insertAt t number with indents := column :: s.indents }
  else s

def openHere (t : Token) (s : Scan) : Scan :=
  s.openAt s.cursor.column s.tokens.size t

/-- Whether a key that began at a place can still end here. -/
def reaches (c : Cursor) (k : KeyPlace) : Bool :=
  k.line = c.line && c.index ≤ k.index + 1024

/-- Forgets the places that are too far back; none of them may be required. -/
def forgetFar? (s : Scan) : Option Scan :=
  if s.keys.any fun k => k.any fun k => k.required && !reaches s.cursor k then none
  else some { s with keys := s.keys.map fun k => k.filter (reaches s.cursor) }

/-- Sets the place of the innermost collection; the old one must not be required. -/
def setKey? (k : Option KeyPlace) (s : Scan) : Option Scan :=
  match s.keys with
  | some old :: ks => if old.required then none else some { s with keys := k :: ks }
  | _ :: ks => some { s with keys := k :: ks }
  | [] => some { s with keys := [k] }

def dropKey? (s : Scan) : Option Scan :=
  s.setKey? none

def saveKey? (s : Scan) : Option Scan :=
  if s.keyAllowed then
    let c := s.cursor
    s.setKey? (some
      { required := !s.inFlow && s.indents.head? = some c.column
        number := s.tokens.size
        index := c.index, line := c.line, column := c.column })
  else some s

/-- Moves to the beginning of the next token: over blanks, comments, line breaks and a mark of the
byte order at the beginning of a line, which takes a column. Tabs are passed where no key may begin
and in flow collections. -/
def toToken : Nat → Scan → Scan
  | 0, s => s
  | fuel + 1, s =>
    let tabs := s.inFlow || !s.keyAllowed
    let c := (s.cursor.skipMark.span fun ch => ch = ' ' || (tabs && ch = '\t')).2
    let c := if c.rest.head? = some '#' then (c.span fun ch => !isBreak ch).2 else c
    match c.lineBreak? with
    | some (_, c) => toToken fuel { s with cursor := c, keyAllowed := s.keyAllowed || !s.inFlow }
    | none => { s with cursor := c }

def indicator (t : Token) (n : Nat) (s : Scan) : Scan :=
  { s.push t with cursor := s.cursor.skip n }

def lexeme (l : Lexeme) (s : Scan) : Scan :=
  { s.push l.1 with cursor := l.2 }

/-- A directive, or a marker of documents: all block collections end before it. -/
def documentToken? (l : Lexeme) (s : Scan) : Option Scan := do
  some (((← (s.closeTo none).dropKey?).allowKey false).lexeme l)

def openFlow? (t : Token) (s : Scan) : Option Scan := do
  let s ← s.saveKey?
  some (({ s with keys := none :: s.keys }.allowKey true).indicator t 1)

def closeFlow? (t : Token) (s : Scan) : Option Scan := do
  let s ← s.dropKey?
  let s := if s.inFlow then { s with keys := s.keys.drop 1 } else s
  some ((s.allowKey false).indicator t 1)

def flowEntry? (s : Scan) : Option Scan := do
  some (((← s.dropKey?).allowKey true).indicator .flowEntry 1)

/-- The dash before an item, or the question mark before a key. -/
def blockIndicator? (collection t : Token) (keyNext : Bool) (s : Scan) : Option Scan :=
  if !s.inFlow && !s.keyAllowed then none
  else do
    let s ← (s.openHere collection).dropKey?
    some ((s.allowKey keyNext).indicator t 1)

/-- The colon before a value. The key before it ends here, or there is none, or it was marked by a
question mark. -/
def value? (s : Scan) : Option Scan :=
  match s.keys with
  | some k :: ks =>
    let s := (s.insertAt .key k.number).openAt k.column k.number .blockMappingStart
    some (({ s with keys := none :: ks }.allowKey false).indicator .value 1)
  | _ =>
    if !s.inFlow && !s.keyAllowed then none
    else some (((s.openHere .blockMappingStart).allowKey !s.inFlow).indicator .value 1)

/-- An anchor, an alias, a tag or a scalar that may begin a key. -/
def keyToken? (l : Cursor → Option Lexeme) (s : Scan) : Option Scan := do
  let s ← s.saveKey?
  some ((s.allowKey false).lexeme (← l s.cursor))

def plainToken? (s : Scan) : Option Scan := do
  let s ← s.saveKey?
  let r ← plain? s.inFlow s.limit s.cursor
  some ((s.allowKey r.broken).lexeme (.scalar true (String.ofList r.text), r.after))

def blockToken? (literal : Bool) (s : Scan) : Option Scan := do
  let s ← s.dropKey?
  let r ← block? literal s.limit s.cursor
  some ((s.allowKey true).lexeme (.scalar false (String.ofList r.text), r.after))

def quotedLexeme? (double : Bool) (c : Cursor) : Option Lexeme :=
  (quoted? double c).map fun r => (.scalar false (String.ofList r.text), r.after)

def indicators : List Char :=
  ",[]\x7b\x7d#&*!|>'\"%@`".toList

def beginsPlain (flow : Bool) (c : Char) (cs : List Char) : Bool :=
  if c = '-' then !cs.head?.any isBlank
  else if c = '?' || c = ':' then !flow && !atGap cs
  else isSolid c && !indicators.contains c

def token? (s : Scan) : Option Scan :=
  let c := s.cursor
  let flow := s.inFlow
  match c.rest with
  | [] => some s
  | '%' :: _ =>
    if c.column = 0 then do s.documentToken? (← directive? c) else none
  | ch :: cs =>
    if c.atMarker then
      s.documentToken? (if ch = '-' then .documentStart else .documentEnd, c.skip 3)
    else if ch = '[' then s.openFlow? .flowSequenceStart
    else if ch = '\x7b' then s.openFlow? .flowMappingStart
    else if ch = ']' then s.closeFlow? .flowSequenceEnd
    else if ch = '\x7d' then s.closeFlow? .flowMappingEnd
    else if ch = ',' then s.flowEntry?
    else if ch = '-' && atGap cs then s.blockIndicator? .blockSequenceStart .blockEntry true
    else if ch = '?' && (flow || atGap cs) then
      s.blockIndicator? .blockMappingStart .key !flow
    else if ch = ':' && (flow || atGap cs) then s.value?
    else if ch = '*' then
      s.keyToken? fun c => (anchorName? (c.skip 1)).map fun r => (.aliasOf r.1, r.2)
    else if ch = '&' then
      s.keyToken? fun c => (anchorName? (c.skip 1)).map fun r => (.anchor r.1, r.2)
    else if ch = '!' then s.keyToken? (tag? flow)
    else if ch = '|' && !flow then s.blockToken? true
    else if ch = '>' && !flow then s.blockToken? false
    else if ch = '\'' then s.keyToken? (quotedLexeme? false)
    else if ch = '"' then s.keyToken? (quotedLexeme? true)
    else if beginsPlain flow ch cs then s.plainToken?
    else none

def run? : Nat → Scan → Option Scan
  | 0, _ => none
  | fuel + 1, s => do
    let s ← (s.toToken (s.cursor.left + 1)).forgetFar?
    if s.cursor.rest.isEmpty then (s.closeTo none).dropKey?
    else run? fuel (← (s.closeTo (some s.cursor.column)).token?)

end Scan

def tokens? (text : String) : Option (List Token) :=
  let cs := text.toList
  if cs.all isAllowed then
    (Scan.run? (cs.length + 1) { cursor := { rest := cs } }).map fun s => s.tokens.toList
  else none

end TypedClient.Yaml
