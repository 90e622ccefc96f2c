import TypedClient.Text.Hexadecimal
import TypedClient.Yaml.Cursor

namespace TypedClient.Yaml

/-- The word of a plain scalar that comes next. It ends before a gap, before a colon with a gap
behind it and, in a flow collection, before a comma or a bracket. -/
def plainWord? (flow : Bool) : List Char → Option (List Char)
  | [] => some []
  | c :: cs =>
    if !isSolid c then some []
    else if flow && c = ':' && (cs.head?.any fun d => ",?[]{}".toList.contains d) then none
    else if c = ':' && atGap cs then some []
    else if flow && ",[]\x7b\x7d".toList.contains c then some []
    else (plainWord? flow cs).map (c :: ·)

/-- A scalar that was read: its text, whether a line break followed it within the gap that was
passed, and the place behind. -/
structure Scanned where
  text : List Char
  broken : Bool := false
  after : Cursor

/-- The rest of a plain scalar behind a gap. Lines have to begin at column `limit` or right of it,
unless the scalar stands in a flow collection. -/
def plainRest? (flow : Bool) (limit : Nat) : Nat → Gap → Option Scanned
  | 0, _ => none
  | fuel + 1, g =>
    if g.after.atMarker || g.after.rest.head? = some '#' then
      some ⟨[], !g.breaks.isEmpty, g.after⟩
    else do
      let word ← plainWord? flow g.after.rest
      if word.isEmpty then some ⟨[], !g.breaks.isEmpty, g.after⟩
      else
        let c := g.after.skip word.length
        let next ← gap? limit (c.left + 1) false c
        if next.after.index = c.index then some ⟨g.text ++ word, false, c⟩
        else if !flow && next.after.column < limit then
          some ⟨g.text ++ word, !next.breaks.isEmpty, next.after⟩
        else
          let r ← plainRest? flow limit fuel next
          some { r with text := g.text ++ word ++ r.text }

def plain? (flow : Bool) (limit : Nat) (c : Cursor) : Option Scanned :=
  plainRest? flow limit (c.left + 1) ⟨[], [], c⟩

def shortEscapes : List (Char × Char) :=
  [('0', '\x00'), ('a', '\x07'), ('b', '\x08'), ('t', '\t'), ('\t', '\t'), ('n', '\n'),
   ('v', '\x0b'), ('f', '\x0c'), ('r', '\r'), ('e', '\x1b'), (' ', ' '), ('"', '"'), ('/', '/'),
   ('\\', '\\'), ('N', '\x85'), ('_', '\xa0'), ('L', '\u2028'), ('P', '\u2029')]

/-- What stands behind a backslash: the character, and how many characters write it. -/
def escape? : List Char → Option (Char × Nat)
  | 'x' :: cs => (Text.hexChar? 2 cs).map fun c => (c, 3)
  | 'u' :: cs => (Text.hexChar? 4 cs).map fun c => (c, 5)
  | 'U' :: cs => (Text.hexChar? 8 cs).map fun c => (c, 9)
  | c :: _ => (shortEscapes.lookup c).map fun d => (d, 1)
  | [] => none

/-- The rest of a quoted scalar up to its quote, which is doubled in the text between single quotes;
a backslash escapes between double ones. -/
def quotedRest? (double : Bool) : Nat → Cursor → Option Scanned
  | 0, _ => none
  | fuel + 1, c =>
    if c.atMarker then none
    else match double, c.rest with
      | _, [] => none
      | false, '\'' :: '\'' :: _ => do
        let r ← quotedRest? double fuel (c.skip 2)
        some { r with text := '\'' :: r.text }
      | false, '\'' :: _ => some ⟨[], false, c.skip 1⟩
      | true, '"' :: _ => some ⟨[], false, c.skip 1⟩
      | true, '\\' :: cs => match (c.skip 1).lineBreak? with
        | some (_, next) => do
          let g ← gap? 0 (next.left + 1) true next
          let r ← quotedRest? double fuel g.after
          some { r with text := g.breaks ++ r.text }
        | none => do
          let (ch, n) ← escape? cs
          let r ← quotedRest? double fuel (c.skip (n + 1))
          some { r with text := ch :: r.text }
      | _, ch :: _ =>
        if isSolid ch then do
          let r ← quotedRest? double fuel (c.skip 1)
          some { r with text := ch :: r.text }
        else do
          let g ← gap? 0 (c.left + 1) false c
          let r ← quotedRest? double fuel g.after
          some { r with text := g.text ++ r.text }

def quoted? (double : Bool) (c : Cursor) : Option Scanned :=
  quotedRest? double (c.left + 1) (c.skip 1)

inductive Chomping
  | strip
  | clip
  | keep
deriving DecidableEq, Repr

def Chomping.ofSign? : Char → Option Chomping
  | '+' => some keep
  | '-' => some strip
  | _ => none

def indentDigit? (c : Char) : Option Nat :=
  if '1' ≤ c && c ≤ '9' then some (c.toNat - '0'.toNat) else none

/-- The signs behind the indicator of a block, in either order: a chomping and an indentation. -/
def blockSigns (c : Cursor) : Chomping × Option Nat × Cursor :=
  match c.rest with
  | a :: b :: _ => match Chomping.ofSign? a, indentDigit? a, Chomping.ofSign? b, indentDigit? b with
    | some s, _, _, some n => (s, some n, c.skip 2)
    | _, some n, some s, _ => (s, some n, c.skip 2)
    | some s, _, _, none => (s, none, c.skip 1)
    | _, some n, none, _ => (.clip, some n, c.skip 1)
    | none, none, _, _ => (.clip, none, c)
  | [a] => match Chomping.ofSign? a, indentDigit? a with
    | some s, _ => (s, none, c.skip 1)
    | none, some n => (.clip, some n, c.skip 1)
    | none, none => (.clip, none, c)
  | [] => (.clip, none, c)

/-- The empty lines that come next: their breaks, the widest indentation among them and the line
behind, and the first character of that line. An indentation of zero is not yet known, and then all
blanks count as indentation. -/
def emptyLines? (indent : Nat) : Nat → Nat → Cursor → Option (List Char × Nat × Cursor)
  | 0, _, _ => none
  | fuel + 1, widest, c =>
    let spaces := (c.rest.takeWhile (· = ' ')).length
    let c := c.skip (if indent = 0 then spaces else min spaces (indent - c.column))
    let widest := max widest c.column
    if (indent = 0 || c.column < indent) && c.rest.head? = some '\t' then none
    else match c.lineBreak? with
      | none => some ([], widest, c)
      | some (b, next) => do
        let (bs, widest, c) ← emptyLines? indent fuel widest next
        some (b :: bs, widest, c)

/-- The lines of a block from a line on that has its indentation: the text, the break behind the
last line, and the breaks of the empty lines behind it. `before` is the break before the line,
`empties` are those of the empty lines, and `indented` says whether the line before them began with a
blank. -/
def blockLines? (literal : Bool) (indent : Nat) :
    Nat → List Char → List Char → Bool → Cursor → Option (List Char × List Char × List Char × Cursor)
  | 0, _, _, _, _ => none
  | fuel + 1, before, empties, indented, c =>
    if c.column ≠ indent || c.rest.isEmpty then some ([], before, empties, c)
    else do
      let blank := c.rest.head?.any isBlank
      let joint :=
        if !literal && before = ['\n'] && !indented && !blank then
          if empties.isEmpty then [' '] else []
        else before
      let (line, c) := c.span fun ch => !isBreak ch
      let (before', c) := match c.lineBreak? with
        | some (b, c) => ([b], c)
        | none => ([], c)
      let (empties', _, c) ← emptyLines? indent (c.left + 1) 0 c
      let (text, last, trailing, c) ← blockLines? literal indent fuel before' empties' blank c
      some (joint ++ empties ++ line ++ text, last, trailing, c)

/-- The block scalar whose indicator comes next; `limit` is the least column of what stands inside
the collection around it. -/
def block? (literal : Bool) (limit : Nat) (c : Cursor) : Option Scanned := do
  let (chomping, width, c) := blockSigns (c.skip 1)
  let c ← c.endLine?
  let wanted := (width.map fun n => limit - 1 + n).getD 0
  let (empties, widest, c) ← emptyLines? wanted (c.left + 1) 0 c
  let indent := if wanted = 0 then max widest (max limit 1) else wanted
  let (text, last, trailing, c) ← blockLines? literal indent (c.left + 1) [] empties false c
  some { text := text ++ (if chomping = .strip then [] else last) ++
          (if chomping = .keep then trailing else [])
         after := c }

end TypedClient.Yaml
