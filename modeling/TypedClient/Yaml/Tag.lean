import TypedClient.Decimal.Reading
import TypedClient.Text.Utf8
import TypedClient.Yaml.Scalar
import TypedClient.Yaml.Token

namespace TypedClient.Yaml

abbrev Lexeme := Token × Cursor

def anchorName? (c : Cursor) : Option (String × Cursor) :=
  let (name, c) := c.span isNameChar
  if !name.isEmpty && (atGap c.rest || c.rest.head?.any fun d => "?:,]\x7d%@`".toList.contains d) then
    some (String.ofList name, c)
  else none

def byteCount? (b : Nat) : Option Nat :=
  if b < 0x80 then some 1
  else if 0xC0 ≤ b && b < 0xE0 then some 2
  else if 0xE0 ≤ b && b < 0xF0 then some 3
  else if 0xF0 ≤ b && b < 0xF8 then some 4
  else none

def percentBytes? : Nat → List Char → Option (List UInt8)
  | 0, _ => some []
  | n + 1, '%' :: cs => do
    let b ← Text.hexNumber? 2 cs
    some (b.toUInt8 :: (← percentBytes? n (cs.drop 2)))
  | _ + 1, _ => none

def percentChar? (cs : List Char) : Option (Char × Nat) := do
  let first ← (← percentBytes? 1 cs).head?
  let n ← byteCount? first.toNat
  let s ← Text.ofBytes? (← percentBytes? n cs)
  some (← s.toList.head?, 3 * n)

/-- A character of a tag; commas and square brackets occur between angle brackets alone. -/
def isTagChar (bracketed : Bool) (c : Char) : Bool :=
  isNameChar c || ";/?:@&=+$.!~*'()".toList.contains c || (bracketed && ",[]".toList.contains c)

def tagText? (bracketed : Bool) : Nat → Cursor → Option (List Char × Cursor)
  | 0, _ => none
  | fuel + 1, c => match c.rest with
    | '%' :: _ => do
      let (ch, n) ← percentChar? c.rest
      let (text, c) ← tagText? bracketed fuel (c.skip n)
      some (ch :: text, c)
    | ch :: _ =>
      if isTagChar bracketed ch then do
        let (text, c) ← tagText? bracketed fuel (c.skip 1)
        some (ch :: text, c)
      else some ([], c)
    | [] => some ([], c)

def tagPart? (bracketed : Bool) (c : Cursor) : Option (List Char × Cursor) := do
  let (text, c) ← tagText? bracketed (c.left + 1) c
  if text.isEmpty then none else some (text, c)

/-- The handle of a tag that comes next: an exclamation mark, a name and perhaps a second mark. -/
def tagHandle (c : Cursor) : List Char × Cursor :=
  let (name, c) := (c.skip 1).span isNameChar
  if c.rest.head? = some '!' then ('!' :: name ++ ['!'], c.skip 1) else ('!' :: name, c)

/-- The tag whose exclamation mark comes next, before its end is looked at. -/
def bareTag? (c : Cursor) : Option Lexeme :=
  if (c.rest.drop 1).head? = some '<' then do
    let (suffix, c) ← tagPart? true (c.skip 2)
    if c.rest.head? = some '>' then some (.tag "" (String.ofList suffix), c.skip 1) else none
  else
    let (handle, c) := tagHandle c
    if handle.length > 1 && handle.getLast? = some '!' then do
      let (suffix, c) ← tagPart? false c
      some (.tag (String.ofList handle) (String.ofList suffix), c)
    else do
      let (more, c) ← tagText? false (c.left + 1) c
      let suffix := handle.drop 1 ++ more
      some (if suffix.isEmpty then .tag "" "!" else .tag "!" (String.ofList suffix), c)

def tag? (flow : Bool) (c : Cursor) : Option Lexeme := do
  let (t, c) ← bareTag? c
  if atGap c.rest || (flow && c.rest.head? = some ',') then some (t, c) else none

def versionNumber? (c : Cursor) : Option (Nat × Cursor) :=
  let (ds, c) := c.span Char.isDigit
  if ds.isEmpty || ds.length > 9 then none else some (Decimal.ofDigits ds, c)

def directive? (c : Cursor) : Option Lexeme := do
  let (name, c) := (c.skip 1).span isNameChar
  if !atGap c.rest then none
  else if name = "YAML".toList then
    let (major, c) ← versionNumber? c.skipBlanks
    if c.rest.head? ≠ some '.' then none
    let (minor, c) ← versionNumber? (c.skip 1)
    some (.versionDirective major minor, ← c.endLine?)
  else if name = "TAG".toList then
    let c := c.skipBlanks
    if c.rest.head? ≠ some '!' then none
    let (handle, c) := tagHandle c
    if handle ≠ ['!'] && handle.getLast? ≠ some '!' then none
    if !c.rest.head?.any isBlank then none
    let (expansion, c) ← tagPart? true c.skipBlanks
    if !atGap c.rest then none
    some (.tagDirective (String.ofList handle) (String.ofList expansion), ← c.endLine?)
  else none

end TypedClient.Yaml
