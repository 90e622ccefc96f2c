import TypedClient.Text.Hexadecimal

namespace TypedClient.Settings

inductive Value
  | text (s : String)
  | texts (ss : List String)
deriving DecidableEq, Repr

def isLineBlank (c : Char) : Bool :=
  c = ' ' || c = '\t'

def isInline (c : Char) : Bool :=
  c = '\t' || (' ' ≤ c && c ≠ '\x7f')

def skipLineBlanks (cs : List Char) : List Char :=
  cs.dropWhile isLineBlank

def afterBreak? : List Char → Option (List Char)
  | '\n' :: cs => some cs
  | '\r' :: '\n' :: cs => some cs
  | _ => none

def skipComment : List Char → List Char
  | '#' :: cs => cs.dropWhile isInline
  | cs => cs

/-- What follows the end of the line: blanks, perhaps a comment, and a break or the end of the
file. -/
def endLine? (cs : List Char) : Option (List Char) :=
  match skipComment (skipLineBlanks cs) with
  | [] => some []
  | cs => afterBreak? cs

/-- Blanks, comments and line breaks passed; `fuel` bounds the number of lines. -/
def skipLines : Nat → List Char → List Char
  | 0, cs => cs
  | fuel + 1, cs =>
    let cs := skipComment (skipLineBlanks cs)
    match afterBreak? cs with
    | some cs => skipLines fuel cs
    | none => cs

def shortEscapes : List (Char × Char) :=
  [('b', '\x08'), ('t', '\t'), ('n', '\n'), ('f', '\x0c'), ('r', '\r'), ('e', '\x1b'), ('"', '"'),
   ('\\', '\\')]

/-- The character that stands behind a backslash, and what follows it. -/
def escape? : List Char → Option (Char × List Char)
  | 'x' :: cs => (Text.hexChar? 2 cs).map fun c => (c, cs.drop 2)
  | 'u' :: cs => (Text.hexChar? 4 cs).map fun c => (c, cs.drop 4)
  | 'U' :: cs => (Text.hexChar? 8 cs).map fun c => (c, cs.drop 8)
  | c :: cs => (shortEscapes.lookup c).map fun d => (d, cs)
  | [] => none

def skipSpace : List Char → List Char
  | '\r' :: '\n' :: cs => skipSpace cs
  | c :: cs => if isLineBlank c || c = '\n' then skipSpace cs else c :: cs
  | [] => []

/-- What follows a backslash at the end of a line: the blanks and breaks behind it are passed. -/
def joinedLine? (cs : List Char) : Option (List Char) :=
  (afterBreak? (skipLineBlanks cs)).map skipSpace

/-- The rest of a text on one line up to its quote. Between double quotes a backslash escapes. -/
def lineText? (quote : Char) : Nat → List Char → Option (List Char × List Char)
  | 0, _ => none
  | fuel + 1, cs => match cs with
    | [] => none
    | c :: cs =>
      if c = quote then some ([], cs)
      else if c = '\\' && quote = '"' then do
        let (d, cs) ← escape? cs
        let (s, cs) ← lineText? quote fuel cs
        some (d :: s, cs)
      else if isInline c then do
        let (s, cs) ← lineText? quote fuel cs
        some (c :: s, cs)
      else none

/-- The rest of a text of several lines up to three quotes; up to two more in front of them belong
to the text. -/
def linesText? (quote : Char) : Nat → List Char → Option (List Char × List Char)
  | 0, _ => none
  | fuel + 1, cs =>
    let quotes := (cs.takeWhile (· = quote)).length
    if quotes ≥ 3 then
      let n := min quotes 5
      some (List.replicate (n - 3) quote, cs.drop n)
    else match cs with
      | [] => none
      | '\r' :: '\n' :: cs => do
        let (s, cs) ← linesText? quote fuel cs
        some ('\r' :: '\n' :: s, cs)
      | c :: cs =>
        if c = '\\' && quote = '"' then
          match joinedLine? cs with
          | some cs => linesText? quote fuel cs
          | none => do
            let (d, cs) ← escape? cs
            let (s, cs) ← linesText? quote fuel cs
            some (d :: s, cs)
        else if isInline c || c = '\n' then do
          let (s, cs) ← linesText? quote fuel cs
          some (c :: s, cs)
        else none

/-- The text that comes next, whose first character is a quote, and what follows it. A line break
behind three quotes is no part of the text. -/
def text? : List Char → Option (String × List Char)
  | [] => none
  | q :: cs =>
    if q ≠ '"' && q ≠ '\'' then none
    else
      let r := match [q, q].isPrefixOf? cs with
        | some cs => linesText? q (cs.length + 1) ((afterBreak? cs).getD cs)
        | none => lineText? q (cs.length + 1) cs
      r.map fun r => (String.ofList r.1, r.2)

def texts? : Nat → List Char → Option (List String × List Char)
  | 0, _ => none
  | fuel + 1, cs => match skipLines (fuel + 1) cs with
    | ']' :: cs => some ([], cs)
    | cs => do
      let (s, cs) ← text? cs
      match skipLines (fuel + 1) cs with
      | ',' :: cs =>
        let (ss, cs) ← texts? fuel cs
        some (s :: ss, cs)
      | ']' :: cs => some ([s], cs)
      | _ => none

def value? : List Char → Option (Value × List Char)
  | '[' :: cs => (texts? (cs.length + 1) cs).map fun r => (.texts r.1, r.2)
  | cs => (text? cs).map fun r => (.text r.1, r.2)

def isKeyChar (c : Char) : Bool :=
  c.isAlphanum || c = '_' || c = '-'

def key? (cs : List Char) : Option (String × List Char) :=
  match cs with
  | [] => none
  | c :: rest =>
    if c = '"' || c = '\'' then
      (lineText? c (rest.length + 1) rest).map fun r => (String.ofList r.1, r.2)
    else
      let key := cs.takeWhile isKeyChar
      if key.isEmpty then none else some (String.ofList key, cs.dropWhile isKeyChar)

def entry? (cs : List Char) : Option ((String × Value) × List Char) := do
  let (key, cs) ← key? cs
  match skipLineBlanks cs with
  | '=' :: cs =>
    let (v, cs) ← value? (skipLineBlanks cs)
    some ((key, v), ← endLine? cs)
  | _ => none

def entriesFrom? : Nat → List Char → Option (List (String × Value))
  | 0, _ => none
  | fuel + 1, cs => match skipLines (fuel + 1) cs with
    | [] => some []
    | cs => do
      let (e, cs) ← entry? cs
      some (e :: (← entriesFrom? fuel cs))

/-- The entries of a file. A mark of the byte order may stand before them. -/
def entries? (file : String) : Option (List (String × Value)) :=
  let cs := match file.toList with
    | '\ufeff' :: cs => cs
    | cs => cs
  entriesFrom? (cs.length + 1) cs

end TypedClient.Settings
