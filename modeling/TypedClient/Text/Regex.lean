import TypedClient.Text.Word

namespace TypedClient.Text

inductive Regex
  | empty
  | one (p : Char → Bool)
  | many (p : Char → Bool)
  | seq (a b : Regex)
  | alt (a b : Regex)
  | group (n : Nat) (a : Regex)
  | lineStart

structure Span where
  start : List Char
  rest : List Char
deriving DecidableEq, Repr

def Span.text (s : Span) : List Char :=
  s.start.take (s.start.length - s.rest.length)

/-- Where a match stands: the text left, whether a line begins here, and the groups so far. -/
structure Cursor where
  rest : List Char
  atLineStart : Bool
  groups : List (Nat × Span)
deriving DecidableEq, Repr

namespace Cursor

def advance (c : Char) (rest : List Char) (groups : List (Nat × Span)) : Cursor :=
  ⟨rest, c = '\n', groups⟩

def group? (k : Cursor) (n : Nat) : Option Span :=
  k.groups.lookup n

end Cursor

namespace Regex

/-- Matches as many characters of a class as possible such that `k` succeeds after them. -/
def manyThen (p : Char → Bool) (groups : List (Nat × Span)) (k : Cursor → Option α) :
    Bool → List Char → Option α
  | start, [] => k ⟨[], start, groups⟩
  | start, c :: cs =>
    if p c then (manyThen p groups k (c = '\n') cs) <|> k ⟨c :: cs, start, groups⟩
    else k ⟨c :: cs, start, groups⟩

/-- Matches at the cursor such that `k` succeeds after the match. -/
def run : Regex → (Cursor → Option α) → Cursor → Option α
  | empty, k, s => k s
  | one p, k, s => match s.rest with
    | [] => none
    | c :: cs => if p c then k (Cursor.advance c cs s.groups) else none
  | many p, k, s => manyThen p s.groups k s.atLineStart s.rest
  | seq a b, k, s => a.run (b.run k) s
  | alt a b, k, s => a.run k s <|> b.run k s
  | group n a, k, s =>
    a.run (fun t => k { t with groups := (n, ⟨s.rest, t.rest⟩) :: t.groups }) s
  | lineStart, k, s => if s.atLineStart then k s else none

def char (c : Char) : Regex :=
  one (· == c)

def seqs (rs : List Regex) : Regex :=
  rs.foldr seq empty

def text (s : List Char) : Regex :=
  seqs (s.map char)

def some (p : Char → Bool) : Regex :=
  seq (one p) (many p)

def opt (r : Regex) : Regex :=
  alt r empty

def matchFront? (r : Regex) (cs : List Char) : Option Cursor :=
  r.run Option.some ⟨cs, true, []⟩

/-- The first match in a text, from a place that may begin a line. -/
def searchFrom? (r : Regex) : Bool → List Char → Option Cursor
  | start, [] => r.run Option.some ⟨[], start, []⟩
  | start, c :: cs =>
    r.run Option.some ⟨c :: cs, start, []⟩ <|> searchFrom? r (c = '\n') cs

def search? (r : Regex) (cs : List Char) : Option Cursor :=
  searchFrom? r true cs

/-- The text with every match of `r` replaced, from left to right; `skip` characters still belong to
the last match. -/
def replaceFrom (r : Regex) (f : Cursor → List Char) : Nat → Bool → List Char → List Char
  | _, _, [] => []
  | skip + 1, _, c :: cs => replaceFrom r f skip (c = '\n') cs
  | 0, start, c :: cs =>
    match r.run Option.some ⟨c :: cs, start, []⟩ with
    | Option.some t =>
      if t.rest.length ≤ cs.length then
        f t ++ replaceFrom r f (cs.length - t.rest.length) (c = '\n') cs
      else c :: replaceFrom r f 0 (c = '\n') cs
    | none => c :: replaceFrom r f 0 (c = '\n') cs

def replaceAll (r : Regex) (f : Cursor → List Char) (cs : List Char) : List Char :=
  replaceFrom r f 0 true cs

end Regex

end TypedClient.Text
