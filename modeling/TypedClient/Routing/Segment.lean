import TypedClient.Text.Regex

namespace TypedClient.Routing.Segment

open Text

def greatestOrder : Nat := Nat.pow 2 32 - 1

/-- The number that digits write, if it is not beyond the greatest. -/
def order? (ds : List Char) : Option Nat :=
  let n := ds.foldl (fun n c => 10 * n + (c.toNat - '0'.toNat)) 0
  if n ≤ greatestOrder then some n else none

def isSeparator (c : Char) : Bool :=
  c = '-' || c = '_' || c = '.'

/-- The number in front of a name and the name behind it: digits, a separator and at least one more
character, with no line break. -/
def splitOrder (name : String) : Option Nat × String :=
  let cs := name.toList
  match cs.takeWhile Char.isDigit, cs.dropWhile Char.isDigit with
  | d :: ds, s :: c :: rest =>
    if isSeparator s && (c :: rest).all (· ≠ '\n') then
      match order? (d :: ds) with
      | some n => (some n, String.ofList (c :: rest))
      | none => (none, name)
    else (none, name)
  | _, _ => (none, name)

/-- A dynamic part: `left`, a name that holds neither bracket, and `right`. -/
def marked (left right : List Char) (opening closing : Char) : Regex :=
  .seqs [.text left, .group 1 (.some fun c => c ≠ opening && c ≠ closing), .text right]

/-- The text with every dynamic part written anew around its name. -/
def exchange (r : Regex) (before after : List Char) (cs : List Char) : List Char :=
  r.replaceAll (fun k => before ++ ((k.group? 1).map (·.text)).getD [] ++ after) cs

def normalizeChars (cs : List Char) : List Char :=
  let cs := exchange (marked ['[', '['] [']', ']'] '[' ']') ['{', '{'] ['}', '}'] cs
  let cs := exchange (marked ['[', '.', '.', '.'] [']'] '[' ']') ['{', '.', '.', '.'] ['}'] cs
  exchange (marked ['['] [']'] '[' ']') ['{'] ['}'] cs

def patternChars (cs : List Char) : List Char :=
  let cs := exchange (marked ['{', '{'] ['}', '}'] '{' '}') [':'] ['?'] cs
  let cs := (marked ['{', '.', '.', '.'] ['}'] '{' '}').replaceAll (fun _ => ['*']) cs
  exchange (marked ['{'] ['}'] '{' '}') [':'] [] cs

def normalize (name : String) : String :=
  String.ofList (normalizeChars name.toList)

def toPattern (segment : String) : String :=
  String.ofList (patternChars segment.toList)

end TypedClient.Routing.Segment
