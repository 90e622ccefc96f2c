import TypedClient.Json.Basic
import TypedClient.Decimal.Shortest

namespace TypedClient

def Json.escapeChar (c : Char) : List Char :=
  if c = '"' then ['\\', '"']
  else if c = '\\' then ['\\', '\\']
  else if c = '\x08' then ['\\', 'b']
  else if c = '\x0c' then ['\\', 'f']
  else if c = '\n' then ['\\', 'n']
  else if c = '\r' then ['\\', 'r']
  else if c = '\t' then ['\\', 't']
  else if c.toNat < 0x20 then
    ['\\', 'u', '0', '0'] ++ (if c.toNat < 0x10 then ['0'] else []) ++ Nat.toDigits 16 c.toNat
  else [c]

def Json.quoted (s : String) : List Char :=
  '"' :: s.toList.flatMap escapeChar ++ ['"']

def Number.text : Number → List Char
  | .int n => if n < 0 then '-' :: Nat.toDigits 10 n.natAbs else Nat.toDigits 10 n.natAbs
  | .double d => d.text

namespace Json

mutual

def compact : Json → List Char
  | null => "null".toList
  | bool b => if b then "true".toList else "false".toList
  | number n => n.text
  | string s => quoted s
  | array js => '[' :: compactItems js ++ [']']
  | object ms => '{' :: compactMembers ms ++ ['}']

def compactItems : List Json → List Char
  | [] => []
  | [j] => compact j
  | j :: js => compact j ++ ',' :: compactItems js

def compactMembers : List (String × Json) → List Char
  | [] => []
  | [(k, j)] => quoted k ++ ':' :: compact j
  | (k, j) :: ms => quoted k ++ ':' :: compact j ++ ',' :: compactMembers ms

end

def newline (n : Nat) : List Char :=
  '\n' :: List.replicate (2 * n) ' '

mutual

/-- The text of a value laid out over lines, at depth `n`. -/
def pretty (n : Nat) : Json → List Char
  | array (j :: js) => '[' :: prettyItems (n + 1) (j :: js) ++ newline n ++ [']']
  | object (m :: ms) => '{' :: prettyMembers (n + 1) (m :: ms) ++ newline n ++ ['}']
  | null => "null".toList
  | bool b => if b then "true".toList else "false".toList
  | number n => n.text
  | string s => quoted s
  | array [] => "[]".toList
  | object [] => ['{', '}']

def prettyItems (n : Nat) : List Json → List Char
  | [] => []
  | [j] => newline n ++ pretty n j
  | j :: js => newline n ++ pretty n j ++ ',' :: prettyItems n js

def prettyMembers (n : Nat) : List (String × Json) → List Char
  | [] => []
  | [(k, j)] => newline n ++ quoted k ++ ':' :: ' ' :: pretty n j
  | (k, j) :: ms => newline n ++ quoted k ++ ':' :: ' ' :: pretty n j ++ ',' :: prettyMembers n ms

end

def text (j : Json) : String :=
  String.ofList j.compact

def prettyText (j : Json) : String :=
  String.ofList (j.pretty 0)

end Json

end TypedClient
