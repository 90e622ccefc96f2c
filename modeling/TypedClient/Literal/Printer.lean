import TypedClient.Literal.Basic

namespace TypedClient

namespace Literal

def quoteChar (c : Char) : List Char :=
  if c = '"' then ['\\', '"']
  else if c = '\\' then ['\\', '\\']
  else if c = '\n' then ['\\', 'n']
  else if c = '\r' then ['\\', 'r']
  else if c = '\t' then ['\\', 't']
  else [c]

def quoteChars (s : List Char) : List Char :=
  '"' :: s.flatMap quoteChar ++ ['"']

def isBareKey : List Char → Bool
  | [] => false
  | c :: cs => isWordStart c && cs.all isWordPart

/-- A key as it is written: bare where that is possible. -/
def keyChars (s : List Char) : List Char :=
  if isBareKey s then s else quoteChars s

mutual

def chars : Literal → List Char
  | null => "null".toList
  | bool true => "true".toList
  | bool false => "false".toList
  | number w => w.toList
  | string s => quoteChars s.toList
  | array ls => '[' :: itemChars ls ++ [']']
  | object [] => ['{', '}']
  | object (e :: es) => '{' :: ' ' :: entryChars (e :: es) ++ [' ', '}']

def itemChars : List Literal → List Char
  | [] => []
  | [l] => chars l
  | l :: ls => chars l ++ ',' :: ' ' :: itemChars ls

def entryChars : List (String × Literal) → List Char
  | [] => []
  | [(k, l)] => keyChars k.toList ++ ':' :: ' ' :: chars l
  | (k, l) :: es => keyChars k.toList ++ ':' :: ' ' :: chars l ++ ',' :: ' ' :: entryChars es

end

def text (l : Literal) : String :=
  String.ofList l.chars

end Literal

def quoted (s : String) : String :=
  String.ofList (Literal.quoteChars s.toList)

def propertyKey (s : String) : String :=
  String.ofList (Literal.keyChars s.toList)

end TypedClient
