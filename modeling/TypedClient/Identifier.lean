import TypedClient.Text.Split

namespace TypedClient.Identifier

open Text

def reservedWords : List String :=
  ["arguments", "await", "break", "case", "catch", "class", "const", "continue", "debugger",
   "default", "delete", "do", "else", "enum", "eval", "export", "extends", "false", "finally",
   "for", "function", "if", "implements", "import", "in", "instanceof", "interface", "let",
   "new", "null", "package", "private", "protected", "public", "return", "static", "super",
   "switch", "this", "throw", "true", "try", "typeof", "undefined", "var", "void", "while",
   "with", "yield"]

def isReserved (name : String) : Bool :=
  reservedWords.contains name

def isPart (c : Char) : Bool :=
  isLetterOrDigit c || c = '_' || c = '$'

/-- `cs` with an underscore for each character no identifier holds, and one in front where it would
be empty or begin with a digit. -/
def sanitizeChars (cs : List Char) : List Char :=
  match cs.map fun c => if isPart c then c else '_' with
  | [] => ['_']
  | c :: cs => if isDigit c then '_' :: c :: cs else c :: cs

def sanitize (name : String) : String :=
  String.ofList (sanitizeChars name.toList)

def numbered (base : String) (n : Nat) : String :=
  base ++ "_" ++ toString n

/-- The least `n ≥ 1` for which `base_n` is not among `taken`. One of the first `taken.length + 1`
is free. -/
def firstFree (taken : List String) (base : String) : String :=
  ((List.range (taken.length + 1)).map fun n => numbered base (n + 1)).find?
    (fun name => !taken.contains name) |>.getD base

/-- `base`, or where it is among `taken` the first free numbered name. -/
def unique (taken : List String) (base : String) : String :=
  if taken.contains base then firstFree taken base else base

def words (s : String) : List (List Char) :=
  s.toList.splitOnP fun c => !isLetterOrDigit c

def capitalize : List Char → List Char
  | [] => []
  | c :: cs => c.toUpper :: cs

def uncapitalize : List Char → List Char
  | [] => []
  | c :: cs => c.toLower :: cs

def pascalChars (s : String) : List Char :=
  (words s).flatMap capitalize

def pascal (s : String) : String :=
  String.ofList (pascalChars s)

def camel (s : String) : String :=
  String.ofList (uncapitalize (pascalChars s))

end TypedClient.Identifier
