import TypedClient.Access
import TypedClient.Identifier
import TypedClient.Literal.Reader
import TypedClient.Path.Basic
import TypedClient.Text.Regex

namespace TypedClient.Routing

open Text Json

structure ViewConfig where
  title : Option String := none
  access : Access := {}
  extra : List (String × Json) := []
deriving Inhabited

namespace ViewConfig

def ofMembers (c : ViewConfig) : List (String × Json) → Except Mismatch ViewConfig
  | [] => .ok c
  | (k, j) :: ms =>
    if k = "title" then j.decodeString?.bind fun t => ofMembers { c with title := t } ms
    else match c.access.setMember? k j with
      | some r => r.bind fun a => ofMembers { c with access := a } ms
      | none => ofMembers { c with extra := c.extra ++ [(k, j)] } ms

def decode : Json → Except Mismatch ViewConfig
  | .object ms => ofMembers {} ms
  | j => Json.mismatch "struct ViewConfig" j

end ViewConfig

structure View where
  url : String
  component : Option String
  config : Option ViewConfig
deriving Inhabited

namespace View

inductive Fault
  | literal (url : String) (cause : Literal.ReadError)
  | form (url : String) (cause : Mismatch)
deriving DecidableEq, Repr

def Fault.message : Fault → String
  | literal url cause => "Invalid view config in " ++ url ++ ": " ++ cause.message
  | form url cause => "Invalid view config in " ++ url ++ ": " ++ cause.message

def blanks : Regex := .many isBlank

def someBlanks : Regex := .some isBlank

def keyword (s : String) : Regex := .text s.toList

def identifier (more : Char → Bool) : Regex :=
  .seq (.one fun c => isLetter c || c = '_' || c = '$') (.many more)

def inIdentifier (c : Char) : Bool := isWord c || c = '$'

def inTypeName (c : Char) : Bool := isWord c || c = '$' || c = '.' || c = '<' || c = '>'

def declarator : Regex :=
  .seq (.alt (.seq (keyword "function") (.opt (.char '*'))) (keyword "class")) someBlanks

/-- A default export: group 1 is the word before a name, group 2 the name. -/
def defaultExport : Regex :=
  .seqs [.lineStart, blanks, keyword "export", someBlanks, keyword "default", someBlanks,
    .opt (.seq (keyword "async") someBlanks), .opt (.group 1 declarator),
    .group 2 (identifier inIdentifier)]

/-- The beginning of the arguments of a call, groups as in a default export. -/
def callArgument : Regex :=
  .seqs [blanks, .char '(', blanks, .opt (.seq (keyword "async") someBlanks),
    .opt (.group 1 declarator), .opt (.group 2 (identifier inIdentifier))]

def configExport : Regex :=
  .seqs [.lineStart, blanks, keyword "export", someBlanks, keyword "const", someBlanks,
    keyword "config", blanks,
    .opt (.seqs [.char ':', blanks, identifier inTypeName, blanks]), .char '=']

/-- The name inside calls: that of the first argument, whose own call is looked through in turn;
`fuel` bounds the number of calls. An argument without a name counts as a function. -/
def innerName : Nat → List Char → List Char → List Char
  | 0, name, _ => name
  | fuel + 1, name, rest => match callArgument.matchFront? rest with
    | none => name
    | some k => match k.group? 2 with
      | none => "function".toList
      | some inner =>
        if (k.group? 1).isSome then inner.text else innerName fuel inner.text inner.rest

def fileComponent (url : String) : String :=
  match Path.fileStem? url with
  | some stem => Identifier.pascal stem
  | none => "View"

def isNameless (name : List Char) : Bool :=
  name = "function".toList || name = "class".toList || name = "async".toList

def componentName? (url : String) (source : List Char) : Option String := do
  let k ← defaultExport.search? source
  let first ← k.group? 2
  let name := if (k.group? 1).isSome then first.text
    else innerName (first.rest.length + 1) first.text first.rest
  some (if isNameless name then fileComponent url else String.ofList name)

def readConfig (url : String) (source : List Char) : Except Fault (Option ViewConfig) :=
  match configExport.search? source with
  | none => .ok none
  | some k => match Literal.parsePrefix (String.ofList k.rest) with
    | .error e => .error (.literal url e)
    | .ok (l, _) => match ViewConfig.decode l.toJson with
      | .error e => .error (.form url e)
      | .ok c => .ok (some c)

def parse (url source : String) : Except Fault View :=
  (readConfig url source.toList).map fun c => ⟨url, componentName? url source.toList, c⟩

end View

end TypedClient.Routing
