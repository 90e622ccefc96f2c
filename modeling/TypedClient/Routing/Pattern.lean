import TypedClient.Text.Split

namespace TypedClient.Routing

open Text

inductive ParamKind
  | required
  | optional
  | wildcard
deriving DecidableEq, Repr

def ParamKind.text : ParamKind → String
  | required => "req"
  | optional => "opt"
  | wildcard => "*"

inductive Token
  | literal (s : String)
  | param (name : String)
  | optional (name : String)
  | rest
deriving DecidableEq, Repr

namespace Token

def ofSegment (s : String) : Token :=
  if s = "*" then rest
  else match afterPrefix? ":" s with
    | none => literal s
    | some name => match beforeSuffix? "?" name with
      | some name => optional name
      | none => param name

/-- The parameter that a token declares; the catch-all is named `*`. -/
def param? : Token → Option (String × ParamKind)
  | literal _ => none
  | param name => some (name, .required)
  | optional name => some (name, .optional)
  | rest => some ("*", .wildcard)

def weight : Token → Int
  | literal _ => 10
  | param _ => 3
  | optional _ => 2
  | rest => -2

end Token

namespace Pattern

/-- A segment behind a parent pattern; an empty one keeps the parent. -/
def join (parent segment : String) : String :=
  let parent := trimEnd (· == '/') parent.toList
  if segment = "" then (if parent.isEmpty then "/" else String.ofList parent)
  else String.ofList (parent ++ '/' :: segment.toList)

def tokens (pattern : String) : List Token :=
  ((pieces '/' pattern).filter (· ≠ "")).map Token.ofSegment

def params (pattern : String) : List (String × ParamKind) :=
  (tokens pattern).filterMap Token.param?

def weight (pattern : String) : Int :=
  (tokens pattern).foldr (fun t w => t.weight + w) 0

end Pattern

end TypedClient.Routing
