import TypedClient.Decimal.Double

namespace TypedClient

inductive Number
  | int (n : Int)
  | double (d : Decimal.Double)
deriving DecidableEq, Repr

inductive Json
  | null
  | bool (b : Bool)
  | number (n : Number)
  | string (s : String)
  | array (items : List Json)
  | object (members : List (String × Json))
deriving Inhabited

namespace Json

def set (key : String) (value : Json) : List (String × Json) → List (String × Json)
  | [] => [(key, value)]
  | m :: ms => if m.1 = key then (key, value) :: ms else m :: set key value ms

/-- The members left when every key keeps its first place and its last value. -/
def ofMembers (ms : List (String × Json)) : List (String × Json) :=
  ms.foldl (fun done m => set m.1 m.2 done) []

def get? (key : String) : Json → Option Json
  | object ms => ms.lookup key
  | _ => none

def string? : Json → Option String
  | string s => some s
  | _ => none

def bool? : Json → Option Bool
  | bool b => some b
  | _ => none

def array? : Json → Option (List Json)
  | array js => some js
  | _ => none

def object? : Json → Option (List (String × Json))
  | object ms => some ms
  | _ => none

def getString? (key : String) (j : Json) : Option String :=
  (j.get? key).bind string?

/-- The text items of an array; anything else is passed over. -/
def strings (j : Option Json) : List String :=
  ((j.bind array?).getD []).filterMap string?

end Json

end TypedClient
