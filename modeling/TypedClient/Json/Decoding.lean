import TypedClient.Json.Printer
import TypedClient.Text.Escaped

namespace TypedClient.Json

inductive Mismatch
  | form (found : String) (wanted : String)
  | missing (field : String)
  | count (found : Nat) (wanted : String)
deriving DecidableEq, Repr

def Mismatch.message : Mismatch → String
  | form found wanted => "invalid type: " ++ found ++ ", expected " ++ wanted
  | missing field => "missing field `" ++ field ++ "`"
  | count found wanted => "invalid length " ++ toString found ++ ", expected " ++ wanted

def form : Json → String
  | null => "null"
  | bool b => "boolean `" ++ (if b then "true" else "false") ++ "`"
  | number (.int n) => "integer `" ++ toString n ++ "`"
  | number (.double d) => "floating point `" ++ String.ofList d.text ++ "`"
  | string s => "string " ++ Text.escaped s
  | array _ => "sequence"
  | object _ => "map"

def mismatch (wanted : String) (j : Json) : Except Mismatch α :=
  .error (.form j.form wanted)

def decodeBool : Json → Except Mismatch Bool
  | bool b => .ok b
  | j => mismatch "a boolean" j

def decodeString : Json → Except Mismatch String
  | string s => .ok s
  | j => mismatch "a string" j

def decodeString? : Json → Except Mismatch (Option String)
  | null => .ok none
  | j => j.decodeString.map some

def decodeStrings : Json → Except Mismatch (List String)
  | array js => js.mapM decodeString
  | j => mismatch "a sequence" j

end TypedClient.Json
