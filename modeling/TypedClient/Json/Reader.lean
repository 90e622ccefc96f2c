import TypedClient.Json.Basic
import TypedClient.Decimal.Reading
import TypedClient.Text.Hexadecimal

namespace TypedClient.Json

def deepest : Nat := 127

def isSpace (c : Char) : Bool :=
  c = ' ' || c = '\n' || c = '\t' || c = '\r'

/-- The value of the four hexadecimal digits at the front. -/
def hexUnit? (cs : List Char) : Option (Nat × List Char) :=
  (Text.hexNumber? 4 cs).map fun n => (n, cs.drop 4)

/-- What stands after a backslash in a string: one of the short escapes, or `u` and a unit, two of
them for a surrogate pair. -/
def escape? : List Char → Option (Char × List Char)
  | '"' :: cs => some ('"', cs)
  | '\\' :: cs => some ('\\', cs)
  | '/' :: cs => some ('/', cs)
  | 'b' :: cs => some ('\x08', cs)
  | 'f' :: cs => some ('\x0c', cs)
  | 'n' :: cs => some ('\n', cs)
  | 'r' :: cs => some ('\r', cs)
  | 't' :: cs => some ('\t', cs)
  | 'u' :: cs => do
    let (n, cs) ← hexUnit? cs
    if 0xD800 ≤ n ∧ n < 0xDC00 then
      match cs with
      | '\\' :: 'u' :: cs =>
        let (m, cs) ← hexUnit? cs
        if 0xDC00 ≤ m ∧ m < 0xE000 then
          some (Char.ofNat (0x10000 + (n - 0xD800) * 0x400 + (m - 0xDC00)), cs)
        else none
      | _ => none
    else if 0xDC00 ≤ n ∧ n < 0xE000 then none
    else some (Char.ofNat n, cs)
  | _ => none

/-- The rest of a string after its opening quote; `fuel` bounds the number of characters. -/
def stringRest? : Nat → List Char → Option (List Char × List Char)
  | 0, _ => none
  | fuel + 1, cs => match cs with
    | '"' :: cs => some ([], cs)
    | '\\' :: cs => do
      let (c, cs) ← escape? cs
      let (s, cs) ← stringRest? fuel cs
      some (c :: s, cs)
    | c :: cs =>
      if c.toNat < 0x20 then none
      else do
        let (s, cs) ← stringRest? fuel cs
        some (c :: s, cs)
    | [] => none

/-- A string after its opening quote; `fuel` bounds the number of characters. -/
def string?At (fuel : Nat) (cs : List Char) : Option (String × List Char) :=
  (stringRest? fuel cs).map fun r => (String.ofList r.1, r.2)

/-- The parts of a number at the front, and what follows it. A whole part of several digits does not
begin with zero. -/
def written? (cs : List Char) : Option (Decimal.Written × List Char) := do
  let (negative, cs) := match cs with
    | '-' :: cs => (true, cs)
    | cs => (false, cs)
  let whole := cs.takeWhile Char.isDigit
  let cs := cs.dropWhile Char.isDigit
  if whole.isEmpty || (whole.head? = some '0' && whole.length > 1) then none
  let (fraction, cs) ← match cs with
    | '.' :: cs =>
      let ds := cs.takeWhile Char.isDigit
      if ds.isEmpty then none else some (some ds, cs.dropWhile Char.isDigit)
    | cs => some (none, cs)
  let (exponent, cs) ← match cs with
    | c :: cs' =>
      if c = 'e' || c = 'E' then
        let (down, cs) := match cs' with
          | '+' :: cs => (false, cs)
          | '-' :: cs => (true, cs)
          | cs => (false, cs)
        let ds := cs.takeWhile Char.isDigit
        if ds.isEmpty then none else some (some (down, ds), cs.dropWhile Char.isDigit)
      else some (none, c :: cs')
    | [] => some (none, [])
  some (⟨negative, whole, fraction, exponent⟩, cs)

def ofWritten? (w : Decimal.Written) : Option Number :=
  match w.toInt? with
  | some n => some (.int n)
  | none => w.toDouble?.map .double

def number?At (cs : List Char) : Option (Number × List Char) := do
  let (w, cs) ← written? cs
  some (← ofWritten? w, cs)

def number? (s : String) : Option Number :=
  match number?At s.toList with
  | some (n, []) => some n
  | _ => none

def after? (word : String) (cs : List Char) : Option (List Char) :=
  word.toList.isPrefixOf? cs

mutual

/-- The value at the front, with `depth` levels of nesting left; `fuel` bounds twice the number of
characters. -/
def value? : Nat → Nat → List Char → Option (Json × List Char)
  | 0, _, _ => none
  | fuel + 1, depth, cs => match cs.dropWhile isSpace with
    | '{' :: cs => match depth with
      | 0 => none
      | depth + 1 => match cs.dropWhile isSpace with
        | '}' :: cs => some (object [], cs)
        | cs => (members? fuel depth cs).map fun r => (object (ofMembers r.1), r.2)
    | '[' :: cs => match depth with
      | 0 => none
      | depth + 1 => match cs.dropWhile isSpace with
        | ']' :: cs => some (array [], cs)
        | cs => (items? fuel depth cs).map fun r => (array r.1, r.2)
    | '"' :: cs => (string?At fuel cs).map fun r => (string r.1, r.2)
    | cs@('t' :: _) => (after? "true" cs).map fun cs => (bool true, cs)
    | cs@('f' :: _) => (after? "false" cs).map fun cs => (bool false, cs)
    | cs@('n' :: _) => (after? "null" cs).map fun cs => (null, cs)
    | cs => (number?At cs).map fun r => (number r.1, r.2)

def items? : Nat → Nat → List Char → Option (List Json × List Char)
  | 0, _, _ => none
  | fuel + 1, depth, cs => do
    let (j, cs) ← value? fuel depth cs
    match cs.dropWhile isSpace with
    | ',' :: cs =>
      let (js, cs) ← items? fuel depth cs
      some (j :: js, cs)
    | ']' :: cs => some ([j], cs)
    | _ => none

def members? : Nat → Nat → List Char → Option (List (String × Json) × List Char)
  | 0, _, _ => none
  | fuel + 1, depth, cs => match cs.dropWhile isSpace with
    | '"' :: cs => do
      let (k, cs) ← string?At fuel cs
      match cs.dropWhile isSpace with
      | ':' :: cs =>
        let (j, cs) ← value? fuel depth cs
        match cs.dropWhile isSpace with
        | ',' :: cs =>
          let (ms, cs) ← members? fuel depth cs
          some ((k, j) :: ms, cs)
        | '}' :: cs => some ([(k, j)], cs)
        | _ => none
      | _ => none
    | _ => none

end

def parse? (s : String) : Option Json :=
  let cs := s.toList
  match value? (2 * cs.length + 2) deepest cs with
  | some (j, rest) => if rest.all isSpace then some j else none
  | none => none

end TypedClient.Json
