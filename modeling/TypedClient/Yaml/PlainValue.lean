import TypedClient.Decimal.Nearest
import TypedClient.Json.Basic
import TypedClient.Text.Hexadecimal
import TypedClient.Text.Split

namespace TypedClient.Yaml

open Text

def isNull (s : String) : Bool :=
  ["null", "Null", "NULL", "~"].contains s

def bool? (s : String) : Option Bool :=
  if ["true", "True", "TRUE"].contains s then some true
  else if ["false", "False", "FALSE"].contains s then some false
  else none

def digit? (base : Nat) (c : Char) : Option Nat :=
  (hexDigit? c).filter (· < base)

def natural? (base : Nat) (cs : List Char) : Option Nat :=
  if cs.isEmpty then none
  else cs.foldlM (fun n c => (digit? base c).map (n * base + ·)) 0

def hasLeadingZero (cs : List Char) : Bool :=
  let cs := match cs with
    | c :: cs => if c = '+' || c = '-' then cs else c :: cs
    | [] => []
  cs.length > 1 && cs.head? = some '0' && cs.all Char.isDigit

def unsigned? : List Char → Option Nat
  | '0' :: 'x' :: cs => natural? 16 cs
  | '0' :: 'o' :: cs => natural? 8 cs
  | '0' :: 'b' :: cs => natural? 2 cs
  | cs => if hasLeadingZero cs then none else natural? 10 cs

def integer? : List Char → Option Int
  | '-' :: cs => (unsigned? cs).map fun n => -(n : Int)
  | '+' :: cs => (unsigned? cs).map Int.ofNat
  | cs => (unsigned? cs).map Int.ofNat

def digits (cs : List Char) : List Char × List Char :=
  (cs.takeWhile Char.isDigit, cs.dropWhile Char.isDigit)

/-- The exponent that a rest of a decimal is: none where nothing is left. -/
def exponent? : List Char → Option (Option (Bool × List Char))
  | [] => some none
  | e :: cs =>
    if e ≠ 'e' && e ≠ 'E' then none
    else
      let (down, ds) := match cs with
        | '+' :: ds => (false, ds)
        | '-' :: ds => (true, ds)
        | ds => (false, ds)
      if ds.isEmpty || !ds.all Char.isDigit then none else some (some (down, ds))

/-- The decimal that a text without a sign writes: digits on at least one side of the point. -/
def decimal? (negative : Bool) (cs : List Char) : Option Decimal.Written := do
  let (whole, cs) := digits cs
  let (fraction, cs) := match cs with
    | '.' :: cs => ((digits cs).1, (digits cs).2)
    | cs => ([], cs)
  if whole.isEmpty && fraction.isEmpty then none
  some ⟨negative, whole, some fraction, ← exponent? cs⟩

def double? : List Char → Option Decimal.Double
  | '-' :: cs => (decimal? true cs).bind Decimal.Written.nearest?
  | '+' :: cs => (decimal? false cs).bind Decimal.Written.nearest?
  | cs => (decimal? false cs).bind Decimal.Written.nearest?

def isUnbounded (s : String) : Bool :=
  [".inf", ".Inf", ".INF", "+.inf", "+.Inf", "+.INF", "-.inf", "-.Inf", "-.INF", ".nan", ".NaN",
    ".NAN"].contains s

/-- The least integer and the greatest of 128 bits, beyond which integers are read as decimals. -/
def fitsWide (n : Int) : Bool :=
  -Int.pow 2 127 ≤ n && n < Int.pow 2 128

def fits (n : Int) : Bool :=
  -Int.pow 2 63 ≤ n && n < Int.pow 2 64

/-- The value of a text as a decimal. What is infinite or no number has no value in JSON. -/
def decimalValue? (s : String) : Option Json :=
  if isUnbounded s then some .null
  else (double? s.toList).map fun d => .number (.double d)

/-- The value of a text as an integer, if it is one: `some none` for an integer between 64 and 128
bits, which is refused. -/
def integerValue? (s : String) : Option (Option Json) :=
  match integer? s.toList with
  | some n => if fits n then some (some (.number (.int n))) else if fitsWide n then some none else none
  | none => none

def plainValue? (s : String) : Option Json :=
  if s = "" || isNull s then some .null
  else match bool? s with
    | some b => some (.bool b)
    | none => match integerValue? s with
      | some v => v
      | none =>
        if hasLeadingZero s.toList then some (.string s)
        else some ((decimalValue? s).getD (.string s))

/-- The value of a scalar with a tag. A tag of the core is checked, a local one is refused, and any
other makes a text. -/
def taggedValue? (tag s : String) : Option Json :=
  if tag = "tag:yaml.org,2002:bool" then (bool? s).map .bool
  else if tag = "tag:yaml.org,2002:int" then (integerValue? s).join
  else if tag = "tag:yaml.org,2002:float" then decimalValue? s
  else if tag = "tag:yaml.org,2002:null" then if isNull s then some .null else none
  else if startsWith "!" tag then none
  else some (.string s)

end TypedClient.Yaml
