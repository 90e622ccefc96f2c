import TypedClient.Literal.Printer
import TypedClient.Literal.Reader

namespace TypedClient

open Text

structure Annotation where
  name : String
  argument : Option Literal

namespace Annotation

def knownValidators : List String :=
  ["AssertFalse", "AssertTrue", "DecimalMax", "DecimalMin", "Digits", "Email", "Future",
   "FutureOrPresent", "Max", "Min", "Negative", "NegativeOrZero", "NotBlank", "NotEmpty",
   "NotNull", "Null", "Past", "PastOrPresent", "Pattern", "Positive", "PositiveOrZero", "Size"]

inductive Defect
  | missingName
  | argumentsExpected
deriving DecidableEq, Repr

inductive Fault
  | malformed (raw : String) (defect : Defect)
  | arguments (raw : String) (cause : Literal.ReadError)
  | unknownValidator (raw name : String)
deriving DecidableEq, Repr

def Defect.message : Defect → String
  | missingName => "missing validator name"
  | argumentsExpected => "expected `(arguments)` after the name"

def Fault.message : Fault → String
  | malformed raw defect => "malformed validator `" ++ raw ++ "`: " ++ defect.message
  | arguments raw _ => "malformed arguments in validator `" ++ raw ++ "`"
  | unknownValidator raw name => "unknown validator `" ++ name ++ "` in `" ++ raw ++ "`"

def isNamePart (c : Char) : Bool :=
  isLetterOrDigit c || c = '_' || c = '$' || c = '.'

def lastPart (qualified : List Char) : List Char :=
  (qualified.reverse.takeWhile (· ≠ '.')).reverse

/-- Whether a name is missing: nothing stands there, or a digit does. -/
def isMissing : List Char → Bool
  | [] => true
  | c :: _ => isDigit c

def between? : List Char → Option (List Char)
  | '(' :: cs => match cs.reverse with
    | ')' :: inner => some inner.reverse
    | _ => none
  | _ => none

def argument? (raw : String) : List Char → Except Fault (Option Literal)
  | [] => .ok none
  | rest => match between? rest with
    | none => .error (.malformed raw .argumentsExpected)
    | some inner => match trim isBlank inner with
      | [] => .ok none
      | text => match Literal.parse (String.ofList text) with
        | .ok l => .ok (some l)
        | .error e => .error (.arguments raw e)

def parse (raw : String) : Except Fault Annotation :=
  let text := trim isBlank raw.toList
  let name := lastPart (text.takeWhile isNamePart)
  if isMissing name then .error (.malformed raw .missingName)
  else match argument? raw (skipBlank (text.dropWhile isNamePart)) with
    | .error e => .error e
    | .ok argument =>
      let name := String.ofList name
      if knownValidators.contains name then .ok ⟨name, argument⟩
      else .error (.unknownValidator raw name)

end Annotation

end TypedClient
