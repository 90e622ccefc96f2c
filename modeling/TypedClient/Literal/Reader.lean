import TypedClient.Literal.Basic
import TypedClient.Text.Blank

namespace TypedClient.Literal

open Text

inductive Fault
  | trailingInput
  | unknownWord
  | unexpectedCharacter
  | endOfInput
  | keyExpected
  | colonExpected
  | braceExpected
  | bracketExpected
  | openText
  | openEscape
  | digitsExpected
  | fractionExpected
  | exponentExpected
deriving DecidableEq, Repr

def Fault.message : Fault → String
  | trailingInput => "unexpected trailing input"
  | unknownWord => "unexpected identifier"
  | unexpectedCharacter => "unexpected character"
  | endOfInput => "unexpected end of input"
  | keyExpected => "expected object key"
  | colonExpected => "expected ':'"
  | braceExpected => "expected ',' or '\x7d'"
  | bracketExpected => "expected ',' or ']'"
  | openText => "unterminated string"
  | openEscape => "unterminated escape"
  | digitsExpected => "expected digits"
  | fractionExpected => "expected fraction digits"
  | exponentExpected => "expected exponent digits"

structure Stop where
  fault : Fault
  rest : List Char
deriving DecidableEq, Repr

def unescape (c : Char) : Char :=
  if c = 'n' then '\n' else if c = 't' then '\t' else if c = 'r' then '\r' else c

def quotedRest (q : Char) : List Char → Except Stop (List Char × List Char)
  | [] => .error ⟨.openText, []⟩
  | c :: cs =>
    if c = q then .ok ([], cs)
    else if c = '\\' then
      match cs with
      | [] => .error ⟨.openEscape, []⟩
      | e :: cs => (quotedRest q cs).map fun r => (unescape e :: r.1, r.2)
    else (quotedRest q cs).map fun r => (c :: r.1, r.2)

def word (cs : List Char) : List Char × List Char :=
  cs.span isWordPart

def digits (f : Fault) (cs : List Char) : Except Stop (List Char × List Char) :=
  match cs.span Char.isDigit with
  | ([], rest) => .error ⟨f, rest⟩
  | r => .ok r

def minus : List Char → List Char × List Char
  | '-' :: cs => (['-'], cs)
  | cs => ([], cs)

def fraction : List Char → Except Stop (List Char × List Char)
  | '.' :: cs => (digits .fractionExpected cs).map fun r => ('.' :: r.1, r.2)
  | cs => .ok ([], cs)

def exponentSign : List Char → List Char × List Char
  | '+' :: cs => (['+'], cs)
  | cs => minus cs

def exponent : List Char → Except Stop (List Char × List Char)
  | c :: cs =>
    if c = 'e' || c = 'E' then
      let (sign, cs) := exponentSign cs
      (digits .exponentExpected cs).map fun r => (c :: sign ++ r.1, r.2)
    else .ok ([], c :: cs)
  | [] => .ok ([], [])

def numeral (cs : List Char) : Except Stop (List Char × List Char) := do
  let (sign, cs) := minus cs
  let (whole, cs) ← digits .digitsExpected cs
  let (frac, cs) ← fraction cs
  let (exp, cs) ← exponent cs
  .ok (sign ++ whole ++ frac ++ exp, cs)

def ofWord? (w : List Char) : Option Literal :=
  if w = "true".toList then some (bool true)
  else if w = "false".toList then some (bool false)
  else if w = "null".toList then some null
  else none

def key : List Char → Except Stop (List Char × List Char)
  | [] => .error ⟨.keyExpected, []⟩
  | c :: cs =>
    if c = '"' || c = '\'' then quotedRest c cs
    else if isWordStart c then .ok (word (c :: cs))
    else .error ⟨.keyExpected, c :: cs⟩

mutual

/-- The literal at the front; `fuel` bounds the number of steps. -/
def value : Nat → List Char → Except Stop (Literal × List Char)
  | 0, cs => .error ⟨.endOfInput, cs⟩
  | fuel + 1, cs => match skipBlank cs with
    | [] => .error ⟨.endOfInput, []⟩
    | c :: cs =>
      if c = '{' then (entries fuel cs).map fun r => (object r.1, r.2)
      else if c = '[' then (items fuel cs).map fun r => (array r.1, r.2)
      else if c = '"' || c = '\'' then
        (quotedRest c cs).map fun r => (string (String.ofList r.1), r.2)
      else if c = '-' || c.isDigit then
        (numeral (c :: cs)).map fun r => (number (String.ofList r.1), r.2)
      else if isWordStart c then
        let (w, rest) := word (c :: cs)
        match ofWord? w with
        | some l => .ok (l, rest)
        | none => .error ⟨.unknownWord, rest⟩
      else .error ⟨.unexpectedCharacter, c :: cs⟩

def entries : Nat → List Char → Except Stop (List (String × Literal) × List Char)
  | 0, cs => .error ⟨.endOfInput, cs⟩
  | fuel + 1, cs => match skipBlank cs with
    | '}' :: cs => .ok ([], cs)
    | cs => do
      let (k, cs) ← key cs
      match skipBlank cs with
      | ':' :: cs =>
        let (l, cs) ← value fuel cs
        match skipBlank cs with
        | ',' :: cs =>
          let (es, cs) ← entries fuel cs
          .ok ((String.ofList k, l) :: es, cs)
        | '}' :: cs => .ok ([(String.ofList k, l)], cs)
        | cs => .error ⟨.braceExpected, cs⟩
      | cs => .error ⟨.colonExpected, cs⟩

def items : Nat → List Char → Except Stop (List Literal × List Char)
  | 0, cs => .error ⟨.endOfInput, cs⟩
  | fuel + 1, cs => match skipBlank cs with
    | ']' :: cs => .ok ([], cs)
    | cs => do
      let (l, cs) ← value fuel cs
      match skipBlank cs with
      | ',' :: cs =>
        let (ls, cs) ← items fuel cs
        .ok (l :: ls, cs)
      | ']' :: cs => .ok ([l], cs)
      | cs => .error ⟨.bracketExpected, cs⟩

end

def readFront (cs : List Char) : Except Stop (Literal × List Char) :=
  value (2 * cs.length + 2) cs

def readAll (cs : List Char) : Except Stop Literal := do
  let (l, rest) ← readFront cs
  match skipBlank rest with
  | [] => .ok l
  | rest => .error ⟨.trailingInput, rest⟩

structure ReadError where
  fault : Fault
  offset : Nat
deriving DecidableEq, Repr

def ReadError.message (e : ReadError) : String :=
  e.fault.message ++ " at offset " ++ toString e.offset

def Stop.toError (cs : List Char) (s : Stop) : ReadError :=
  ⟨s.fault, byteSize cs - byteSize s.rest⟩

/-- The literal at the front of a text, and how many bytes it takes. -/
def parsePrefix (s : String) : Except ReadError (Literal × Nat) :=
  match readFront s.toList with
  | .ok (l, rest) => .ok (l, byteSize s.toList - byteSize rest)
  | .error e => .error (e.toError s.toList)

def parse (s : String) : Except ReadError Literal :=
  (readAll s.toList).mapError (Stop.toError s.toList)

end TypedClient.Literal
