import TypedClient.Decimal.Double

namespace TypedClient.Decimal

/-- The greatest significand kept while reading digits. -/
def greatestSignificand : Nat := Nat.pow 2 64 - 1

def greatestWrittenExponent : Nat := Nat.pow 2 31 - 1

def digitValue (c : Char) : Nat :=
  c.toNat - '0'.toNat

def ofDigits (ds : List Char) : Nat :=
  ds.foldl (fun n c => 10 * n + digitValue c) 0

/-- Appends digits to a significand up to the first that no longer fits; the digits left over come
second. -/
def takeDigits (significand : Nat) : List Char → Nat × List Char
  | [] => (significand, [])
  | c :: cs =>
    let next := significand * 10 + digitValue c
    if next ≤ greatestSignificand then takeDigits next cs else (significand, c :: cs)

/-- `f · 10 ^ exponent`, in divisions by `10 ^ 308` while the exponent is below that; `none` beyond
the greatest double. -/
def scale (steps : Nat) (f : Double) (exponent : Int) : Option Double :=
  if exponent.natAbs ≤ 308 then do
    let p ← Double.tenPower? exponent.natAbs
    if 0 ≤ exponent then f.mul? p else f.div? p
  else if f.significand = 0 then some f
  else if 0 ≤ exponent then none
  else match steps with
    | 0 => some Double.zero
    | steps + 1 => do
      let p ← Double.tenPower? 308
      scale steps (← f.div? p) (exponent + 308)

def ofScientific? (significand : Nat) (exponent : Int) : Option Double := do
  scale 3 (← Double.ofQuotient? significand 1) exponent

structure Written where
  negative : Bool
  whole : List Char
  fraction : Option (List Char)
  exponent : Option (Bool × List Char)
deriving DecidableEq, Repr

namespace Written

def toDouble? (w : Written) : Option Double :=
  let (s, excess) := takeDigits 0 w.whole
  let fraction := w.fraction.getD []
  let (s, rest) := takeDigits s fraction
  let shift : Int := excess.length - ((fraction.length - rest.length : Nat) : Int)
  let magnitude := match w.exponent with
    | none => ofScientific? s shift
    | some (down, ds) =>
      let n := ofDigits ds
      if n ≤ greatestWrittenExponent then
        ofScientific? s (if down then shift - n else shift + n)
      else if s = 0 || down then some Double.zero
      else none
  magnitude.map fun d => { d with negative := w.negative }

/-- The integer of at most 64 bits that a written number denotes when it has neither fraction nor
exponent; a negative zero is none. -/
def toInt? (w : Written) : Option Int :=
  if w.fraction.isSome || w.exponent.isSome then none
  else
    let n := ofDigits w.whole
    if w.negative then if 0 < n && n ≤ Nat.pow 2 63 then some (-n) else none
    else if n ≤ greatestSignificand then some n else none

end Written

end TypedClient.Decimal
