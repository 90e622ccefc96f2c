namespace TypedClient.Decimal

/-- A finite double: `significand · 2 ^ exponent` with a sign. The significand has 53 bits, or fewer
when the exponent is the least one. -/
structure Double where
  negative : Bool
  significand : Nat
  exponent : Int
deriving DecidableEq, Repr, Inhabited

namespace Double

def leastExponent : Int := -1074

def greatestExponent : Int := 971

def zero : Double := ⟨false, 0, leastExponent⟩

def scaled (num den : Nat) (e : Int) : Nat × Nat :=
  if e < 0 then (num * Nat.pow 2 e.natAbs, den) else (num, den * Nat.pow 2 e.natAbs)

/-- The natural nearest to `num / den`, the even one of two. -/
def roundDiv (num den : Nat) : Nat :=
  let q := num / den
  let r := num % den
  if 2 * r < den then q
  else if den < 2 * r then q + 1
  else if q % 2 = 0 then q else q + 1

def exponentOf (num den : Nat) : Int :=
  let e := max ((num.log2 : Int) - den.log2 - 53) leastExponent
  let (n, d) := scaled num den e
  if Nat.pow 2 53 ≤ n / d then e + 1 else e

/-- The double nearest to `num / den`, the one with an even significand of two; `none` beyond the
greatest double. -/
def ofQuotient? (num den : Nat) : Option Double :=
  if num = 0 then some zero
  else
    let e := exponentOf num den
    let (n, d) := scaled num den e
    let s := roundDiv n d
    let (s, e) := if s = Nat.pow 2 53 then (Nat.pow 2 52, e + 1) else (s, e)
    if greatestExponent < e then none else some ⟨false, s, e⟩

def quotient (d : Double) : Nat × Nat :=
  if d.exponent < 0 then (d.significand, Nat.pow 2 d.exponent.natAbs)
  else (d.significand * Nat.pow 2 d.exponent.natAbs, 1)

def mul? (a b : Double) : Option Double :=
  ofQuotient? (a.quotient.1 * b.quotient.1) (a.quotient.2 * b.quotient.2)

def div? (a b : Double) : Option Double :=
  ofQuotient? (a.quotient.1 * b.quotient.2) (a.quotient.2 * b.quotient.1)

def tenPower? (n : Nat) : Option Double :=
  ofQuotient? (Nat.pow 10 n) 1

end Double

end TypedClient.Decimal
