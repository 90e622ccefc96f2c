import TypedClient.Decimal.Double

namespace TypedClient.Decimal

structure Scaled where
  digits : Nat
  exponent : Int
deriving DecidableEq, Repr

structure Interval where
  low : Nat
  value : Nat
  high : Nat
  den : Nat
  closed : Bool

/-- The interval of reals that round to the magnitude of `d`. The gap below a power of two is half
the gap above it; the ends belong to the interval when the significand is even. -/
def Double.interval (d : Double) : Interval :=
  let narrow := d.significand = Nat.pow 2 52 ∧ Double.leastExponent < d.exponent
  let e := d.exponent - 2
  let up := if e < 0 then 1 else Nat.pow 2 e.natAbs
  { low := (4 * d.significand - if narrow then 1 else 2) * up
    value := 4 * d.significand * up
    high := (4 * d.significand + 2) * up
    den := if e < 0 then Nat.pow 2 e.natAbs else 1
    closed := d.significand % 2 = 0 }

namespace Interval

def magnitude (i : Interval) : Int :=
  ((Nat.toDigits 10 (i.value * Nat.pow 10 330 / i.den)).length : Int) - 331

def holds (i : Interval) (c : Nat) (k : Int) : Bool :=
  let x := if k < 0 then c * i.den else c * Nat.pow 10 k.natAbs * i.den
  let up := if k < 0 then Nat.pow 10 k.natAbs else 1
  if i.closed then i.low * up ≤ x && x ≤ i.high * up else i.low * up < x && x < i.high * up

/-- The point of the grid of multiples of `10 ^ k` in the interval, the nearer one of the two
neighbours of the value when both are. -/
def onGrid? (i : Interval) (k : Int) : Option Nat :=
  let num := if k < 0 then i.value * Nat.pow 10 k.natAbs else i.value
  let den := if k < 0 then i.den else i.den * Nat.pow 10 k.natAbs
  let c := num / den
  let r := num % den
  match i.holds c k, i.holds (c + 1) k with
  | true, true => some (if 2 * r < den || (2 * r = den && c % 2 = 0) then c else c + 1)
  | true, false => some c
  | false, true => some (c + 1)
  | false, false => none

/-- The first hit on the grids of `n`, `n + 1`, … digits. -/
def firstHit (i : Interval) (top : Int) : Nat → Nat → Scaled
  | 0, n => ⟨0, top - n⟩
  | left + 1, n =>
    let k := top - n + 1
    match i.onGrid? k with
    | some c => ⟨c, k⟩
    | none => firstHit i top left (n + 1)

end Interval

/-- The digits of a natural without the zeros at its end, and how many those are. -/
def stripZeros (ds : List Char) : List Char × Nat :=
  let kept := (ds.reverse.dropWhile (· = '0')).reverse
  (kept, ds.length - kept.length)

/-- The digits of the shortest decimal that reads back as the magnitude of `d`, and the exponent of
ten of the last one. -/
def Double.shortest (d : Double) : List Char × Int :=
  let i := d.interval
  let s := i.firstHit i.magnitude 17 1
  let (ds, zeros) := stripZeros (Nat.toDigits 10 s.digits)
  (ds, s.exponent + zeros)

/-- The text of a double: positional from `1e-5` up to `1e16` with at least one digit after the
point, otherwise with an exponent that carries its sign. -/
def Double.text (d : Double) : List Char :=
  let sign := if d.negative then ['-'] else []
  if d.significand = 0 then sign ++ ['0', '.', '0']
  else
    let (ds, k) := d.shortest
    let point : Int := ds.length + k
    sign ++
      if 0 ≤ k ∧ point ≤ 16 then ds ++ List.replicate k.natAbs '0' ++ ['.', '0']
      else if 0 < point ∧ point ≤ 16 then ds.take point.natAbs ++ '.' :: ds.drop point.natAbs
      else if -5 < point ∧ point ≤ 0 then ['0', '.'] ++ List.replicate point.natAbs '0' ++ ds
      else
        let mantissa := match ds with
          | c :: r@(_ :: _) => c :: '.' :: r
          | ds => ds
        let e := point - 1
        mantissa ++ ['e', if e < 0 then '-' else '+'] ++ Nat.toDigits 10 e.natAbs

end TypedClient.Decimal
