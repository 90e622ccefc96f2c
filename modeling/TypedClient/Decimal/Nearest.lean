import TypedClient.Decimal.Reading

namespace TypedClient.Decimal.Written

def statedExponent (w : Written) : Int :=
  match w.exponent with
  | none => 0
  | some (true, ds) => -(ofDigits ds : Int)
  | some (false, ds) => ofDigits ds

/-- The place of the first significant digit relative to the point: the number is below ten to this
power. -/
def magnitude (w : Written) : Int :=
  let digits := w.whole ++ w.fraction.getD []
  w.whole.length - (digits.takeWhile (· = '0')).length + w.statedExponent

/-- The double nearest to a written number; `none` beyond the greatest double. Numbers whose first
digit lies further out than that of any double are settled without their value. -/
def nearest? (w : Written) : Option Double :=
  let digits := w.whole ++ w.fraction.getD []
  let n := ofDigits digits
  let power := w.statedExponent - (w.fraction.getD []).length
  let d := if n = 0 || w.magnitude < -330 then some Double.zero
    else if w.magnitude > 310 then none
    else if 0 ≤ power then Double.ofQuotient? (n * Nat.pow 10 power.natAbs) 1
    else Double.ofQuotient? n (Nat.pow 10 power.natAbs)
  d.map fun d => { d with negative := w.negative }

end TypedClient.Decimal.Written
