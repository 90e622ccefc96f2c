namespace TypedClient.Text

def hexDigit? (c : Char) : Option Nat :=
  if c.isDigit then some (c.toNat - 48)
  else if 'a' ≤ c && c ≤ 'f' then some (c.toNat - 87)
  else if 'A' ≤ c && c ≤ 'F' then some (c.toNat - 55)
  else none

def hexNumber? (n : Nat) (cs : List Char) : Option Nat :=
  let ds := cs.take n
  if ds.length < n then none
  else ds.foldlM (fun m c => (hexDigit? c).map (m * 16 + ·)) 0

def hexChar? (n : Nat) (cs : List Char) : Option Char := do
  let m ← hexNumber? n cs
  if m < 0xD800 || (0xDFFF < m && m ≤ 0x10FFFF) then some (Char.ofNat m) else none

end TypedClient.Text
