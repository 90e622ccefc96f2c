import TypedClient.Text.Split

namespace TypedClient.Text

def inRanges (ranges : List (Nat × Nat)) (c : Char) : Bool :=
  ranges.any fun r => r.1 ≤ c.toNat && c.toNat ≤ r.2

def blankRanges : List (Nat × Nat) :=
  [(0x9, 0xD), (0x20, 0x20), (0x85, 0x85), (0xA0, 0xA0), (0x1680, 0x1680), (0x2000, 0x200A),
   (0x2028, 0x2029), (0x202F, 0x202F), (0x205F, 0x205F), (0x3000, 0x3000)]

def isBlank (c : Char) : Bool :=
  inRanges blankRanges c

def skipBlank (s : List Char) : List Char :=
  s.dropWhile isBlank

def trimBlank (s : String) : String :=
  String.ofList (trim isBlank s.toList)

def trimBlankEnd (s : String) : String :=
  String.ofList (trimEnd isBlank s.toList)

def isBlankText (s : String) : Bool :=
  s.toList.all isBlank

end TypedClient.Text
