namespace TypedClient.Text

/-- The pieces of `s` between the separators `d`; there is always at least one. -/
def pieces (d : Char) (s : String) : List String :=
  (s.toList.splitOn d).map String.ofList

/-- What stands after the last `d`, or all of `s` when it holds none. -/
def afterLast (d : Char) (s : String) : String :=
  (pieces d s).getLastD s

def afterPrefix? (p s : String) : Option String :=
  (p.toList.isPrefixOf? s.toList).map String.ofList

def beforeSuffix? (p s : String) : Option String :=
  (p.toList.isSuffixOf? s.toList).map String.ofList

def startsWith (p s : String) : Bool :=
  p.toList.isPrefixOf s.toList

def endsWith (p s : String) : Bool :=
  p.toList.isSuffixOf s.toList

def occursIn (p : List Char) : List Char → Bool
  | [] => p.isEmpty
  | c :: s => p.isPrefixOf (c :: s) || occursIn p s

def replaceChar (old new : Char) (s : String) : String :=
  String.ofList (s.toList.map fun c => if c = old then new else c)

def trimStart (p : Char → Bool) (s : List Char) : List Char :=
  s.dropWhile p

def trimEnd (p : Char → Bool) (s : List Char) : List Char :=
  (s.reverse.dropWhile p).reverse

def trim (p : Char → Bool) (s : List Char) : List Char :=
  trimEnd p (trimStart p s)

def byteSize : List Char → Nat
  | [] => 0
  | c :: s => c.utf8Size + byteSize s

@[simp] theorem byteSize_nil : byteSize [] = 0 := rfl

@[simp] theorem byteSize_cons (c : Char) (s : List Char) :
    byteSize (c :: s) = c.utf8Size + byteSize s := rfl

@[simp] theorem byteSize_append (s t : List Char) :
    byteSize (s ++ t) = byteSize s + byteSize t := by
  induction s with
  | nil => simp
  | cons c s ih => simp [ih, Nat.add_assoc]

theorem byteSize_toList (s : String) : byteSize s.toList = s.utf8ByteSize := by
  have h : ∀ cs, (String.ofList cs).utf8ByteSize = byteSize cs := by
    intro cs
    induction cs with
    | nil => rfl
    | cons c cs ih =>
      rw [String.ofList_cons, String.utf8ByteSize_append, String.utf8ByteSize_singleton, ih,
        byteSize_cons]
  rw [← h, String.ofList_toList]

def copies (n : Nat) (s : String) : String :=
  String.join (List.replicate n s)

def isLetter (c : Char) : Bool :=
  c.isAlpha

def isDigit (c : Char) : Bool :=
  c.isDigit

def isLetterOrDigit (c : Char) : Bool :=
  isLetter c || isDigit c

def lower (s : String) : String :=
  String.ofList (s.toList.map Char.toLower)

def upper (s : String) : String :=
  String.ofList (s.toList.map Char.toUpper)

end TypedClient.Text
