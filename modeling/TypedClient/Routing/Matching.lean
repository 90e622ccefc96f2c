import TypedClient.Routing.Pattern

namespace TypedClient.Routing

/-- What the parameters of some tokens take, in order; a parameter may take no part. -/
abbrev Captures := List (Option String)

/-- What tokens take from each place of a text on, from its beginning to its end; none where they do
not match. -/
abbrev Answers := List (Option Captures)

def Answers.first? (as : Answers) : Option Captures :=
  as.head?.join

/-- The longest beginning of a text with characters of class `p` alone, behind which there is an
answer; and that answer. -/
def longest? (p : Char → Bool) : List Char → Answers → Option (List Char × Captures)
  | [], as => as.first?.map fun r => ([], r)
  | c :: cs, as =>
    (if p c then (longest? p cs as.tail).map fun r => (c :: r.1, r.2) else none) <|>
      as.first?.map fun r => ([], r)

namespace Token

def inSegment (c : Char) : Bool := c ≠ '/'

def inRest (c : Char) : Bool := c ≠ '\n'

def isOptional : Token → Bool
  | literal _ => false
  | param _ => false
  | optional _ => true
  | rest => true

/-- What a parameter takes, before what the tokens behind it take. -/
def capture (r : List Char × Captures) : Captures :=
  some (String.ofList r.1) :: r.2

def segment? : List Char → Answers → Option (List Char × Captures)
  | [], _ => none
  | c :: cs, as =>
    if inSegment c then (longest? inSegment cs as.tail).map fun r => (c :: r.1, r.2) else none

/-- The answer of a token behind a slash, from the answers of the tokens behind it. -/
def behindSlash? (cs : List Char) (as : Answers) : Token → Option Captures
  | literal s => if s.toList.isPrefixOf cs then Answers.first? (as.drop s.length) else none
  | param _ => (segment? cs as).map capture
  | optional _ => (segment? cs as).map capture
  | rest => (longest? inRest cs as).map capture

def present? (t : Token) : List Char → Answers → Option Captures
  | '/' :: cs, as => t.behindSlash? cs as.tail
  | _, _ => none

def absent? (t : Token) (as : Answers) : Option Captures :=
  if t.isOptional then as.first?.map fun r => none :: r else none

/-- The answer of a token, from the answers of the tokens behind it. -/
def answer? (t : Token) (cs : List Char) (as : Answers) : Option Captures :=
  t.present? cs as <|> t.absent? as

def answers (t : Token) : List Char → Answers → Answers
  | [], as => [t.answer? [] as]
  | c :: cs, as => t.answer? (c :: cs) as :: t.answers cs as.tail

end Token

def endAnswers : List Char → Answers
  | [] => [some []]
  | _ :: cs => none :: endAnswers cs

def answers : List Token → List Char → Answers
  | [], cs => endAnswers cs
  | t :: ts, cs => t.answers cs (answers ts cs)

theorem answers_tail (ts : List Token) (c : Char) (cs : List Char) :
    (answers ts (c :: cs)).tail = answers ts cs := by
  induction ts with
  | nil => rfl
  | cons t ts ih => simp only [answers, Token.answers, List.tail_cons, ih]

theorem answers_drop (ts : List Token) (w cs : List Char) :
    (answers ts (w ++ cs)).drop w.length = answers ts cs := by
  induction w with
  | nil => rfl
  | cons c w ih => rw [List.cons_append, List.length_cons, ← List.drop_tail, answers_tail, ih]

theorem first?_answers_cons (t : Token) (ts : List Token) (cs : List Char) :
    (answers (t :: ts) cs).first? = t.answer? cs (answers ts cs) := by
  cases cs <;> rfl

/-- What each parameter of a pattern takes of a location. A pattern without tokens is the root. -/
def Pattern.captures? (pattern location : String) : Option Captures :=
  match tokens pattern with
  | [] => if location = "/" then some [] else none
  | ts => (answers ts location.toList).first?

end TypedClient.Routing
