import TypedClient.Text.Split

namespace TypedClient.CommandLine

inductive UsageFault
  | help
  | version
  | noCommand
  | unknownCommand
  | missingOption
  | unknownOption
  | badValue
  | repeatedOption
  | unexpectedValue
deriving DecidableEq, Repr

def UsageFault.message : UsageFault → String
  | help => "Usage: clientgen <generate|routes|inspect> [OPTIONS]"
  | version => "clientgen 0.1.0-alpha.1"
  | noCommand => "Usage: clientgen <generate|routes|inspect> [OPTIONS]"
  | unknownCommand => "error: unrecognized subcommand"
  | missingOption => "error: a required option is missing"
  | unknownOption => "error: unexpected argument"
  | badValue => "error: a value is missing or not allowed"
  | repeatedOption => "error: an option is given twice"
  | unexpectedValue => "error: a value is given to an option without one"

def UsageFault.isAnswer (f : UsageFault) : Bool :=
  f = help || f = version

inductive OptionKind
  | help
  | version
  | switch
  | path
  | choice (words : List String)
deriving DecidableEq, Repr

structure OptionForm where
  name : String
  letter : Option Char := none
  kind : OptionKind
  required : Bool := false
deriving DecidableEq, Repr

namespace OptionForm

def takesValue (o : OptionForm) : Bool :=
  match o.kind with
  | .path => true
  | .choice _ => true
  | _ => false

def accepts (o : OptionForm) (value : String) : Bool :=
  match o.kind with
  | .path => value ≠ ""
  | .choice words => words.contains value
  | _ => true

end OptionForm

abbrev Given := List (String × String)

structure Reading where
  given : Given := []
  /-- The option that was read last and not settled, with its value if that was read. -/
  pending : Option (OptionForm × Option String) := none

namespace Reading

def add (r : Reading) (o : OptionForm) (value : String) : Except UsageFault Reading :=
  if (r.given.lookup o.name).isSome then .error .repeatedOption
  else if o.accepts value then .ok { given := r.given ++ [(o.name, value)] }
  else .error .badValue

def settle (r : Reading) : Except UsageFault Reading :=
  match r.pending with
  | none => .ok r
  | some (_, none) => .error .badValue
  | some (o, some value) => r.add o value

def take (r : Reading) (o : OptionForm) (value : String) : Except UsageFault Reading := do
  let r ← r.settle
  match o.kind with
  | .help => throw .help
  | .version => throw .version
  | _ => r.add o value

def await (r : Reading) (o : OptionForm) : Except UsageFault Reading := do
  let r ← r.settle
  return { r with pending := some (o, none) }

/-- Takes the options that letters behind a dash name. What follows the letter of an option with a
value is that value, perhaps behind an equals sign. -/
def takeLetters (forms : List OptionForm) (r : Reading) : List Char → Except UsageFault Reading
  | [] => .ok r
  | c :: cs => match forms.find? fun o => o.letter = some c with
    | none => .error .unknownOption
    | some o =>
      if o.takesValue then
        match cs with
        | [] => r.await o
        | '=' :: value => r.take o (String.ofList value)
        | value => r.take o (String.ofList value)
      else do takeLetters forms (← r.take o "") cs

def takeWord (forms : List OptionForm) (r : Reading) (word : List Char) :
    Except UsageFault Reading :=
  match forms.find? (fun o => o.name = String.ofList (word.takeWhile (· ≠ '='))),
      word.dropWhile (· ≠ '=') with
  | none, _ => .error .unknownOption
  | some o, _ :: value =>
    if o.takesValue then r.take o (String.ofList value) else .error .unexpectedValue
  | some o, [] => if o.takesValue then r.await o else r.take o ""

def takeValue (r : Reading) (value : String) : Except UsageFault Reading :=
  match r.pending with
  | some (o, none) => .ok { r with pending := some (o, some value) }
  | _ => .error .unknownOption

/-- Takes the arguments of a command. Nothing may follow two dashes alone. -/
def takeAll (forms : List OptionForm) (r : Reading) : List String → Except UsageFault Reading
  | [] => r.settle
  | arg :: args => match arg.toList with
    | ['-', '-'] => if args.isEmpty then r.settle else .error .unknownOption
    | '-' :: '-' :: word => do takeAll forms (← r.takeWord forms word) args
    | '-' :: c :: cs => do takeAll forms (← r.takeLetters forms (c :: cs)) args
    | _ => do takeAll forms (← r.takeValue arg) args

end Reading

def Reading.takeDefault (forms : List OptionForm) (r : Reading) (d : String × String) :
    Except UsageFault Reading :=
  match forms.find? fun o => o.name = d.1 with
  | some o => if (r.given.lookup o.name).isSome then .ok r else r.add o d.2
  | none => .ok r

/-- The options that arguments give, or else the environment; those that are required have to be
among them. -/
def readOptions (forms : List OptionForm) (defaults : Given) (args : List String) :
    Except UsageFault Given := do
  let r ← defaults.foldlM (Reading.takeDefault forms) (← Reading.takeAll forms {} args)
  if forms.all fun o => !o.required || (r.given.lookup o.name).isSome then return r.given
  else throw .missingOption

end TypedClient.CommandLine
