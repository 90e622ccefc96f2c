import TypedClient.CommandLine.Options
import TypedClient.FileTree.Writing

namespace TypedClient

open CommandLine

inductive Command
  | generate (schema output : String) (config : Option String) (mode : FileTree.WriteMode)
  | routes (views output : String) (config : Option String) (mode : FileTree.WriteMode)
  | inspect (schema : String) (asJson : Bool)
deriving DecidableEq, Repr

namespace Command

def helpForm : OptionForm :=
  { name := "help", letter := some 'h', kind := .help }

def schemaForm : OptionForm :=
  { name := "schema", letter := some 's', kind := .path, required := true }

def viewsForm : OptionForm :=
  { name := "views", kind := .path, required := true }

def writingForms : List OptionForm :=
  [{ name := "output", letter := some 'o', kind := .path, required := true },
   { name := "config", letter := some 'c', kind := .path },
   { name := "force", letter := some 'f', kind := .switch },
   { name := "dry-run", kind := .switch },
   helpForm]

def formatForm : OptionForm :=
  { name := "format", kind := .choice ["text", "json"] }

def valueOf (given : Given) (name : String) : String :=
  (given.lookup name).getD ""

def modeOf (given : Given) : FileTree.WriteMode :=
  { force := (given.lookup "force").isSome, dryRun := (given.lookup "dry-run").isSome }

def reader? (name : String) : Option (List OptionForm × (Given → Command)) :=
  match name with
  | "generate" => some (schemaForm :: writingForms, fun g =>
      .generate (valueOf g "schema") (valueOf g "output") (g.lookup "config") (modeOf g))
  | "routes" => some (viewsForm :: writingForms, fun g =>
      .routes (valueOf g "views") (valueOf g "output") (g.lookup "config") (modeOf g))
  | "inspect" => some ([schemaForm, formatForm, helpForm], fun g =>
      .inspect (valueOf g "schema") (valueOf g "format" = "json"))
  | _ => none

def hasHelp (name : String) : Bool :=
  name = "help" || (reader? name).isSome

/-- The fault that comes of asking for help: about nothing, a command, or what is none. -/
def helpFault : List String → UsageFault
  | [] => .help
  | [name] => if hasHelp name then .help else .unknownCommand
  | _ => .unknownCommand

def leadingForms : List OptionForm :=
  [helpForm, { name := "version", letter := some 'V', kind := .version }]

/-- The fault that comes of arguments without a command in front. -/
def leadingFault : List String → UsageFault
  | [] => .noCommand
  | "--" :: [] => .noCommand
  | "--" :: arg :: _ => if hasHelp arg then .unknownOption else .unknownCommand
  | arg :: _ => match Reading.takeAll leadingForms {} [arg] with
    | .error .unknownOption => if Text.startsWith "-" arg && arg ≠ "-" then .unknownOption
      else .unknownCommand
    | .error f => f
    | .ok _ => .noCommand

/-- The command that arguments give. For an option that they do not give the environment may have a
value. -/
def parse (environment : Given) (args : List String) : Except UsageFault Command :=
  match args with
  | "help" :: names => .error (helpFault names)
  | name :: rest => match reader? name with
    | some (forms, read) => (readOptions forms environment rest).map read
    | none => .error (leadingFault args)
  | [] => .error .noCommand

end Command

end TypedClient
