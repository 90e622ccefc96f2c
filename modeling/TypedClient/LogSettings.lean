import TypedClient.Text.Blank

namespace TypedClient

open Text

inductive LogFormat
  | pretty
  | json
deriving DecidableEq, Repr

structure LogSettings where
  level : String := "info"
  format : LogFormat := .pretty
  background : Bool := false
  targets : Option String := none
  location : Bool := false
deriving DecidableEq, Repr

namespace LogSettings

/-- The format of a name in any letter case; any other name is the pretty one. -/
def formatOf (name : String) : LogFormat :=
  if lower name = "json" then .json else .pretty

def flag? : String → Option Bool
  | "true" => some true
  | "false" => some false
  | _ => none

def ofEnvironment (lookup : String → Option String) : LogSettings :=
  { level := (lookup "CLIENTGEN_LOG_LEVEL").getD "info"
    format := ((lookup "CLIENTGEN_LOG_FORMAT").map formatOf).getD .pretty
    background := ((lookup "CLIENTGEN_LOG_ASYNC").bind flag?).getD false
    targets := (lookup "CLIENTGEN_LOG_TARGETS").filter fun s => !isBlankText s
    location := ((lookup "CLIENTGEN_LOG_INCLUDE_LOCATION").bind flag?).getD false }

def development : LogSettings :=
  { level := "debug", location := true }

/-- The level of a name in any letter case; any other name is the middle one. -/
def levelOf (name : String) : String :=
  let name := lower name
  if ["trace", "debug", "warn", "error"].contains name then name else "info"

structure Directive where
  target : String
  level : String
deriving DecidableEq, Repr

def levelDigits : List (String × String) :=
  [("0", "off"), ("1", "error"), ("2", "warn"), ("3", "info"), ("4", "debug"), ("5", "trace")]

/-- The level that a directive states, by its digit or by its name in any letter case. -/
def statedLevel (s : String) : String :=
  (levelDigits.lookup s).getD (lower s)

def Directive.ofText (s : String) : Directive :=
  match pieces '=' s with
  | target :: level :: _ => ⟨target, statedLevel level⟩
  | _ => ⟨s, "trace"⟩

/-- Sets a directive; the last one for a target counts. -/
def setDirective (ds : List Directive) (d : Directive) : List Directive :=
  ds.filter (fun e => e.target ≠ d.target) ++ [d]

/-- The directives of the settings, those with longer targets first. -/
def directives (s : LogSettings) : List Directive :=
  let texts := ((pieces ',' (s.targets.getD "")).map trimBlank).filter (· ≠ "")
  ((texts.map Directive.ofText).foldl setDirective []).mergeSort fun a b =>
    b.target.utf8ByteSize ≤ a.target.utf8ByteSize

/-- The filter of the settings as a text: the directives and then the level of all else. -/
def filterText (s : LogSettings) : String :=
  ",".intercalate (s.directives.map (fun d => d.target ++ "=" ++ d.level) ++ [levelOf s.level])

end LogSettings

end TypedClient
