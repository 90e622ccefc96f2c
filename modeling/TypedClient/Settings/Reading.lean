import TypedClient.FileTree.Access
import TypedClient.Settings.Basic
import TypedClient.Settings.Entries

namespace TypedClient.Settings

def set? (s : Settings) (key : String) : Value → Option Settings
  | .text v => match key with
    | "client_module" => some { s with clientModule := v }
    | "form_module" => some { s with formModule := v }
    | "router_module" => some { s with routerModule := v }
    | "model_suffix" => some { s with modelSuffix := v }
    | "endpoint_suffix" => some { s with endpointSuffix := v }
    | "routes_file" => some { s with routesFile := v }
    | "manifest_file" => some { s with manifestFile := v }
    | "redirect_path" => some { s with redirectPath := v }
    | _ => none
  | .texts vs => if key = "view_extensions" then some { s with viewExtensions := vs } else none

def ofEntries? (entries : List (String × Value)) : Option Settings :=
  if (entries.map Prod.fst).Nodup then
    entries.foldlM (fun s e => s.set? e.1 e.2) {}
  else none

def parse? (file : String) : Option Settings :=
  (entries? file).bind ofEntries?

inductive Fault
  | missing (path : String)
  | unreadable (path : String)
  | malformed (path : String)
deriving DecidableEq, Repr

def Fault.message : Fault → String
  | missing p => "Config file not found: " ++ p
  | unreadable p => "Failed to read config: " ++ p
  | malformed p => "Failed to parse config: " ++ p

def load (t : FileTree) (path : String) : Except Fault Settings :=
  match t.readText? path with
  | none => .error (.unreadable path)
  | some text => match parse? text with
    | none => .error (.malformed path)
    | some s => .ok s

def fileName : String := "clientgen.toml"

/-- The settings in a file that was asked for, or else in that of a directory; without such a file
the defaults. -/
def resolve (t : FileTree) (explicit directory : Option String) : Except Fault Settings :=
  match explicit with
  | some path => if t.exists? path then load t path else .error (.missing path)
  | none =>
    match (directory.map fun d => Path.join d fileName).filter t.exists? with
    | some path => load t path
    | none => .ok {}

end TypedClient.Settings
