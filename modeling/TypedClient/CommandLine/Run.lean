import TypedClient.Client.Generation
import TypedClient.CommandLine.Command
import TypedClient.CommandLine.Report
import TypedClient.Document.Loading
import TypedClient.Routing.Loading
import TypedClient.Routing.Manifest
import TypedClient.Routing.RouteModule
import TypedClient.Settings.Reading

namespace TypedClient

open FileTree (Writing WriteMode Summary)

namespace Command

inductive Fault
  | settings (fault : Settings.Fault)
  | document (fault : Document.LoadFault)
  | noDirectory (role : String)
  | views (fault : Routing.LoadFault)
  | writing (fault : FileTree.WriteFault)
  | generation (faults : List Entity.Fault)

def Fault.message : Fault → String
  | settings f => f.message
  | document f => f.message
  | noDirectory role => "Invalid " ++ role ++ " directory: "
  | views f => f.message
  | writing f => f.message
  | generation fs =>
    toString fs.length ++ " unit(s) failed to generate: " ++
      "; ".intercalate (fs.map Entity.Fault.message)

abbrev Running := ExceptT Fault (StateM FileTree)

def look (f : FileTree → Except ε α) (fault : ε → Fault) : Running α := do
  MonadExcept.ofExcept ((f (← get)).mapError fault)

def writing (w : Writing α) : Running α :=
  ExceptT.adapt Fault.writing w

def sourceName (path : String) : String :=
  (Path.fileName? path).getD path

def generateClient (schema output : String) (settings : Settings) (mode : WriteMode) :
    Running Summary := do
  let doc ← look (Document.load · schema) .document
  let made := Generation.ofDocument doc settings (sourceName schema)
  let summary ← writing (FileTree.writeFiles mode output {} made.files)
  if made.failures.isEmpty then return summary
  else throw (.generation made.failures)

def routeFiles (t : FileTree) (views output : String) (settings : Settings) :
    Except Routing.LoadFault (Module.File × Module.File) := do
  let tree ← Routing.Tree.collect t settings views
  let root ← Routing.Route.ofTree (Routing.View.load t) tree
  return (Routing.RouteModule.file tree output settings (sourceName views),
    Routing.manifestFile (Routing.manifest [root]) settings)

/-- The absolute path of a directory. The empty path has none. -/
def directory (role path : String) : Running String :=
  look (fun t => if path = "" then .error role else .ok (Path.absolute t.cwdPath path)) .noDirectory

/-- Makes the route module and the manifest of a directory of views. The manifest has no marker, so
writing it is forced. -/
def generateRoutes (views output : String) (settings : Settings) (mode : WriteMode) :
    Running Summary := do
  let views ← directory "views" views
  let output ← directory "output" output
  let (module, manifest) ← look (routeFiles · views output settings) .views
  let summary ← writing (FileTree.writeFiles mode output {} [module])
  writing (FileTree.writeFiles { mode with force := true } output summary [manifest])

def run : Command → Running String
  | generate schema output config mode => do
    let settings ← look (Settings.resolve · config (Path.parent? schema)) .settings
    let summary ← generateClient schema output settings mode
    return summary.report "client" mode.dryRun
  | routes views output config mode => do
    let settings ← look (Settings.resolve · config (some views)) .settings
    let summary ← generateRoutes views output settings mode
    return summary.report "routes" mode.dryRun
  | inspect schema asJson => do
    let doc ← look (Document.load · schema) .document
    let settings ← look (Settings.resolve · none (Path.parent? schema)) .settings
    return if asJson then (doc.describeJson settings).prettyText ++ "\n"
      else doc.describe settings schema

/-- The paths that a command looks at: files, and directories with all they hold. -/
def sources : Command → List String
  | generate schema output config _ =>
    [schema, output] ++ config.toList ++
      ((Path.parent? schema).map fun d => Path.join d Settings.fileName).toList
  | routes views output config _ => [views, output] ++ config.toList
  | inspect schema _ =>
    schema :: ((Path.parent? schema).map fun d => Path.join d Settings.fileName).toList

end Command

end TypedClient
