import TypedClient.Literal.Printer
import TypedClient.Module.Draft
import TypedClient.Routing.Segment
import TypedClient.Routing.Tree
import TypedClient.Settings.Basic

namespace TypedClient.Routing

open TypedClient.Module

/-- Work on the route module; the number is that of the next node in pre-order. -/
abbrev Numbering := StateT Nat Drafting

namespace RouteModule

def specifier (outputDir module : String) : String :=
  Path.relativize outputDir (Path.withExtension module "js")

def importView (outputDir module kind : String) (n : Nat) : Numbering String :=
  (Draft.namespaceImport (specifier outputDir module) (kind ++ toString n) : Drafting String)

def importNode (outputDir : String) (page layout : Option String) (n : Nat) :
    Numbering (List String) :=
  match page, layout with
  | some page, _ => do return [← importView outputDir page "Page" n]
  | none, some layout => do return [← importView outputDir layout "Layout" n]
  | none, none => return []

def indent (depth : Nat) : String :=
  Text.copies depth "  "

def childList (depth : Nat) : List String → List String
  | [] => []
  | calls =>
    ["[\n" ++ indent (depth + 1) ++ (",\n" ++ indent (depth + 1)).intercalate calls ++ "\n" ++
      indent depth ++ "]"]

mutual

def call (outputDir create : String) (depth : Nat) : Tree → Numbering String
  | ⟨segment, page, layout, children⟩ => do
    let n ← modifyGet fun n => (n, n + 1)
    let view ← importNode outputDir page layout n
    let inner ← calls outputDir create (depth + 1) children
    let args := quoted (Segment.toPattern segment) :: view ++ childList depth inner
    return create ++ "(" ++ ", ".intercalate args ++ ")"

def calls (outputDir create : String) (depth : Nat) : List Tree → Numbering (List String)
  | [] => return []
  | t :: ts => do
    let c ← call outputDir create depth t
    let cs ← calls outputDir create depth ts
    return c :: cs

end

def build (tree : Tree) (outputDir : String) (settings : Settings) : Drafting Unit := do
  let create ← Draft.namedImport settings.routerModule "createRoute" false
  let routes ← Draft.reserve "routes"
  let (expression, _) ← (call outputDir create 0 tree).run 0
  Draft.declare ("const " ++ routes ++ " = " ++ expression ++ ";")
  Draft.declare ("export default " ++ routes ++ ";")

def draft (tree : Tree) (outputDir : String) (settings : Settings) (source : String) : Draft :=
  ((build tree outputDir settings).run
    { location := Path.withExtension settings.routesFile "", source }).2

def file (tree : Tree) (outputDir : String) (settings : Settings) (source : String) : File :=
  ⟨settings.routesFile, (draft tree outputDir settings source).contents⟩

end RouteModule

end TypedClient.Routing
