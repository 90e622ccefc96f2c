import TypedClient.Routing.Collection
import TypedClient.Routing.View

namespace TypedClient.Routing

inductive LoadFault
  | noDirectory (path : String)
  | unreadable (path : String)
  | view (fault : View.Fault)
deriving DecidableEq, Repr

def LoadFault.message : LoadFault → String
  | noDirectory p => "Views directory not found: " ++ p
  | unreadable p => "Failed to load view module: " ++ p
  | view f => f.message

def View.load (t : FileTree) (path : String) : Except LoadFault View :=
  match t.readText? path with
  | none => .error (.unreadable path)
  | some source => (View.parse path source).mapError .view

def Tree.collect (t : FileTree) (settings : Settings) (dir : String) : Except LoadFault Tree :=
  match Tree.collect? t settings dir with
  | some tree => .ok tree
  | none => .error (.noDirectory dir)

end TypedClient.Routing
