import TypedClient.FileTree.Basic
import TypedClient.Path.Basic

namespace TypedClient.FileTree

inductive Place
  | found (name : Name) (node : Node)
  | vacant (name : Name)
  | missing
  /-- A file stands on the way, links lead on and on, or no file can have such a name. -/
  | blocked
deriving DecidableEq, Repr

inductive Reach
  | place (p : Place)
  | link (directory : Name) (target : String) (rest : List String)
deriving DecidableEq, Repr

def longestStep : Nat := 255

def longestPath : Nat := 4095

/-- Whether a path may name anything: it is not empty nor too long, and no zero byte is in it. -/
def isPath (p : String) : Bool :=
  p ≠ "" && p.utf8ByteSize ≤ longestPath && !p.toList.contains '\x00'

/-- The way along steps from the directory `here`; `follow` says whether a link is followed when it
is the last step. -/
def reach (t : FileTree) (follow : Bool) (here : Name) : List String → Reach
  | [] => .place (.found here .directory)
  | step :: rest =>
    if step = "." then t.reach follow here rest
    else if step = ".." then t.reach follow here.dropLast rest
    else
      let name := here ++ [step]
      match t.node? name with
      | none => .place (if longestStep < step.utf8ByteSize then .blocked
          else if rest = [] then .vacant name else .missing)
      | some .directory => t.reach follow name rest
      | some (.file c) => .place (if rest = [] then .found name (.file c) else .blocked)
      | some (.link target) =>
        if rest = [] ∧ follow = false then .place (.found name (.link target))
        else .link here target rest

/-- The steps of a path. A slash at its end asks for a directory. -/
def steps (p : String) : List String :=
  (Text.pieces '/' p).filter (· ≠ "") ++ if Text.endsWith "/" p then ["."] else []

/-- The directory from which a path is read that stands in the directory `here`. -/
def origin (here : Name) (p : String) : Name :=
  if Path.isAbsolute p then [] else here

def mostLinks : Nat := 40

/-- Where steps from the directory `here` lead when at most `links` links are followed. -/
def walk (t : FileTree) (follow : Bool) : Nat → Name → List String → Place
  | links, here, way => match t.reach follow here way with
    | .place p => p
    | .link directory target rest => match links with
      | 0 => .blocked
      | links + 1 => t.walk follow links (origin directory target) (steps target ++ rest)

def locate (t : FileTree) (follow : Bool) (p : String) : Place :=
  if isPath p then t.walk follow mostLinks (origin t.cwd p) (steps p)
  else if p = "" then .missing else .blocked

end TypedClient.FileTree
