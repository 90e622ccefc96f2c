import TypedClient.FileTree.Access
import TypedClient.Module.Draft

namespace TypedClient.FileTree

structure WriteMode where
  force : Bool := false
  dryRun : Bool := false
deriving DecidableEq, Repr

inductive Outcome
  | written
  | unchanged
  | skipped
  | planned
deriving DecidableEq, Repr

inductive WriteFault
  | unreadable (path : String)
  | noDirectory (path : String)
  | unwritable (path : String)
deriving DecidableEq, Repr

def WriteFault.message : WriteFault → String
  | unreadable p => "Failed to read existing file: " ++ p
  | noDirectory p => "Failed to create directory: " ++ p
  | unwritable p => "Failed to write file: " ++ p

abbrev Writing := ExceptT WriteFault (StateM FileTree)

/-- Whether a text has the marker of generated modules. -/
def isGenerated (s : String) : Bool :=
  Text.occursIn Module.marker.toList s.toList

/-- What becomes of a file without writing it, if that is settled by what is there. -/
def settled? (t : FileTree) (mode : WriteMode) (path contents : String) :
    Except WriteFault (Option Outcome) :=
  if t.exists? path then
    match t.readText? path with
    | none => .error (.unreadable path)
    | some old =>
      if old = contents then .ok (some .unchanged)
      else if !isGenerated old && !mode.force then .ok (some .skipped)
      else .ok none
  else .ok none

def makeParent (path : String) : Writing Unit := do
  match Path.parent? path with
  | none => return
  | some p =>
    let (t, ok) := (← get).makeDirectories p
    set t
    if ok then return else throw (.noDirectory p)

def writeFile (mode : WriteMode) (path contents : String) : Writing Outcome := do
  match ← MonadExcept.ofExcept (settled? (← get) mode path contents) with
  | some o => return o
  | none =>
    if mode.dryRun then return .planned
    makeParent path
    match (← get).write? path (.text contents) with
    | none => throw (.unwritable path)
    | some t =>
      set t
      return .written

structure Summary where
  written : List String := []
  unchanged : List String := []
  skipped : List String := []
  planned : List String := []
deriving DecidableEq, Repr, Inhabited

def Summary.add (s : Summary) (path : String) : Outcome → Summary
  | .written => { s with written := s.written ++ [path] }
  | .unchanged => { s with unchanged := s.unchanged ++ [path] }
  | .skipped => { s with skipped := s.skipped ++ [path] }
  | .planned => { s with planned := s.planned ++ [path] }

def Summary.total (s : Summary) : Nat :=
  s.written.length + s.unchanged.length + s.skipped.length + s.planned.length

def writeFiles (mode : WriteMode) (root : String) : Summary → List Module.File → Writing Summary
  | s, [] => return s
  | s, f :: fs => do
    let path := Path.join root f.path
    let o ← writeFile mode path f.contents
    writeFiles mode root (s.add path o) fs

end TypedClient.FileTree
