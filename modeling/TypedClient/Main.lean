import TypedClient.CommandLine.Run

namespace TypedClient.Main

open FileTree (Name Node)

def attempt? (act : IO α) : IO (Option α) :=
  try some <$> act catch _ => return none

def kind? (n : Name) : IO (Option IO.FS.FileType) := do
  let path := (← IO.currentDir) / FileTree.namePath n
  attempt? ((·.type) <$> path.symlinkMetadata)

def target? (n : Name) : IO (Option Name) := do
  let path ← attempt? (IO.FS.realPath (FileTree.namePath n))
  return path.map fun p => FileTree.steps p.toString

def addFile (t : FileTree) (n : Name) : IO FileTree := do
  let bytes ← attempt? (IO.FS.readBinFile (FileTree.namePath n))
  return t.insert n (.file (.ofBytes ((bytes.getD .empty).toList)))

def addAncestors (t : FileTree) (n : Name) : FileTree :=
  ((List.range n.length).drop 1).foldl (fun t k => t.insert (n.take k) .directory) t

def addLink (t : FileTree) (n : Name) : IO FileTree := do
  match ← target? n with
  | none => return t.insert n (.link (FileTree.namePath n))
  | some m =>
    let t := (addAncestors t m).insert n (.link (FileTree.namePath m))
    match ← kind? m with
    | some .file => addFile t m
    | some .dir => return t.insert m .directory
    | _ => return t

/-- Adds what stands under a name, and all that a directory holds. -/
partial def addAll (t : FileTree) (n : Name) : IO FileTree := do
  match ← kind? n with
  | some .dir =>
    let path := (← IO.currentDir) / FileTree.namePath n
    let mut t := t.insert n .directory
    for e in (← attempt? path.readDir).getD #[] do
      t ← addAll t (n ++ [e.fileName])
    return t
  | some .symlink => addLink t n
  | some _ => addFile t n
  | none => return t

/-- Adds what steps from a directory lead to. -/
partial def addWay (t : FileTree) (here : Name) : List String → IO FileTree
  | [] => if here.isEmpty then return t else addAll t here
  | step :: rest => do
    if step = "." then addWay t here rest
    else if step = ".." then addWay t here.dropLast rest
    else
      let n := here ++ [step]
      match ← kind? n with
      | none => return t
      | some .dir => addWay (t.insert n .directory) n rest
      | some .symlink => addWay (← addLink t n) ((← target? n).getD here) rest
      | some _ => addFile t n

def load (paths : List String) : IO FileTree := do
  let cwd := FileTree.steps (← IO.FS.realPath (← IO.currentDir)).toString
  let t := (addAncestors { cwd } cwd).insert cwd .directory
  paths.foldlM (fun t p => addWay t (FileTree.origin cwd p) (FileTree.steps p)) t

def store (e : Name × Node) : IO Unit :=
  let path := FileTree.namePath e.1
  match e.2 with
  | .directory => IO.FS.createDirAll path
  | .file (.text s) => IO.FS.writeFile path s
  | .file (.bytes bs) => IO.FS.writeBinFile path bs.toByteArray
  | .link _ => return

def execute (command : Command) : IO UInt32 := do
  let old ← load command.sources
  let (result, t) := (command.run.run).run old
  (FileTree.newEntries old t).forM store
  match result with
  | .ok out =>
    IO.print out
    return 0
  | .error f =>
    IO.eprintln ("❌ " ++ f.message)
    return 1

end TypedClient.Main

open TypedClient in
def main (args : List String) : IO UInt32 := do
  let config ← IO.getEnv "CLIENTGEN_CONFIG"
  match Command.parse (config.map fun c => ("config", c)).toList args with
  | .ok command => Main.execute command
  | .error f =>
    if f.isAnswer then
      IO.println f.message
      return 0
    else
      IO.eprintln f.message
      return 2
