import TypedClient.Text.Split

namespace TypedClient.Path

open Text

inductive Component
  | root
  | here
  | up
  | name (s : String)
deriving DecidableEq, Repr

def isAbsolute (p : String) : Bool :=
  startsWith "/" p

/-- The component that a piece between slashes is, if it counts. -/
def Component.ofPiece? (s : String) : Option Component :=
  if s = "" || s = "." then none else if s = ".." then some .up else some (.name s)

def components (p : String) : List Component :=
  let ps := pieces '/' p
  let inner := ps.filterMap Component.ofPiece?
  if isAbsolute p then .root :: inner
  else if ps.head? = some "." then .here :: inner
  else inner

def same (p q : String) : Bool :=
  components p = components q

/-- The last name of a path, unless it ends in `..` or has none. -/
def fileName? (p : String) : Option String :=
  match (components p).getLast? with
  | some (.name s) => some s
  | _ => none

/-- A file name cut at its last point; one that begins with its only point has no extension. -/
def splitExtension (name : String) : String × Option String :=
  if name = ".." then (name, none)
  else
    let cs := name.toList.reverse
    let extension := (cs.takeWhile (· ≠ '.')).reverse
    match cs.dropWhile (· ≠ '.') with
    | [] => (name, none)
    | [_] => (name, none)
    | _ :: stem => (String.ofList stem.reverse, some (String.ofList extension))

def fileStem? (p : String) : Option String :=
  (fileName? p).map fun n => (splitExtension n).1

def extension? (p : String) : Option String :=
  (fileName? p).bind fun n => (splitExtension n).2

/-- A reversed path without the slashes, and the `.` names behind slashes, it begins with. -/
def dropEmptyNames : List Char → List Char
  | '/' :: cs => dropEmptyNames cs
  | '.' :: '/' :: cs => dropEmptyNames cs
  | cs => cs

/-- The text of a path up to the end of its last component. -/
def upToLast (p : String) : List Char :=
  (dropEmptyNames p.toList.reverse).reverse

/-- The path without its last component, as it is written; none for the root and the empty path. -/
def parent? (p : String) : Option String :=
  match (components p).getLast? with
  | none => none
  | some .root => none
  | some _ =>
    let front := (dropEmptyNames p.toList.reverse).dropWhile (· ≠ '/')
    match dropEmptyNames front with
    | [] => some (if isAbsolute p then "/" else "")
    | cs => some (String.ofList cs.reverse)

/-- The path up to the end of its file stem, with an extension behind it unless that is empty. -/
def setExtension (p extension : String) : String :=
  match fileName? p with
  | none => p
  | some name =>
    let (stem, _) := splitExtension name
    let cut := (upToLast p).take ((upToLast p).length - (name.length - stem.length))
    String.ofList (cut ++ if extension = "" then [] else '.' :: extension.toList)

def withExtension (p extension : String) : String :=
  let cut := match extension? p with
    | none => p
    | some old => String.ofList (p.toList.take (p.length - old.length))
  setExtension cut extension

def join (p q : String) : String :=
  if isAbsolute q then q
  else if p = "" || endsWith "/" p then p ++ q
  else p ++ "/" ++ q

def Component.text : Component → String
  | .root => "/"
  | .here => "."
  | .up => ".."
  | .name s => s

/-- The absolute path that `p` is in the directory `cwd`: empty names and `.` are gone, `..` and a
slash at the end stay. -/
def absolute (cwd p : String) : String :=
  let named := (components p).filter fun c => c ≠ .here
  let start := if isAbsolute p then (if startsWith "//" p && !startsWith "///" p then "//" else "")
    else cwd
  let named := if start = "//" then named.drop 1 else named
  let whole := named.foldl (fun q c => join q c.text) start
  if endsWith "/" p then join whole "" else whole

end TypedClient.Path
