import TypedClient.Text.Utf8

namespace TypedClient

inductive Contents
  | text (s : String)
  | bytes (bs : List UInt8)
deriving DecidableEq, Repr

def Contents.ofBytes (bs : List UInt8) : Contents :=
  match Text.ofBytes? bs with
  | some s => text s
  | none => bytes bs

def Contents.text? : Contents → Option String
  | text s => some s
  | bytes _ => none

namespace FileTree

abbrev Name := List String

inductive Node
  | file (contents : Contents)
  | directory
  | link (target : String)
deriving DecidableEq, Repr

def Node.contents? : Node → Option Contents
  | file c => some c
  | _ => none

end FileTree

structure FileTree where
  cwd : FileTree.Name := []
  entries : List (FileTree.Name × FileTree.Node) := []
deriving DecidableEq, Repr, Inhabited

namespace FileTree

def node? (t : FileTree) : Name → Option Node
  | [] => some .directory
  | n => t.entries.lookup n

def setEntry (n : Name) (x : Node) : List (Name × Node) → List (Name × Node)
  | [] => [(n, x)]
  | e :: es => if e.1 = n then (n, x) :: es else e :: setEntry n x es

def insert (t : FileTree) (n : Name) (x : Node) : FileTree :=
  { t with entries := setEntry n x t.entries }

def erase (t : FileTree) (n : Name) : FileTree :=
  { t with entries := t.entries.filter fun e => e.1 ≠ n }

theorem lookup_setEntry (n m : Name) (x : Node) (es : List (Name × Node)) :
    (setEntry n x es).lookup m = if m = n then some x else es.lookup m := by
  induction es with
  | nil =>
    by_cases h : m = n
    · simp [setEntry, h]
    · have hb : (m == n) = false := by simpa using h
      simp [setEntry, List.lookup_cons, h, hb]
  | cons e es ih =>
    obtain ⟨k, y⟩ := e
    by_cases hm : m = k
    · subst hm
      by_cases h : m = n <;> simp [setEntry, h]
    · have hb : (m == k) = false := by simpa using hm
      by_cases hk : k = n
      · subst hk
        simp [setEntry, List.lookup_cons, hm, hb]
      · simp [setEntry, List.lookup_cons, hk, hb, ih]

theorem node?_insert (t : FileTree) {n : Name} (hn : n ≠ []) (m : Name) (x : Node) :
    (t.insert n x).node? m = if m = n then some x else t.node? m := by
  cases m with
  | nil => simp [node?, Ne.symm hn]
  | cons s m => simpa [node?, insert] using lookup_setEntry n (s :: m) x t.entries

def stepsIn (t : FileTree) (n : Name) : List String :=
  (t.entries.filterMap fun e => if e.1.dropLast = n then e.1.getLast? else none).mergeSort
    fun a b => decide (a ≤ b)

end FileTree

end TypedClient
