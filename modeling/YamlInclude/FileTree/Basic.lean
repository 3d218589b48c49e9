import YamlInclude.Path.Basic
import YamlInclude.Text.Utf8

/-! # File trees

A tree of directories with files and symbolic links in them. The entries of a directory are in the
order of their names. Each file is at one place: there are no hard links. Nor are there owners, permissions
other than that to run a file, devices and pipes, or a limit on what the tree holds.
-/

namespace YamlInclude

abbrev Name := List Char

inductive Content where
  | text (s : String)
  | binary (bytes : List UInt8)
  deriving DecidableEq, Repr

namespace Content

def ofBytes (bytes : List UInt8) : Content :=
  match Utf8.decode? bytes with
  | some cs => text (String.ofList cs)
  | none => binary bytes

/-- The text of a content, with a replacement character for each malformed sequence. -/
def lossyText : Content → String
  | text s => s
  | binary bytes => String.ofList (Utf8.decodeLossy bytes)

end Content

inductive Entry where
  | file (content : Content) (executable : Bool)
  | link (target : Path)
  | directory (entries : List (Name × Entry))

/-- The names that lead from the root of a tree to an entry. -/
abbrev Location := List Name

def Location.path (l : Location) : Path := Path.ofSegments true l

namespace Entry

def setIn (name : Name) (new : Option Entry) : List (Name × Entry) → List (Name × Entry)
  | [] => (new.map fun e => (name, e)).toList
  | (n, e) :: rest =>
    if n = name then (new.map fun e => (name, e)).toList ++ rest
    else if name < n then (new.map fun e => (name, e)).toList ++ (n, e) :: rest
    else (n, e) :: setIn name new rest

/-- The entry at a location below this one. -/
def at? : Location → Entry → Option Entry
  | [], e => some e
  | n :: rest, directory es => (es.lookup n).bind (at? rest)
  | _ :: _, _ => none

/-- The entry with the one at a location below it replaced or taken out. The directory of that
location has to be there. -/
def setAt (new : Option Entry) : Location → Entry → Entry
  | [], e => new.getD e
  | [n], directory es => directory (setIn n new es)
  | n :: rest, directory es =>
    match es.lookup n with
    | some e => directory (setIn n (some (setAt new rest e)) es)
    | none => directory es
  | _ :: _, e => e

mutual

/-- The files below an entry that is at a location, with their contents. -/
def files (here : Location) : Entry → List (Location × Content)
  | file c _ => [(here, c)]
  | link _ => []
  | directory es => filesOf here es

def filesOf (here : Location) : List (Name × Entry) → List (Location × Content)
  | [] => []
  | (n, e) :: es => files (here ++ [n]) e ++ filesOf here es

end

mutual

def linkCount : Entry → Nat
  | file _ _ => 0
  | link _ => 1
  | directory es => linkCountOf es

def linkCountOf : List (Name × Entry) → Nat
  | [] => 0
  | (_, e) :: es => linkCount e + linkCountOf es

end

end Entry

/-- A tree, given by the entries of its root. -/
structure FileTree where
  entries : List (Name × Entry)

namespace FileTree

def empty : FileTree := ⟨[]⟩

def root (t : FileTree) : Entry := .directory t.entries

def at? (t : FileTree) (l : Location) : Option Entry := t.root.at? l

/-- The tree with the entry at a location replaced or taken out; the root stays. -/
def setAt (t : FileTree) (l : Location) (new : Option Entry) : FileTree :=
  match l, t.root.setAt new l with
  | _ :: _, .directory es => ⟨es⟩
  | _, _ => t

def files (t : FileTree) : List (Location × Content) := Entry.filesOf [] t.entries

def contentAt? (t : FileTree) (l : Location) : Option Content :=
  match t.at? l with
  | some (.file c _) => some c
  | _ => none

/-- Puts an entry at a location. Whatever stands in the way of its directories gives way to them. -/
def plant (t : FileTree) (l : Location) (new : Entry) : FileTree := go l.length t
where
  /-- Makes the directories of all but the last `n` names first. -/
  go : Nat → FileTree → FileTree
    | 0, t => t.setAt l (some new)
    | n + 1, t =>
      let above := l.take (l.length - n - 1)
      match t.at? above with
      | some (.directory _) => go n t
      | _ => go n (t.setAt above (some (.directory [])))

end FileTree

end YamlInclude
