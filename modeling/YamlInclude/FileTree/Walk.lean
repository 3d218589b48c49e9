import YamlInclude.FileTree.Basic
import YamlInclude.FileTree.SystemError

/-! # Walks

How a path leads to an entry. Every name but the last one has to be that of a directory, or of a link
to one. The last name need not exist, and at most 40 links are followed.
-/

namespace YamlInclude

namespace FileTree

/-- The longest name, in bytes. -/
def maxName : Nat := 255

/-- The longest path, in bytes. -/
def maxPath : Nat := 4095

/-- The most links in one walk. -/
def maxLinks : Nat := 40

def byteCount (cs : List Char) : Nat := (Utf8.encode cs).length

/-- Goes on from a directory along segments. At a link the walk goes on as `follow` says; the last
name is not followed unless `followLast`. -/
def walkFrom (t : FileTree) (followLast : Bool)
    (follow : Location → Path → List Name → Except SystemError Location) :
    List Name → Location → Except SystemError Location
  | [], here => .ok here
  | s :: rest, here =>
    match t.at? here with
    | none => .error .notFound
    | some (.directory es) =>
      if Path.isVoid s then walkFrom t followLast follow rest here
      else if s = ['.', '.'] then walkFrom t followLast follow rest here.dropLast
      else if maxName < byteCount s then .error .nameTooLong
      else match es.lookup s with
        | none => if rest.all List.isEmpty then .ok (here ++ [s]) else .error .notFound
        | some (.link target) =>
          if rest.isEmpty && !followLast then .ok (here ++ [s]) else follow here target rest
        | some _ => walkFrom t followLast follow rest (here ++ [s])
    | some _ => .error .notDirectory

def walkWithin (t : FileTree) (followLast : Bool) : Nat → List Name → Location →
    Except SystemError Location
  | 0 => walkFrom t followLast fun _ _ _ => .error .tooManyLinks
  | links + 1 => walkFrom t followLast fun here target rest =>
    walkWithin t followLast links (target.body ++ rest) (if target.isAbsolute then [] else here)

/-- Where a path leads as seen from a directory. The directory of the result is there. -/
def walk (t : FileTree) (followLast : Bool) (cwd : Location) (p : Path) : Except SystemError Location :=
  if p.chars.isEmpty then .error .notFound
  else if p.chars.contains (Char.ofNat 0) then .error .nulInPath
  else if maxPath < byteCount p.chars then .error .nameTooLong
  else walkWithin t followLast maxLinks p.body (if p.isAbsolute then [] else cwd)

/-- The entry that a path leads to, with links followed, and where it is. -/
def find (t : FileTree) (cwd : Location) (p : Path) : Except SystemError (Location × Entry) := do
  let l ← t.walk true cwd p
  match t.at? l with
  | some e => .ok (l, e)
  | none => .error .notFound

def isFile (t : FileTree) (cwd : Location) (p : Path) : Bool :=
  match t.find cwd p with
  | .ok (_, .file ..) => true
  | _ => false

def isDirectory (t : FileTree) (cwd : Location) (p : Path) : Bool :=
  match t.find cwd p with
  | .ok (_, .directory _) => true
  | _ => false

def isPresent (t : FileTree) (cwd : Location) (p : Path) : Bool :=
  match t.find cwd p with
  | .ok _ => true
  | .error _ => false

end FileTree

end YamlInclude
