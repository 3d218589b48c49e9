import YamlInclude.FileTree.Walk

/-! # Changes of a file tree

Operations on paths as seen from a directory. One that is refused leaves the tree as it is.
-/

namespace YamlInclude

namespace FileTree

variable (t : FileTree) (cwd : Location)

/-- Makes a directory whose parent is there. -/
def makeDirectory (p : Path) : Except SystemError FileTree := do
  let l ← t.walk false cwd p
  match t.at? l with
  | some _ => .error .alreadyExists
  | none => .ok (t.setAt l (some (.directory [])))

/-- Makes a directory whose parent is there, unless it is a directory already. -/
def ensureDirectory (p : Path) : Except SystemError FileTree :=
  match t.makeDirectory cwd p with
  | .ok t => .ok t
  | .error e => if t.isDirectory cwd p then .ok t else .error e

/-- The tree after an attempt to make a directory and the `levels` directories above it, and whether
the last one is there now. The directories that were made before a failure stay. -/
def makeDirectoriesWithin (levels : Nat) (t : FileTree) (p : Path) :
    FileTree × Except SystemError Unit :=
  match t.ensureDirectory cwd p with
  | .ok t => (t, .ok ())
  | .error .notFound =>
    match levels, p.parent? with
    | levels + 1, some above =>
      if above.chars.isEmpty then (t, .error .notFound)
      else match makeDirectoriesWithin levels t above with
        | (t, .error e) => (t, .error e)
        | (t, .ok ()) =>
          match t.ensureDirectory cwd p with
          | .ok t => (t, .ok ())
          | .error e => (t, .error e)
    | _, _ => (t, .error .notFound)
  | .error e => (t, .error e)

def makeDirectories (p : Path) : FileTree × Except SystemError Unit :=
  makeDirectoriesWithin cwd p.chars.length t p

def endsWithSlash (p : Path) : Bool := p.chars.getLast? == some '/'

/-- Whether the last part of a path is a name. -/
def endsWithName (p : Path) : Bool :=
  match (p.body.filter (!·.isEmpty)).getLast? with
  | some s => s != ['.'] && s != ['.', '.']
  | none => false

/-- Gives a file a text as its content, which makes the file if it is not there. -/
def write (p : Path) (text : String) : Except SystemError FileTree := do
  let l ← t.walk true cwd p
  if endsWithSlash p || !endsWithName p then .error .isDirectory
  else match t.at? l with
    | some (.directory _) => .error .isDirectory
    | some (.file _ executable) => .ok (t.setAt l (some (.file (.text text) executable)))
    | _ => .ok (t.setAt l (some (.file (.text text) false)))

/-- Moves an entry that is no directory to another name, whose file or link goes away. -/
def rename (source target : Path) : Except SystemError FileTree := do
  let l ← t.walk false cwd source
  let m ← t.walk false cwd target
  if !endsWithName source || !endsWithName target then .error .busy
  else match t.at? l with
    | none => .error .notFound
    | some e =>
      if endsWithSlash source || endsWithSlash target then .error .notDirectory
      else match t.at? m with
        | some (.directory _) => .error .isDirectory
        | _ => .ok (if l = m then t else (t.setAt l none).setAt m (some e))

end FileTree

end YamlInclude
