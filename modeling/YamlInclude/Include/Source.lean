import YamlInclude.Path.Basic
import YamlInclude.FileTree.SystemError

/-! # Sources

Where the text of files comes from.
-/

namespace YamlInclude

inductive ReadFault where
  | absent (path : Path)
  | refused (e : SystemError)
  | notText
  deriving DecidableEq, Repr

namespace ReadFault

def message : ReadFault → String
  | absent p => "no such file: " ++ p.text
  | refused e => e.message
  | notText => "stream did not contain valid UTF-8"

end ReadFault

/-- Read access to files. No more than `extent` different normal paths can be read. -/
structure Source where
  read : Path → Except ReadFault String
  isFile : Path → Bool
  extent : Nat

/-- A finite set of files, looked up by the components of their paths. -/
structure FileSet where
  files : List (Path × String)
  deriving Repr

namespace FileSet

def empty : FileSet := ⟨[]⟩

/-- Gives a path its text, whatever it held before. -/
def insert (s : FileSet) (p : Path) (text : String) : FileSet :=
  ⟨s.files.filter (fun f => !f.1.same p) ++ [(p, text)]⟩

def find? (s : FileSet) (p : Path) : Option String :=
  (s.files.find? fun f => f.1.same p).map (·.2)

def source (s : FileSet) : Source where
  read p := match s.find? p with
    | some text => .ok text
    | none => .error (.absent p)
  isFile p := (s.find? p).isSome
  extent := s.files.length

end FileSet

end YamlInclude
