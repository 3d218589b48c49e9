import YamlInclude.FileTree.Walk
import YamlInclude.Include.Source

/-! # Files of a tree as a source -/

namespace YamlInclude

namespace FileTree

def readText (t : FileTree) (cwd : Location) (p : Path) : Except ReadFault String :=
  match t.find cwd p with
  | .error e => .error (.refused e)
  | .ok (_, .file (.text s) _) => .ok s
  | .ok (_, .file (.binary _) _) => .error .notText
  | .ok _ => .error (.refused .isDirectory)

/-- The files of a tree as seen from a directory. A normal path is known by the links on its way and
the file at its end. -/
def source (t : FileTree) (cwd : Location) : Source where
  read := t.readText cwd
  isFile := t.isFile cwd
  extent := Nat.pow (t.root.linkCount + 1) maxLinks * t.files.length

end FileTree

end YamlInclude
