import YamlInclude.Compile.Pair
import YamlInclude.FileTree.Walk

/-! # Collecting sources

A file is a source as it is. A directory stands for the YAML files below it: its entries are visited
in the order of their names, directories as they come, links to directories not at all. Each entry is
reached by its path: a file whose path leads to none is left out, and the first directory that cannot be
opened ends the search.
-/

namespace YamlInclude

inductive CollectError where
  | notFound (input : Path)
  | unreadable (input dir : Path) (e : SystemError)
  deriving DecidableEq, Repr

namespace CollectError

/-- An error that was made of another one repeats it. -/
def message : CollectError → String
  | notFound p => "Source not found: " ++ p.text
  | unreadable p d e =>
    "Failed to read directory: " ++ p.text ++ ": IO error for operation on " ++ d.text ++ ": " ++ e.message ++ ": " ++
      e.message

end CollectError

namespace FileTree

mutual

/-- The YAML files at or below an entry, which a path leads to; `input` is where the search began. -/
def yamlFiles (t : FileTree) (cwd : Location) (input p : Path) : Entry → Except CollectError (List Path)
  | .file .. => .ok (if p.isYamlFile && t.isFile cwd p then [p] else [])
  | .link _ => .ok (if p.isYamlFile && t.isFile cwd p then [p] else [])
  | .directory es =>
    match t.find cwd p with
    | .error e => .error (.unreadable input p e)
    | .ok _ => yamlFilesOf t cwd input p es

def yamlFilesOf (t : FileTree) (cwd : Location) (input p : Path) :
    List (Name × Entry) → Except CollectError (List Path)
  | [] => .ok []
  | (n, e) :: es => do
    let here ← yamlFiles t cwd input (p.child n) e
    let rest ← yamlFilesOf t cwd input p es
    .ok (here ++ rest)

end

def pairsOf (t : FileTree) (cwd : Location) (input : Path) (out : Option Path) :
    Except CollectError (List FilePair) :=
  match t.find cwd input with
  | .ok (_, .directory es) => do
    let sources ← t.yamlFilesOf cwd input input es
    .ok (sources.map fun p => .forSource p (out.map fun o => (input, o)))
  | .ok (_, .file ..) =>
    .ok [.forSource input (out.map fun o => (input.parent?.getD ⟨""⟩, o))]
  | _ => .error (.notFound input)

/-- The pairs of inputs in order, up to the first input that has none. -/
def collectPairs (t : FileTree) (cwd : Location) (out : Option Path) : List Path →
    Except CollectError (List FilePair)
  | [] => .ok []
  | input :: inputs => do
    let ps ← t.pairsOf cwd input out
    let rest ← collectPairs t cwd out inputs
    .ok (ps ++ rest)

end FileTree

end YamlInclude
