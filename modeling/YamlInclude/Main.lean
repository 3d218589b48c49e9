import YamlInclude.CommandLine.Execution

/-! # The program

The files that a run can see are taken from the disk before it, and those it has changed are put back
after it. A run whose includes, programs or outputs lie in directories that were not taken is repeated
with them.
-/

namespace YamlInclude.Disk

def locationOf (path : String) : Location := (splitChar '/' path.toList).filter (!·.isEmpty)

def place (t : FileTree) (l : Location) (e : Entry) : FileTree :=
  if l.isEmpty || (t.at? l).isSome then t else t.plant l e

/-- A file whose text names an interpreter can be run. -/
def fileOf (bytes : List UInt8) : Entry := .file (.ofBytes bytes) ([35, 33].isPrefixOf bytes)

/-- Adds what is at a path, and what is below it down to a number of levels. -/
partial def take : Nat → FileTree → String → IO FileTree
  | levels, t, path => do
    try
      let real ← IO.FS.realPath path
      let here := locationOf path
      let there := locationOf real.toString
      let t := if here = there then t else place t here (.link there.path)
      match (← real.metadata).type with
      | .dir =>
        let t := place t there (.directory [])
        match levels with
        | 0 => return t
        | n + 1 =>
          let children ← real.readDir
          children.toList.foldlM (fun t c => do
            let child := there.path.child c.fileName.toList
            let isLink := (← IO.FS.realPath child.text).toString != child.text
            take (if isLink then 0 else n) t child.text) t
      | _ => return place t there (fileOf (← IO.FS.readBinFile real).toList)
    catch _ => return t

def depth : Nat := 256

/-- Adds the files at and below a source. -/
def takeSource (t : FileTree) (path : Path) : IO FileTree := do
  try
    let real ← IO.FS.realPath path.text
    take depth (← take 0 t path.text) real.toString
  catch _ => return t

/-- Adds the files beside a path. -/
def takeAround (t : FileTree) (path : Path) : IO FileTree :=
  match path.parent? with
  | some dir => take 1 t dir.text
  | none => return t

def settingsFiles (cwd : Location) (env : Environment) : List Path :=
  (Config.searched cwd).map (fun l => l.path.child Config.projectFileName) ++
    ((Config.globalDirectory env).map fun d => d.child Config.globalFileName).toList

def fileOfEvent : CommandEvent → Option Path
  | .compile (.load (.followed _ target _ _)) => some target
  | .compile (.load (.ranProgram _ program)) => some program
  | .compile (.wrote _ dest) => some dest
  | _ => none

def filesOfRun (t : FileTree) (cwd : Location) (env : Environment) (args : List String) : List Path :=
  match Invocation.parse env args with
  | .error _ => []
  | .ok i => (Execution.outcome t cwd env i).events.filterMap fileOfEvent

/-- Adds the directories that a run is about, until it is about no others. -/
partial def settle (t : FileTree) (cwd : Location) (env : Environment) (args : List String)
    (taken : List Path) : IO FileTree := do
  let dirs := (filesOfRun t cwd env args).filterMap fun p => (p.absolutize cwd.path).parent?
  match dirs.filter (!taken.contains ·) with
  | [] => return t
  | new =>
    let t ← new.foldlM (fun t dir => take 1 t dir.text) t
    settle t cwd env args (taken ++ new)

def write (l : Location) (c : Content) : IO Unit := do
  if let some dir := l.path.parent? then IO.FS.createDirAll dir.text
  match c with
  | .text s => IO.FS.writeBinFile l.path.text s.toUTF8
  | .binary bytes => IO.FS.writeBinFile l.path.text ⟨bytes.toArray⟩

/-- Puts the files that differ to the disk. -/
def put (old new : FileTree) : IO Unit := do
  for (l, c) in new.files do
    if old.contentAt? l != some c then write l c
  for (l, _) in old.files do
    if (new.contentAt? l).isNone then IO.FS.removeFile l.path.text

/-- Runs the program on the disk; the result is its exit code. -/
def run (args : List String) : IO UInt32 := do
  let names := ["HOME", "XDG_CONFIG_HOME", "YAMLC_CONFIG_DIR", Invocation.configVariable, Execution.logVariable]
  let values ← names.mapM fun name => return (name, ← IO.getEnv name)
  let env : Environment := fun name => (values.lookup name).join
  let cwd := locationOf (← IO.currentDir).toString
  let paths := (args ++ (env Invocation.configVariable).toList).map fun a => (Path.mk a).absolutize cwd.path
  let t ← take 0 .empty cwd.path.text
  let t ← (settingsFiles cwd env).foldlM (fun t p => take 0 t p.text) t
  let t ← paths.foldlM (fun t p => do takeSource (← takeAround t p) p) t
  let t ← settle t cwd env args []
  let e := Execution.run t cwd env args
  put t e.tree
  IO.print e.output
  for line in e.log do IO.eprintln line
  if let some f := e.failure then IO.eprintln f
  return UInt32.ofNat e.code

end YamlInclude.Disk

def main (args : List String) : IO UInt32 := YamlInclude.Disk.run args
