import YamlInclude.Compile.Options
import YamlInclude.Compile.Pair
import YamlInclude.Compile.Write
import YamlInclude.Include.Load
import YamlInclude.FileTree.Source

/-! # Compiling sources

One pair after the other is loaded, changed by the middleware and written. The first failure ends a
batch; what was written before stays.
-/

namespace YamlInclude

inductive CompileEvent where
  | load (e : LoadEvent)
  | skipped (source : Path)
  | wrote (source dest : Path)
  deriving DecidableEq, Repr

/-- What a compilation leaves: the files, the events on the way, and the result. -/
structure Outcome (α : Type) where
  tree : FileTree
  events : List CompileEvent
  result : Except CompileError α

structure CompiledEntry where
  source : Path
  dest : Path
  documents : Nat
  written : Bool
  deriving DecidableEq, Repr

structure BatchReport where
  compiled : List CompiledEntry
  skipped : List Path
  deriving DecidableEq, Repr

namespace BatchReport

def empty : BatchReport := ⟨[], []⟩

def append (r s : BatchReport) : BatchReport := ⟨r.compiled ++ s.compiled, r.skipped ++ s.skipped⟩

end BatchReport

structure Compiler where
  options : CompileOptions
  /-- How loads read the files of a tree. -/
  source : FileTree → Source
  /-- The working directory. -/
  cwd : Location

namespace Compiler

variable (c : Compiler)

/-- A compiler whose loads read the tree itself. -/
def onTree (options : CompileOptions) (cwd : Location) : Compiler :=
  ⟨options, fun t => t.source cwd, cwd⟩

def loader (t : FileTree) : Loader where
  source := c.source t
  tags := c.options.tags.map (· t)
  strictAnchors := c.options.strictAnchors
  rootDir := c.options.rootDir
  cwd := c.cwd.path

/-- Whether a source is a directory or has a name to skip. -/
def shouldSkip (t : FileTree) (source : Path) : Bool :=
  t.isDirectory c.cwd source ||
    match c.options.ignored, source.fileName? with
    | some p, some name => p.isMatch (String.ofList name)
    | _, _ => false

def render (documents : List Yaml.Value) : String :=
  (CompiledFile.combined documents).jsonText c.options.space

/-- What the documents of a pair are compiled to, before the middleware sees it. -/
def compiled (p : FilePair) (documents : List Yaml.Value) : CompiledFile :=
  ⟨p.source, p.written, documents, c.render documents⟩

def finish (p : FilePair) (documents : List Yaml.Value) : Except CompileError CompiledFile :=
  let f := c.compiled p documents
  match c.options.middleware with
  | none => .ok f
  | some m => (m f).mapError (.middleware p.source)

/-- Writes a compiled file. -/
def emit (t : FileTree) (f : CompiledFile) : Outcome CompiledFile :=
  if c.options.disableDest then ⟨t, [], .ok f⟩
  else match t.replace c.cwd f.dest f.json with
    | (t, .error e) => ⟨t, [], .error e⟩
    | (t, .ok ()) => ⟨t, [.wrote f.source f.dest], .ok f⟩

def compileFile (p : FilePair) (t : FileTree) : Outcome (Option CompiledFile) :=
  if c.shouldSkip t p.source then ⟨t, [.skipped p.source], .ok none⟩
  else
    let load := (c.loader t).loadFile p.source
    let events := load.events.map CompileEvent.load
    match load.result with
    | .error e => ⟨t, events, .error (.load p.source e)⟩
    | .ok documents =>
      match c.finish p documents with
      | .error e => ⟨t, events, .error e⟩
      | .ok f =>
        let o := c.emit t f
        ⟨o.tree, events ++ o.events, o.result.map some⟩

/-- What one pair adds to the report. -/
def account (p : FilePair) : Option CompiledFile → BatchReport
  | none => ⟨[], [p.source]⟩
  | some f => ⟨[⟨f.source, f.dest, f.documents.length, !c.options.disableDest⟩], []⟩

/-- Compiles pairs in order up to the first failure. -/
def compileAll : List FilePair → FileTree → Outcome BatchReport
  | [], t => ⟨t, [], .ok .empty⟩
  | p :: ps, t =>
    let o := c.compileFile p t
    match o.result with
    | .error e => ⟨o.tree, o.events, .error e⟩
    | .ok f =>
      let rest := compileAll ps o.tree
      ⟨rest.tree, o.events ++ rest.events, rest.result.map (c.account p f).append⟩

end Compiler

end YamlInclude
