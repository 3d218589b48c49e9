import YamlInclude.Compile.Error
import YamlInclude.FileTree.Change

/-! # Writing a file in one step

The text is written to another file in the same directory, which then takes the place of the
destination. So the destination never holds a part of the text.
-/

namespace YamlInclude

/-- The steps by which a text takes the place of a file. -/
inductive WriteStep where
  | prepare
  | writeTemporary
  | rename
  deriving DecidableEq, Repr

namespace FileTree

/-- The file that a text is written to first. -/
def temporary (p : Path) : Path := p.withExtension ['j', 's', 'o', 'n', '.', 't', 'm', 'p']

/-- The directory that has to be there before a file is written, if the path names one. -/
def neededDirectory? (p : Path) : Option Path := p.parent?.filter (!·.chars.isEmpty)

/-- Makes the directory of a file. -/
def prepare (t : FileTree) (cwd : Location) (p : Path) : FileTree × Except CompileError Unit :=
  match neededDirectory? p with
  | none => (t, .ok ())
  | some dir =>
    match t.makeDirectories cwd dir with
    | (t, .ok ()) => (t, .ok ())
    | (t, .error e) => (t, .error (.makeDirectory dir e))

/-- The tree that a change gives, or the one before it with the error that stopped the change. -/
def attempt (t : FileTree) (changed : Except SystemError FileTree) (fault : SystemError → CompileError) :
    FileTree × Except CompileError Unit :=
  match changed with
  | .error e => (t, .error (fault e))
  | .ok t => (t, .ok ())

/-- The tree after a step in the writing of a text to a file, with the error that stopped it if there was one. -/
def writeStep (t : FileTree) (cwd : Location) (p : Path) (text : String) :
    WriteStep → FileTree × Except CompileError Unit
  | .prepare => t.prepare cwd p
  | .writeTemporary => t.attempt (t.write cwd (temporary p) text) (.writeTemporary (temporary p))
  | .rename => t.attempt (t.rename cwd (temporary p) p) (.rename (temporary p) p)

/-- The tree after steps, up to the first one that is stopped. -/
def writeSteps (cwd : Location) (p : Path) (text : String) :
    List WriteStep → FileTree → FileTree × Except CompileError Unit
  | [], t => (t, .ok ())
  | s :: rest, t =>
    match t.writeStep cwd p text s with
    | (t, .error e) => (t, .error e)
    | (t, .ok ()) => writeSteps cwd p text rest t

/-- The tree after a text was written to a file, with the error that stopped it if there was one. A
failure to rename leaves the other file. -/
def replace (t : FileTree) (cwd : Location) (p : Path) (text : String) :
    FileTree × Except CompileError Unit :=
  writeSteps cwd p text [.prepare, .writeTemporary, .rename] t

end FileTree

end YamlInclude
