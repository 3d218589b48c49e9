import YamlInclude.Include.Error
import YamlInclude.FileTree.SystemError

/-! # Errors of compilations -/

namespace YamlInclude

inductive CompileError where
  | load (source : Path) (e : LoadError)
  | middleware (source : Path) (message : String)
  | makeDirectory (dir : Path) (e : SystemError)
  | writeTemporary (path : Path) (e : SystemError)
  | rename (source target : Path) (e : SystemError)

namespace CompileError

/-- A message followed by that of its cause; an error that was made of another one repeats it. -/
def causedBy (message : String) (e : LoadError) : String :=
  message ++ ": " ++ e.message ++ match e.cause? with
    | some c => ": " ++ c
    | none => ""

def message : CompileError → String
  | load p e => causedBy ("Failed to compile " ++ p.text) e
  | middleware p m => "Middleware failed for " ++ p.text ++ ": " ++ m
  | makeDirectory d e => "Failed to create directory: " ++ d.text ++ ": " ++ e.message
  | writeTemporary p e => "Failed to write temp file: " ++ p.text ++ ": " ++ e.message
  | rename p q e => "Failed to rename " ++ p.text ++ " to " ++ q.text ++ ": " ++ e.message

end CompileError

end YamlInclude
