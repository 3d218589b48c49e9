import YamlInclude.CommandLine.Invocation
import YamlInclude.Command.Log

/-! # Executions

What a run of the program leaves: the files, an exit code, the output, and the lines of its log with the
failure after them.
-/

namespace YamlInclude

structure Execution where
  tree : FileTree
  code : Nat
  output : String
  log : List String
  failure : Option String

namespace Execution

def logVariable : String := "RUST_LOG"

def settingsOf (t : FileTree) (cwd : Location) (env : Environment) (i : Invocation) :
    Except CommandError Config :=
  match i.config with
  | some p => (Config.withProjectFile t cwd env p).mapError (.settingsFile p)
  | none => (Config.load t cwd env).mapError .config

def outcome (t : FileTree) (cwd : Location) (env : Environment) (i : Invocation) : CommandOutcome String :=
  match settingsOf t cwd env i with
  | .error e => ⟨t, [], .error e⟩
  | .ok c =>
    let o := i.command.run c.settings cwd i.style t
    { o with events := (c.projectFile.map CommandEvent.foundSettings).toList ++ o.events }

def ofInvocation (t : FileTree) (cwd : Location) (env : Environment) (i : Invocation) : Execution :=
  let o := outcome t cwd env i
  let filter := LogFilter.choose (env logVariable) i.verbosity i.style.quiet
  let log := filter.lines (2 ≤ i.verbosity) o.events
  match o.result with
  | .ok output => ⟨o.tree, 0, output, log, none⟩
  | .error e => ⟨o.tree, 1, "", log, some ("Error: " ++ e.message)⟩

/-- What is printed instead of a run. -/
def ofStop (t : FileTree) : UsageStop → Execution
  | .help c => ⟨t, 0, OutputStyle.linesText (Usage.helpLines c), [], none⟩
  | .version c => ⟨t, 0, OutputStyle.linesText [Usage.versionText c], [], none⟩
  | .nothingAsked => ⟨t, 2, "", Usage.helpLines none, none⟩
  | .wrong e => ⟨t, 2, "", [], some ("error: " ++ e.message)⟩

def run (t : FileTree) (cwd : Location) (env : Environment) (args : List String) : Execution :=
  match Invocation.parse env args with
  | .error s => ofStop t s
  | .ok i => ofInvocation t cwd env i

end Execution

end YamlInclude
