import YamlInclude.CommandLine.Reader

/-! # Invocations

What all arguments together ask for. A flag after the name of the command goes before the same one
ahead of it, and both before the environment.
-/

namespace YamlInclude

structure Invocation where
  style : OutputStyle
  verbosity : Nat
  config : Option Path
  command : Command
  deriving DecidableEq, Repr

namespace Invocation

def configVariable : String := "YAMLC_CONFIG"

/-- What is given before and after a command, and with it. -/
def make (before after : Given) (configuredFile : Option String) (c : Command) : Invocation where
  style := ⟨(after.format <|> before.format).getD .text, before.quiet || after.quiet⟩
  verbosity := if after.verbosity = 0 then before.verbosity else after.verbosity
  config := after.config <|> before.config <|> configuredFile.map Path.mk
  command := c

/-- The command that is asked for by what follows its name, if its operands are there. -/
def commandOf? (name : CommandName) (g : Given) : Option Command :=
  let load : LoadFlags := ⟨g.lenientAnchors, g.rootDir⟩
  match name, g.operands with
  | _, [] => none
  | .compile, sources => some (.compile ⟨sources, g.outDir, g.space, g.ignored, g.noWrite, load⟩)
  | .check, sources => some (.check ⟨sources, g.ignored, load⟩)
  | .resolve, file :: _ => some (.resolve ⟨file, g.space, load⟩)

def parse (env : Environment) (args : List String) : Except UsageStop Invocation := do
  let file := env configVariable
  match ← (Reading.start none).arguments false args with
  | (r, none) =>
    let g ← r.finish file
    .error (if g = .nothing ∧ file.isNone then .nothingAsked else .wrong .noCommand)
  | (r, some (name, rest)) =>
    let (s, _) ← (Reading.start (some name)).arguments false rest
    let after ← s.finish file
    match commandOf? name after with
    | none => .error (.wrong (.missingOperands name))
    | some c => return make (← r.finish file) after file c

end Invocation

end YamlInclude
