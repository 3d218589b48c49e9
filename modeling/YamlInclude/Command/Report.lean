import YamlInclude.Command.Basic

/-! # Reports of commands

A report is one line for each source and a line with their numbers, or one JSON object.
-/

namespace YamlInclude

inductive OutputFormat where
  | text | json
  deriving DecidableEq, Repr

/-- How a command prints. Lines of text are left out if it is quiet. -/
structure OutputStyle where
  format : OutputFormat
  quiet : Bool
  deriving DecidableEq, Repr

namespace CompiledEntry

def toJson (e : CompiledEntry) : Json :=
  .object [("source", .string e.source.text), ("dest", .string e.dest.text),
    ("documents", .ofNat e.documents), ("written", .bool e.written)]

/-- The line of a source, after the word for what was done to it. -/
def line (verb : String) (e : CompiledEntry) : String :=
  verb ++ " " ++ e.source.text ++ if e.written then " -> " ++ e.dest.text else ""

end CompiledEntry

namespace BatchReport

def toJson (r : BatchReport) : Json :=
  .object [("compiled", .array (r.compiled.map CompiledEntry.toJson)),
    ("skipped", .array (r.skipped.map fun p => .string p.text))]

/-- The lines of a report; `done` is the word in the last one. -/
def lines (verb done : String) (r : BatchReport) : List String :=
  r.compiled.map (CompiledEntry.line verb) ++
    [toString r.compiled.length ++ " file(s) " ++ done ++ ", " ++ toString r.skipped.length ++ " skipped"]

end BatchReport

namespace OutputStyle

def linesText (lines : List String) : String := String.join (lines.map (· ++ "\n"))

def report (s : OutputStyle) (verb done : String) (r : BatchReport) : String :=
  match s.format, s.quiet with
  | .json, _ => linesText [r.toJson.compact]
  | .text, true => ""
  | .text, false => linesText (r.lines verb done)

end OutputStyle

namespace Command

/-- Runs a command; the result is what it prints. -/
def run (s : Settings) (cwd : Location) (style : OutputStyle) (c : Command) (t : FileTree) :
    CommandOutcome String :=
  match c with
  | .compile a =>
    let o := runCompile s cwd a t
    ⟨o.tree, o.events, o.result.map (style.report "Compiled" "compiled")⟩
  | .check a =>
    let o := runCheck s cwd a t
    ⟨o.tree, o.events, o.result.map (style.report "Checked" "checked")⟩
  | .resolve a =>
    let o := runResolve s cwd a t
    ⟨o.tree, o.events, o.result.map (· ++ "\n")⟩

end Command

end YamlInclude
