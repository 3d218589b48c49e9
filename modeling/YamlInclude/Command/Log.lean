import YamlInclude.Command.Basic
import YamlInclude.Text.Category

/-! # Logs

Events become entries of a log, each with a level and the part of the program that it is from. A filter
of directives tells which entries are shown: the directive with the longest matching part decides.
-/

namespace YamlInclude

inductive LogLevel where
  | error | warn | info | debug | trace
  deriving DecidableEq, Repr

namespace LogLevel

def all : List LogLevel := [error, warn, info, debug, trace]

def rank : LogLevel → Nat
  | error => 1
  | warn => 2
  | info => 3
  | debug => 4
  | trace => 5

def name : LogLevel → String
  | error => "ERROR"
  | warn => "WARN"
  | info => "INFO"
  | debug => "DEBUG"
  | trace => "TRACE"

/-- The level of entries when nothing else asks for one. -/
def ofFlags (verbosity : Nat) (quiet : Bool) : LogLevel :=
  match verbosity with
  | 0 => if quiet then error else warn
  | 1 => info
  | 2 => debug
  | _ => trace

/-- A level or `off`, by its name in any letter case or its number. -/
def parse? (cs : List Char) : Option (Option LogLevel) :=
  let text := String.ofList (cs.map Char.toUpper)
  if text = "OFF" ∨ text = "0" then some none
  else (all.find? fun l => text == l.name || text == toString l.rank).map some

end LogLevel

structure LogEntry where
  level : LogLevel
  target : String
  message : String
  fields : List (String × String)
  deriving DecidableEq, Repr

namespace LogEntry

/-- The text of an entry, with the part of the program if that is asked for. -/
def line (withTarget : Bool) (e : LogEntry) : String :=
  e.level.name ++ " " ++ (if withTarget then e.target ++ ": " else "") ++ e.message ++
    String.join (e.fields.map fun (name, value) => " " ++ name ++ "=" ++ value)

def ofLoad : LoadEvent → Option LogEntry
  | .parsed _ => none
  | .followed origin target anchor depth => some
    ⟨.debug, "yamlc::resolve::loader", "Resolving include",
      [("from", origin.text), ("target", target.text), ("anchor", quoted (anchor.getD "")),
        ("depth", toString depth)]⟩
  | .missedAnchor anchor file => some
    ⟨.warn, "yamlc::resolve::loader", "Anchor not found, substituting null",
      [("anchor", quoted anchor), ("file", file.text)]⟩
  | .ranProgram tag program => some
    ⟨.debug, "yamlc::plugin::exec", "Running tag plugin",
      [("tag", quoted tag), ("program", program.text)]⟩

def ofCompile : CompileEvent → Option LogEntry
  | .load e => ofLoad e
  | .skipped source => some ⟨.debug, "yamlc::compile::batch", "Skipping", [("source", source.text)]⟩
  | .wrote source dest => some
    ⟨.info, "yamlc::compile::batch", "Compiled", [("source", source.text), ("dest", dest.text)]⟩

def ofEvent : CommandEvent → Option LogEntry
  | .foundSettings file => some
    ⟨.debug, "yamlc::cli::app", "Loaded project configuration", [("config", file.text)]⟩
  | .collected count => some
    ⟨.debug, "yamlc::cli::compile_cmd", "Collected sources", [("count", toString count)]⟩
  | .compile e => ofCompile e

end LogEntry

/-- The most talkative level that is shown of the parts whose names start with a text, if any is. -/
structure LogDirective where
  target : List Char
  level : Option LogLevel
  deriving DecidableEq, Repr

namespace LogDirective

def isTargetChar (c : Char) : Bool := isWordChar c || c == ':' || c == '-'

/-- A level for all parts, or a part with or without a level. -/
def parse? (cs : List Char) : Option LogDirective :=
  match LogLevel.parse? cs with
  | some l => some ⟨[], l⟩
  | none =>
    let target := cs.takeWhile isTargetChar
    if target.isEmpty then none
    else match cs.drop target.length with
      | [] | ['='] => some ⟨target, some .trace⟩
      | '=' :: level => (LogLevel.parse? level).map (⟨target, ·⟩)
      | _ => none

end LogDirective

abbrev LogFilter := List LogDirective

namespace LogFilter

/-- The directives between commas, if all of them can be read. Without any, errors are shown. -/
def parse? (text : String) : Option LogFilter :=
  match ((splitChar ',' text.toList).filter (!·.isEmpty)).mapM LogDirective.parse? with
  | some [] => some [⟨[], some .error⟩]
  | ds => ds

/-- The directive that decides about a part: the longest one, and of the same length the last one. -/
def deciding? (f : LogFilter) (target : String) : Option LogDirective :=
  f.foldl (fun best d =>
    if !d.target.isPrefixOf target.toList then best
    else match best with
      | some b => if b.target.length ≤ d.target.length then some d else best
      | none => some d) none

def admits (f : LogFilter) (e : LogEntry) : Bool :=
  match (f.deciding? e.target).bind LogDirective.level with
  | some l => e.level.rank ≤ l.rank
  | none => false

/-- The filter that a text asks for, or that of the flags if it cannot be read. -/
def choose (asked : Option String) (verbosity : Nat) (quiet : Bool) : LogFilter :=
  (asked.bind parse?).getD [⟨[], some (.ofFlags verbosity quiet)⟩]

def lines (f : LogFilter) (withTarget : Bool) (events : List CommandEvent) : List String :=
  ((events.filterMap LogEntry.ofEvent).filter f.admits).map (LogEntry.line withTarget)

end LogFilter

end YamlInclude
