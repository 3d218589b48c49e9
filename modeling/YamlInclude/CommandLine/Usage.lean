import YamlInclude.CommandLine.Flag

/-! # Usage

What is printed instead of running a command: help, the version, or what is wrong with the arguments.
-/

namespace YamlInclude

inductive NaturalFault where
  | empty | notDigit | tooLarge
  deriving DecidableEq, Repr

namespace NaturalFault

def message : NaturalFault → String
  | empty => "cannot parse integer from empty string"
  | notDigit => "invalid digit found in string"
  | tooLarge => "number too large to fit in target type"

end NaturalFault

inductive UsageError where
  | unexpected (arg : String)
  | unknownCommand (arg : String)
  | noCommand
  | unexpectedValue (value : String) (flag : Flag)
  | repeated (flag : Flag)
  | noValue (slot : String)
  | invalidFormat (value : String)
  | invalidNumber (value : String) (flag : Flag) (fault : NaturalFault)
  | missingOperands (command : CommandName)
  deriving DecidableEq, Repr

namespace UsageError

def message : UsageError → String
  | unexpected a => "unexpected argument '" ++ a ++ "' found"
  | unknownCommand a => "unrecognized subcommand '" ++ a ++ "'"
  | noCommand => "'yamlc' requires a subcommand but one was not provided"
  | unexpectedValue v f => "unexpected value '" ++ v ++ "' for '" ++ f.display ++ "' found; no more were expected"
  | repeated f => "the argument '" ++ f.display ++ "' cannot be used multiple times"
  | noValue slot => "a value is required for '" ++ slot ++ "' but none was supplied"
  | invalidFormat v => "invalid value '" ++ v ++ "' for '" ++ Flag.format.display ++ "'\n  [possible values: text, json]"
  | invalidNumber v f e => "invalid value '" ++ v ++ "' for '" ++ f.display ++ "': " ++ e.message
  | missingOperands c => "the following required arguments were not provided:\n  " ++ c.operands

end UsageError

inductive UsageStop where
  | help (command : Option CommandName)
  | version (command : Option CommandName)
  /-- There were no arguments at all. -/
  | nothingAsked
  | wrong (e : UsageError)
  deriving DecidableEq, Repr

namespace Usage

def programVersion : String := "0.1.0"

def versionText : Option CommandName → String
  | none => "yamlc " ++ programVersion
  | some c => "yamlc-" ++ c.text ++ " " ++ programVersion

def about : Option CommandName → String
  | none => "Compile YAML with !include directives into JSON"
  | some .compile => "Compile YAML sources into JSON files"
  | some .check => "Resolve sources and report problems without writing anything"
  | some .resolve => "Print the resolved JSON of a single file"

def table (rows : List (String × String)) : List String :=
  let width := rows.foldl (fun w r => max w r.1.length) 0
  rows.map fun (name, text) => "  " ++ name ++ String.ofList (List.replicate (width - name.length) ' ') ++ "  " ++ text

def flagName (f : Flag) : String :=
  (match f.short? with
    | some c => String.ofList ['-', c, ',', ' ']
    | none => "    ") ++ f.display

def operandsHelp (c : CommandName) : String :=
  match c with
  | .compile => "Source files or directories (directories are searched for .yml/.yaml)"
  | .check => "Source files or directories"
  | .resolve => "Source file"

def commandRows : List (String × String) :=
  CommandName.all.map (fun c => (c.text, about (some c))) ++
    [("help", "Print this message or the help of the given subcommand(s)")]

def helpLines (command : Option CommandName) : List String :=
  let flags := "Options:" :: table ((Flag.known command).map fun f => (flagName f, f.describe))
  match command with
  | none =>
    [about none, "", "Usage: yamlc [OPTIONS] <COMMAND>", "", "Commands:"] ++ table commandRows ++ "" :: flags
  | some c =>
    [about command, "", "Usage: yamlc " ++ c.text ++ " [OPTIONS] " ++ c.operands, "", "Arguments:"] ++
      table [(c.operands, operandsHelp c)] ++ "" :: flags

end Usage

end YamlInclude
