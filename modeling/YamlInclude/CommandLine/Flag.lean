import YamlInclude.Command.Report

/-! # Flags

The flags of the command line, and which command knows which of them.
-/

namespace YamlInclude

inductive CommandName where
  | compile | check | resolve
  deriving DecidableEq, Repr

namespace CommandName

def all : List CommandName := [compile, check, resolve]

def text : CommandName → String
  | compile => "compile"
  | check => "check"
  | resolve => "resolve"

def ofText? (s : String) : Option CommandName := all.find? fun c => c.text == s

def operands : CommandName → String
  | compile | check => "<SOURCES>..."
  | resolve => "<FILE>"

def takesMany : CommandName → Bool
  | compile | check => true
  | resolve => false

end CommandName

inductive Flag where
  | format | verbose | quiet | config | help | version
  | outDir | space | ignored | noWrite | lenientAnchors | rootDir
  deriving DecidableEq, Repr

namespace Flag

/-- The flags that are known everywhere. -/
def everywhere : List Flag := [format, verbose, quiet, config, help, version]

/-- The flags that are known after a command, or before any. -/
def known : Option CommandName → List Flag
  | none => everywhere
  | some .compile => [outDir, space, ignored, noWrite, lenientAnchors, rootDir] ++ everywhere
  | some .check => [ignored, lenientAnchors, rootDir] ++ everywhere
  | some .resolve => [space, lenientAnchors, rootDir] ++ everywhere

def long : Flag → String
  | format => "format"
  | verbose => "verbose"
  | quiet => "quiet"
  | config => "config"
  | help => "help"
  | version => "version"
  | outDir => "out-dir"
  | space => "space"
  | ignored => "ignored"
  | noWrite => "no-write"
  | lenientAnchors => "lenient-anchors"
  | rootDir => "root-dir"

def short? : Flag → Option Char
  | format => some 'f'
  | verbose => some 'v'
  | quiet => some 'q'
  | help => some 'h'
  | version => some 'V'
  | outDir => some 'o'
  | space => some 's'
  | _ => none

/-- What the value of a flag is called, if it takes one. -/
def value? : Flag → Option String
  | format => some "<FORMAT>"
  | config => some "<CONFIG>"
  | outDir => some "<OUT_DIR>"
  | space => some "<SPACE>"
  | ignored => some "<IGNORED>"
  | rootDir => some "<ROOT_DIR>"
  | _ => none

def display (f : Flag) : String :=
  "--" ++ f.long ++ match f.value? with
    | some v => " " ++ v
    | none => if f = verbose then "..." else ""

def describe : Flag → String
  | format => "Output format [default: text] [possible values: text, json]"
  | verbose => "Increase log verbosity (-v info, -vv debug, -vvv trace)"
  | quiet => "Only print errors"
  | config => "Project configuration file (defaults to the nearest yamlc.toml) [env: YAMLC_CONFIG=]"
  | help => "Print help"
  | version => "Print version"
  | outDir => "Write outputs below this directory instead of next to each source"
  | space => "JSON indent width"
  | ignored => "Skip sources whose file name matches this regex"
  | noWrite => "Resolve and serialize without writing anything"
  | lenientAnchors => "Substitute null for missing anchors instead of failing"
  | rootDir => "Directory that `!include /...` references are relative to"

def ofLong? (command : Option CommandName) (name : String) : Option Flag :=
  (known command).find? fun f => f.long == name

def ofShort? (command : Option CommandName) (letter : Char) : Option Flag :=
  (known command).find? fun f => f.short? == some letter

end Flag

end YamlInclude
