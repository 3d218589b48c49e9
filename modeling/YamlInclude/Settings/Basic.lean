import YamlInclude.Compile.Options

/-! # Settings

What settings files say. Later files win field by field, and their tag commands are added to those of
earlier files.
-/

namespace YamlInclude

/-- The command of a tag: a program, or a program with its arguments. -/
inductive TagCommand where
  | program (name : String)
  | words (ws : List String)
  deriving DecidableEq, Repr

namespace TagCommand

/-- The program and its arguments, if there is a program. -/
def split : TagCommand → Option (String × List String)
  | program name => some (name, [])
  | words [] => none
  | words (name :: args) => some (name, args)

end TagCommand

structure Settings where
  space : Option Nat
  ignored : Option String
  disableDest : Option Bool
  strictAnchors : Option Bool
  outDir : Option Path
  rootDir : Option Path
  /-- Commands in the order of their tags. -/
  commands : List (String × TagCommand)
  deriving DecidableEq, Repr

namespace Settings

def empty : Settings := ⟨none, none, none, none, none, none, []⟩

/-- Settings with those of a later file over them. -/
def merge (s later : Settings) : Settings where
  space := later.space <|> s.space
  ignored := later.ignored <|> s.ignored
  disableDest := later.disableDest <|> s.disableDest
  strictAnchors := later.strictAnchors <|> s.strictAnchors
  outDir := later.outDir <|> s.outDir
  rootDir := later.rootDir <|> s.rootDir
  commands := later.commands.foldl (fun acc (t, c) => TagRegistry.insertSorted t c acc) s.commands

/-! ## Paths -/

/-- A path as seen from a directory. -/
def anchorPath (base p : Path) : Path := if p.isAbsolute then p else base.join p

/-- A program as seen from a directory; a bare name stays, because it is searched for. -/
def anchorProgram (base : Path) (program : String) : String :=
  let p : Path := ⟨program⟩
  if !p.isAbsolute && 1 < p.components.length then (base.join p).text else program

def anchorCommand (base : Path) : TagCommand → TagCommand
  | .program name => .program (anchorProgram base name)
  | .words [] => .words []
  | .words (name :: args) => .words (anchorProgram base name :: args)

/-- Settings whose relative paths are meant as seen from the directory of their file. -/
def anchored (base : Path) (s : Settings) : Settings :=
  { s with
    outDir := s.outDir.map (anchorPath base)
    rootDir := s.rootDir.map (anchorPath base)
    commands := s.commands.map fun (t, c) => (t, anchorCommand base c) }

end Settings

inductive SettingsFault where
  | emptyCommand (tag : String)
  | refusedTag (e : LoadError)
  | invalidPattern (pattern : String) (fault : PatternFault)

namespace SettingsFault

def message : SettingsFault → String
  | emptyCommand tag => "Invalid configuration: constructor for " ++ tag ++ " has an empty command"
  | refusedTag e => "Invalid configuration: " ++ e.message
  | invalidPattern p f => "Invalid configuration: ignored pattern '" ++ p ++ "': " ++ f.message

end SettingsFault

namespace Settings

variable (s : Settings)

def indent : Nat := s.space.getD Yaml.defaultIndent

def isStrict : Bool := s.strictAnchors.getD true

def writesNothing : Bool := s.disableDest.getD false

def ignoredPattern : Except SettingsFault (Option Pattern) :=
  match s.ignored with
  | none => .ok none
  | some text =>
    match Pattern.parse text with
    | .ok p => .ok (some p)
    | .error f => .error (.invalidPattern text f)

/-- Registers commands one after the other, each as what a program and its arguments make. -/
def registerAll (make : String → List String → κ) : List (String × TagCommand) → TagRegistry κ →
    Except SettingsFault (TagRegistry κ)
  | [], r => .ok r
  | (tag, command) :: rest, r =>
    match command.split with
    | none => .error (.emptyCommand tag)
    | some (program, args) =>
      match r.register tag (make program args) with
      | .error e => .error (.refusedTag e)
      | .ok r => registerAll make rest r

def registry (make : String → List String → κ) : Except SettingsFault (TagRegistry κ) :=
  registerAll make s.commands .empty

def options (make : String → List String → FileTree → TagConstructor) :
    Except SettingsFault CompileOptions := do
  let tags ← s.registry make
  let ignored ← s.ignoredPattern
  return {
    tags
    ignored
    space := s.indent
    middleware := none
    disableDest := s.writesNothing
    strictAnchors := s.isStrict
    rootDir := s.rootDir }

end Settings

end YamlInclude
