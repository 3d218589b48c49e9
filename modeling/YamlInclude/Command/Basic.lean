import YamlInclude.Compile.Batch
import YamlInclude.Compile.Collect
import YamlInclude.Settings.Load
import YamlInclude.TagProgram.Run

/-! # Commands

Three commands load sources: one writes their JSON, one only looks for errors, one prints the JSON of a
single file. What a command is told goes before what the settings say.
-/

namespace YamlInclude

structure LoadFlags where
  lenientAnchors : Bool
  rootDir : Option Path
  deriving DecidableEq, Repr

structure CompileArgs where
  sources : List Path
  outDir : Option Path
  space : Option Nat
  ignored : Option String
  noWrite : Bool
  load : LoadFlags
  deriving DecidableEq, Repr

structure CheckArgs where
  sources : List Path
  ignored : Option String
  load : LoadFlags
  deriving DecidableEq, Repr

structure ResolveArgs where
  file : Path
  space : Option Nat
  load : LoadFlags
  deriving DecidableEq, Repr

inductive Command where
  | compile (args : CompileArgs)
  | check (args : CheckArgs)
  | resolve (args : ResolveArgs)
  deriving DecidableEq, Repr

inductive CommandError where
  | settingsFile (file : Path) (e : ConfigError)
  | config (e : ConfigError)
  | settings (f : SettingsFault)
  | ignoredPattern (pattern : String) (f : PatternFault)
  | sourceNotFound (e : CollectError)
  | skipped (source : Path)
  | compile (e : CompileError)

namespace CommandError

def message : CommandError → String
  | settingsFile p e => "Failed to load config: " ++ p.text ++ ": " ++ e.message
  | config e => e.message
  | settings f => "Invalid configuration: " ++ f.message
  | ignoredPattern p f => "Invalid --ignored pattern: " ++ p ++ ": " ++ f.message
  | sourceNotFound e => e.message
  | skipped p => "Source was skipped: " ++ p.text
  | compile e => e.message

end CommandError

inductive CommandEvent where
  | foundSettings (file : Path)
  | collected (count : Nat)
  | compile (e : CompileEvent)
  deriving DecidableEq, Repr

/-- What a command leaves: the files, the events on the way, and the result. -/
structure CommandOutcome (α : Type) where
  tree : FileTree
  events : List CommandEvent
  result : Except CommandError α

namespace Command

/-- The options of a command, with the tag programs of the settings started in a directory. -/
def optionsFor (s : Settings) (cwd : Location) (flags : LoadFlags) (ignored : Option String) :
    Except CommandError CompileOptions := do
  let o ← (s.options fun program args t => TagProgram.construct ⟨⟨program⟩, args⟩ t cwd).mapError .settings
  let pattern ← match ignored with
    | none => .ok o.ignored
    | some text => ((Pattern.parse text).map some).mapError (.ignoredPattern text)
  return { o with
    ignored := pattern
    strictAnchors := o.strictAnchors && !flags.lenientAnchors
    rootDir := flags.rootDir <|> o.rootDir }

/-- Compiles pairs, unless the sources to make them of were not found. -/
def compilePairs (o : CompileOptions) (cwd : Location) (pairs : Except CollectError (List FilePair))
    (t : FileTree) : CommandOutcome BatchReport :=
  match pairs with
  | .error e => ⟨t, [], .error (.sourceNotFound e)⟩
  | .ok pairs =>
    let r := (Compiler.onTree o cwd).compileAll pairs t
    ⟨r.tree, r.events.map .compile, r.result.mapError .compile⟩

def collectedEvents : Except CollectError (List FilePair) → List CommandEvent
  | .error _ => []
  | .ok pairs => [.collected pairs.length]

def runCompile (s : Settings) (cwd : Location) (a : CompileArgs) (t : FileTree) :
    CommandOutcome BatchReport :=
  match optionsFor s cwd a.load a.ignored with
  | .error e => ⟨t, [], .error e⟩
  | .ok o =>
    let o := { o with
      space := a.space.getD o.space
      disableDest := a.noWrite || o.disableDest }
    let pairs := t.collectPairs cwd (a.outDir <|> s.outDir) a.sources
    let r := compilePairs o cwd pairs t
    { r with events := collectedEvents pairs ++ r.events }

/-- Loads sources and writes nothing. -/
def runCheck (s : Settings) (cwd : Location) (a : CheckArgs) (t : FileTree) : CommandOutcome BatchReport :=
  match optionsFor s cwd a.load a.ignored with
  | .error e => ⟨t, [], .error e⟩
  | .ok o => compilePairs { o with disableDest := true } cwd (t.collectPairs cwd none a.sources) t

def runResolve (s : Settings) (cwd : Location) (a : ResolveArgs) (t : FileTree) : CommandOutcome String :=
  match optionsFor s cwd a.load none with
  | .error e => ⟨t, [], .error e⟩
  | .ok o =>
    let o := { o with space := a.space.getD o.space, disableDest := true }
    let r := (Compiler.onTree o cwd).compileFile (.forSource a.file none) t
    let result := match r.result with
      | .error e => .error (.compile e)
      | .ok none => .error (.skipped a.file)
      | .ok (some f) => .ok f.json
    ⟨r.tree, r.events.map .compile, result⟩

end Command

end YamlInclude
