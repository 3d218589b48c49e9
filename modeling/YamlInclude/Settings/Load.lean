import YamlInclude.Settings.Toml
import YamlInclude.FileTree.Source

/-! # Finding settings

The settings of a project are in the nearest file of a fixed name in the working directory and those
above it. They come over the settings of the user.
-/

namespace YamlInclude

abbrev Environment := String → Option String

inductive SettingsReadError where
  | unreadable (path : Path) (fault : ReadFault)
  | malformed (path : Path) (e : Toml.Error)

namespace SettingsReadError

def message : SettingsReadError → String
  | unreadable p f => "Failed to read config: " ++ p.text ++ ": " ++ f.message
  | malformed p e =>
    "Failed to parse config: " ++ p.text ++ ": Failed to parse configuration: " ++ e.message

end SettingsReadError

inductive ConfigError where
  | global (e : SettingsReadError)
  | project (e : SettingsReadError)

namespace ConfigError

def message : ConfigError → String
  | global e => "Failed to load global config: " ++ e.message
  | project e => e.message

end ConfigError

structure Config where
  settings : Settings
  projectFile : Option Path
  deriving DecidableEq, Repr

namespace Config

def projectFileName : Name := ['y', 'a', 'm', 'l', 'c', '.', 't', 'o', 'm', 'l']

def globalFileName : Name := ['c', 'o', 'n', 'f', 'i', 'g', '.', 't', 'o', 'm', 'l']

def globalDirectory (env : Environment) : Option Path :=
  match env "YAMLC_CONFIG_DIR" with
  | some dir => some ⟨dir⟩
  | none =>
    let home := (env "HOME").filter (· != "")
    match (env "XDG_CONFIG_HOME").filter fun d => (Path.mk d).isAbsolute with
    | some dir => if home.isSome then some ((Path.mk dir).join ⟨"yamlc"⟩) else none
    | none => home.map fun h => (Path.mk h).join ⟨".config/yamlc"⟩

/-- The directories that hold a name which is given last name first, nearest first. -/
def directoriesAbove : List Name → List Location
  | [] => [[]]
  | n :: above => (n :: above).reverse :: directoriesAbove above

/-- A directory and all directories above it, nearest first. -/
def searched (cwd : Location) : List Location := directoriesAbove cwd.reverse

def findProjectFile (isFile : Path → Bool) (cwd : Location) : Option Path :=
  ((searched cwd).map fun l => l.path.child projectFileName).find? isFile

/-- The settings of a file, with their paths as seen from its directory. -/
def ofFile (t : FileTree) (cwd : Location) (p : Path) : Except SettingsReadError Settings :=
  match t.readText cwd p with
  | .error f => .error (.unreadable p f)
  | .ok text =>
    match Settings.parse text with
    | .error e => .error (.malformed p e)
    | .ok s => .ok (s.anchored (p.parent?.getD ⟨"."⟩))

def loadGlobal (t : FileTree) (cwd : Location) (env : Environment) : Except ConfigError Settings :=
  match globalDirectory env with
  | none => .ok .empty
  | some dir =>
    let file := dir.child globalFileName
    if t.isPresent cwd file then (ofFile t cwd file).mapError .global else .ok .empty

def withProjectFile (t : FileTree) (cwd : Location) (env : Environment) (p : Path) :
    Except ConfigError Config := do
  let global ← loadGlobal t cwd env
  let project ← (ofFile t cwd p).mapError .project
  return ⟨global.merge project, some p⟩

def load (t : FileTree) (cwd : Location) (env : Environment) : Except ConfigError Config :=
  match findProjectFile (t.isFile cwd) cwd with
  | some p => withProjectFile t cwd env p
  | none => do return ⟨← loadGlobal t cwd env, none⟩

end Config

end YamlInclude
