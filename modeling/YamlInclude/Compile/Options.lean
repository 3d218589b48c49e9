import YamlInclude.Pattern.Parser
import YamlInclude.Include.Tag
import YamlInclude.FileTree.Basic
import YamlInclude.Yaml.Json
import YamlInclude.Text.Quoted

/-! # Options of compilations -/

namespace YamlInclude

/-- A source with its documents and what is about to be written. -/
structure CompiledFile where
  source : Path
  dest : Path
  documents : List Yaml.Value
  json : String

namespace CompiledFile

/-- The one value that documents are written as: null for none, and a sequence for several. -/
def combined : List Yaml.Value → Yaml.Value
  | [] => .null
  | [v] => v
  | vs => .sequence vs

def value (f : CompiledFile) : Yaml.Value := combined f.documents

end CompiledFile

/-- A change of a compiled file before it is written, or a refusal. -/
abbrev Middleware := CompiledFile → Except String CompiledFile

structure CompileOptions where
  /-- Constructors, which may look at the files that are there when they run. -/
  tags : TagRegistry (FileTree → TagConstructor)
  /-- The file names to skip. -/
  ignored : Option Pattern
  /-- The indent of the JSON text. -/
  space : Nat
  middleware : Option Middleware
  /-- Whether nothing is written. -/
  disableDest : Bool
  strictAnchors : Bool
  rootDir : Option Path

namespace CompileOptions

def initial : CompileOptions where
  tags := .empty
  ignored := none
  space := Yaml.defaultIndent
  middleware := none
  disableDest := false
  strictAnchors := true
  rootDir := none

/-! ## Descriptions -/

def record (name : String) (fields : List (String × String)) : String :=
  name ++ " \x7b " ++ ", ".intercalate (fields.map fun (n, v) => n ++ ": " ++ v) ++ " \x7d"

def optional (s : Option String) : String :=
  match s with
  | none => "None"
  | some s => "Some(" ++ quoted s ++ ")"

def describeTags (o : CompileOptions) : String :=
  record "TagRegistry" [("tags", "[" ++ ", ".intercalate (o.tags.tags.map quoted) ++ "]")]

def describe (o : CompileOptions) : String :=
  record "CompileOptions" [
    ("tags", o.describeTags),
    ("ignored", optional (o.ignored.map Pattern.text)),
    ("space", toString o.space),
    ("middleware", toString o.middleware.isSome),
    ("disable_dest", toString o.disableDest),
    ("strict_anchors", toString o.strictAnchors),
    ("root_dir", optional (o.rootDir.map Path.text))]

/-- The options that loading depends on as text. -/
def describeLoading (o : CompileOptions) : String :=
  let options := record "ResolverOptions" [
    ("strict_anchors", toString o.strictAnchors),
    ("root_dir", optional (o.rootDir.map Path.text))]
  "Resolver \x7b tags: " ++ o.describeTags ++ ", options: " ++ options ++ ", .. \x7d"

end CompileOptions

end YamlInclude
