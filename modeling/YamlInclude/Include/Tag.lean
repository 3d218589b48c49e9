import YamlInclude.Include.Traced

/-! # Tags

A constructor turns a tagged node into a value. Constructors are registered under tag names, whose
exclamation marks at the start count as one; the name of the include tag is taken.
-/

namespace YamlInclude

/-- A tag name with one exclamation mark at its start. -/
def tagName (tag : String) : String := String.ofList ('!' :: tag.toList.dropWhile (· == '!'))

def includeTag : String := "!include"

/-- A map from tag names to constructors of any kind, in the order of the names. -/
structure TagRegistry (κ : Type) where
  entries : List (String × κ)

namespace TagRegistry

def empty : TagRegistry κ := ⟨[]⟩

/-- Puts a constructor at its place in the order, for one of the same name if there is one. -/
def insertSorted (name : String) (c : κ) : List (String × κ) → List (String × κ)
  | [] => [(name, c)]
  | e :: rest =>
    if name = e.1 then (name, c) :: rest
    else if name < e.1 then (name, c) :: e :: rest
    else e :: insertSorted name c rest

def register (r : TagRegistry κ) (tag : String) (c : κ) : Except LoadError (TagRegistry κ) :=
  if tagName tag = includeTag then .error (.reservedTag (tagName tag))
  else .ok ⟨insertSorted (tagName tag) c r.entries⟩

def get? (r : TagRegistry κ) (tag : String) : Option κ := r.entries.lookup (tagName tag)

def contains (r : TagRegistry κ) (tag : String) : Bool := (r.get? tag).isSome

def tags (r : TagRegistry κ) : List String := r.entries.map (·.1)

/-- The registry with every constructor replaced. -/
def map (f : κ → μ) (r : TagRegistry κ) : TagRegistry μ := ⟨r.entries.map fun e => (e.1, f e.2)⟩

def size (r : TagRegistry κ) : Nat := r.entries.length

def isEmpty (r : TagRegistry κ) : Bool := r.entries.isEmpty

end TagRegistry

/-- What a constructor is told about a tagged node, and what it can ask for. -/
structure TagContext where
  /-- The registered name of the tag. -/
  tag : String
  /-- The file that holds the node. -/
  file : Path
  /-- The tag as it is written, without its exclamation mark. -/
  written : String
  /-- The content of the node, in which tags still stand. -/
  content : Yaml.Value
  /-- The content with its tags resolved. -/
  resolved : Unit → Traced Yaml.Value
  /-- The value of a reference as seen from the file. -/
  included : String → Traced Yaml.Value

namespace TagContext

def node (c : TagContext) : Yaml.Value := .tagged c.written c.content

def fail (c : TagContext) (message : String) : Traced α :=
  Traced.fail (.constructor c.tag c.file message)

end TagContext

abbrev TagConstructor := TagContext → Traced Yaml.Value

end YamlInclude
