import YamlInclude.Yaml.Token.Basic
import YamlInclude.Text.Utf8

/-! # Events

A text as a flat run of documents, scalars, aliases and collection borders.
-/

namespace YamlInclude.Yaml

/-- A tag in full: a text, or octets that are none. -/
inductive Tag where
  | text (s : String)
  | octets (os : List UInt8)
  deriving DecidableEq, Repr

def Tag.ofOctets (os : List UInt8) : Tag :=
  match Utf8.decode? os with
  | some cs => .text (String.ofList cs)
  | none => .octets os

structure Properties where
  anchor : Option String := none
  tag : Option Tag := none
  deriving DecidableEq, Repr

namespace Properties

def none : Properties := ⟨.none, .none⟩

end Properties

inductive Event where
  | documentStart | documentEnd | streamEnd
  | alias (name : String)
  | scalar (properties : Properties) (text : String) (plain : Bool)
  | sequenceStart (properties : Properties)
  | sequenceEnd
  | mappingStart (properties : Properties)
  | mappingEnd
  deriving DecidableEq, Repr

/-- An event with the mark where it begins. -/
structure Marked where
  event : Event
  mark : Mark
  deriving DecidableEq, Repr

end YamlInclude.Yaml
