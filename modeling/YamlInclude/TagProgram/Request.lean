import YamlInclude.Json.Printer
import YamlInclude.Path.Basic

/-! # Requests to tag programs

A program that makes the values of a tag reads one line of JSON, which asks for the value of one node.
-/

namespace YamlInclude

structure TagRequest where
  operation : String
  params : Json
  deriving DecidableEq

namespace TagRequest

def construct : String := "construct"

/-- Asks for the value of a node: its tag, its content, and the file that holds it. -/
def forNode (tag : String) (value : Json) (file : Path) : TagRequest :=
  ⟨construct, .object [("tag", .string tag), ("value", value), ("file", .string file.text)]⟩

def toJson (r : TagRequest) : Json := .object [("operation", .string r.operation), ("params", r.params)]

/-- The text of a request, without the line feed that follows it. -/
def line (r : TagRequest) : String := r.toJson.compact

def ofJson? (j : Json) : Option TagRequest :=
  match j.member? "operation", j.member? "params" with
  | some (.string o), some p => some ⟨o, p⟩
  | _, _ => none

end TagRequest

end YamlInclude
