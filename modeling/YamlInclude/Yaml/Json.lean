import YamlInclude.Json.Printer
import YamlInclude.Yaml.Scalar

/-! # YAML values as JSON

Keys that are no strings become text: null, booleans and numbers as they are written, anything else
as the JSON text of its own value. A tagged value is an object with the tag as its one member.
-/

namespace YamlInclude.Yaml

namespace Value

/-- JSON has no infinities, and no value that is not a number. -/
def jsonNumber : Number → Json
  | .int n => .number (.int n)
  | .float x => if x.isFinite then .number (.float x) else .null

mutual

/-- The JSON value of a YAML value; of entries with one key text the last value counts, at the first place. -/
def toJson : Value → Json
  | null => .null
  | bool b => .bool b
  | number n => jsonNumber n
  | string s => .string s
  | sequence vs => .array (itemsToJson vs)
  | mapping es => .ofMembers (entriesToJson es)
  | tagged t v => .object [(tagText t, toJson v)]

def itemsToJson : List Value → List Json
  | [] => []
  | v :: vs => toJson v :: itemsToJson vs

def entriesToJson : List (Value × Value) → List (String × Json)
  | [] => []
  | (k, v) :: es => (keyText k, toJson v) :: entriesToJson es

/-- The member name that a key becomes. -/
def keyText : Value → String
  | null => "null"
  | bool b => toString b
  | number n => Scalar.numberText n
  | string s => s
  | sequence vs => (Json.array (itemsToJson vs)).compact
  | mapping es => (Json.ofMembers (entriesToJson es)).compact
  | tagged t v => (Json.object [(tagText t, toJson v)]).compact

end

mutual

/-- The YAML value of a JSON value. Its names are keys and never tags. -/
def ofJson : Json → Value
  | .null => null
  | .bool b => bool b
  | .number n => number n
  | .string s => string s
  | .array items => sequence (ofJsonItems items)
  | .object members => mapping (ofJsonMembers members)

def ofJsonItems : List Json → List Value
  | [] => []
  | j :: js => ofJson j :: ofJsonItems js

def ofJsonMembers : List (String × Json) → List (Value × Value)
  | [] => []
  | (k, j) :: ms => (string k, ofJson j) :: ofJsonMembers ms

end

def maxIndent : Nat := 10

def jsonText (v : Value) (indent : Nat) : String := v.toJson.render (min indent maxIndent)

end Value

def defaultIndent : Nat := 2

end YamlInclude.Yaml
