import YamlInclude.Path.Basic

/-! # Names of YAML files

Two tests tell a YAML file: a reference needs the letters of an extension anywhere in it, and the
search in a directory needs them at the end of a name.
-/

namespace YamlInclude

namespace Path

/-- Small letters for the capital ones of ASCII. -/
def lower (cs : List Char) : List Char := cs.map Char.toLower

/-- Whether a text starts with `.yml` or `.yaml`, in any letter case. -/
def startsYaml (cs : List Char) : Bool :=
  ['.', 'y', 'm', 'l'].isPrefixOf (lower cs) || ['.', 'y', 'a', 'm', 'l'].isPrefixOf (lower cs)

/-- Whether `.yml` or `.yaml` occurs in a text, in any letter case. -/
def mentionsYaml : List Char → Bool
  | [] => false
  | c :: cs => startsYaml (c :: cs) || mentionsYaml cs

/-- Whether `.yml` or `.yaml` occurs anywhere in a path. -/
def hasYamlExtension (p : Path) : Bool := mentionsYaml p.chars

/-- Whether the extension of a path is `yml` or `yaml`, in any letter case. -/
def isYamlFile (p : Path) : Bool :=
  p.extension?.any fun e => lower e == ['y', 'm', 'l'] || lower e == ['y', 'a', 'm', 'l']

/-- Where the JSON of a destination is written: `json` takes the place of `yml` and `yaml`, and is
added to any other name. -/
def jsonPath (p : Path) : Path :=
  if p.extension?.any fun e => e == ['y', 'm', 'l'] || e == ['y', 'a', 'm', 'l'] then
    p.withExtension ['j', 's', 'o', 'n']
  else p.append ['.', 'j', 's', 'o', 'n']

end Path

end YamlInclude
