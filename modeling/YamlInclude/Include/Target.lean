import YamlInclude.Path.Normal
import YamlInclude.Path.Yaml

/-! # Targets of references

A path that starts with a slash or backslash is found below the root directory, any other one beside
the including file. Without a YAML extension it gets `.yml` if such a file exists, else `.yaml`.
-/

namespace YamlInclude

namespace Target

def isSeparator (c : Char) : Bool := c == '/' || c == '\\'

/-- The path that a reference names, before its dots are folded. -/
def located (component : String) (from_ root : Path) : Path :=
  let cs := component.toList
  if cs.head?.any isSeparator then root.join (.ofChars (cs.dropWhile isSeparator))
  else (from_.parent?.getD ⟨""⟩).join ⟨component⟩

/-- The file that a reference in `from_` names. -/
def resolve (component : String) (from_ root : Path) (isFile : Path → Bool) : Path :=
  let p := (located component from_ root).normalize
  if p.hasYamlExtension then p
  else
    let yml := p.append ['.', 'y', 'm', 'l']
    if isFile yml then yml else p.append ['.', 'y', 'a', 'm', 'l']

end Target

end YamlInclude
