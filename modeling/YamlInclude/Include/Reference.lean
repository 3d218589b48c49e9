import YamlInclude.Text.Blank

/-! # References

A reference names a file, and perhaps an anchor in it: `path` or `path *anchor`.
-/

namespace YamlInclude

structure Reference where
  path : String
  anchor : Option String
  deriving DecidableEq, Repr

namespace Reference

/-- The text before and after the first space that a star follows. -/
def splitStar : List Char → Option (List Char × List Char)
  | [] => none
  | c :: cs =>
    match c, cs with
    | ' ', '*' :: rest => some ([], rest)
    | _, _ => (splitStar cs).map fun (before, after) => (c :: before, after)

/-- Reads a reference; an empty anchor is none. -/
def parse (raw : String) : Reference :=
  let cs := Blank.trim raw.toList
  match splitStar cs with
  | none => ⟨String.ofList cs, none⟩
  | some (before, after) =>
    let name := Blank.trim after
    ⟨String.ofList (Blank.trimEnd before), if name.isEmpty then none else some (String.ofList name)⟩

def text (r : Reference) : String :=
  match r.anchor with
  | none => r.path
  | some a => r.path ++ " *" ++ a

end Reference

end YamlInclude
