/-! # Splitting

A text as the parts between the places where one character stands.
-/

namespace YamlInclude

def splitChar (sep : Char) : List Char → List (List Char)
  | [] => [[]]
  | c :: cs =>
    if c = sep then [] :: splitChar sep cs
    else match splitChar sep cs with
      | s :: rest => (c :: s) :: rest
      | [] => [[c]]

def joinChar (sep : Char) : List (List Char) → List Char
  | [] => []
  | [s] => s
  | s :: rest => s ++ sep :: joinChar sep rest

end YamlInclude
