import YamlInclude.Text.Lines

/-! # Anchors in a text

One node is taken out of a text by an entry that is added at its end: an alias of the node's anchor
under a reserved key. Document markers at the end of the text go away before.
-/

namespace YamlInclude

namespace Anchor

/-- The key of the added entry. -/
def sentinel : String := "__yamlc_anchor__"

/-- Whether a text starts with a name that ends there. -/
def startsName (name : List Char) (cs : List Char) : Bool :=
  name.isPrefixOf cs && (cs.drop name.length).head?.all isBlank

/-- Whether `&name` stands somewhere in a text, before white space or at its end. -/
def definedIn (name : List Char) : List Char → Bool
  | [] => false
  | c :: cs => (c == '&' && startsName name cs) || definedIn name cs

def isDefined (text anchor : String) : Bool := definedIn anchor.toList text.toList

def isMarker (line : List Char) : Bool :=
  let l := Blank.trimEnd line
  l == ['-', '-', '-'] || l == ['.', '.', '.']

/-- The text without the document markers at its end, and without white space there if it had any. -/
def stripMarkers (text : List Char) : List Char :=
  let lines := (splitLines text).reverse
  let atEnd := lines.takeWhile fun l => isBlankLine l || isMarker l
  if atEnd.any isMarker then
    Blank.trimEnd (joinLines (lines.dropWhile fun l => isBlankLine l || isMarker l).reverse)
  else text

/-- The text with an entry at its end that takes out the anchored node. -/
def splice (text anchor : String) : String :=
  let body := stripMarkers text.toList
  let gap := if body.isEmpty || body.getLast? == some '\n' then [] else ['\n']
  String.ofList (body ++ gap ++ sentinel.toList ++ [':', ' ', '*'] ++ anchor.toList ++ ['\n'])

end Anchor

end YamlInclude
