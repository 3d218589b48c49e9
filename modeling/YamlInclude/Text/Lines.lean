import YamlInclude.Text.Blank
import YamlInclude.Text.Split

/-! # Lines

A text as the lines between its line feeds.
-/

namespace YamlInclude

def splitLines (text : List Char) : List (List Char) := splitChar '\n' text

/-- Lines with line feeds between them. -/
def joinLines (lines : List (List Char)) : List Char := joinChar '\n' lines

def isBlankLine (line : List Char) : Bool := line.all isBlank

def withoutReturn (line : List Char) : List Char :=
  if line.getLast? == some '\x0d' then line.dropLast else line

/-- The lines of a text in which a carriage return before a line feed belongs to the line end. -/
def endedLines (text : List Char) : List (List Char) :=
  let lines := splitLines text
  lines.dropLast.map withoutReturn ++ lines.getLast?.toList

end YamlInclude
