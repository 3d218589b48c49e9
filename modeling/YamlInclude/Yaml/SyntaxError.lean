import YamlInclude.Yaml.Character

/-! # Syntax errors

A syntax error says what is wrong and where, and what was being read and where that began.
-/

namespace YamlInclude.Yaml

inductive Problem where
  | controlCharacter | noTokenStart | noColon | sequenceNotAllowed | keyNotAllowed | valueNotAllowed
  | unknownDirective | noCommentOrBreak | noDirectiveName | nonAlphabetical | noDigitOrDot
  | longVersion | noVersion | noSpace | noSpaceOrBreak | noAlphanumeric | noClosingAngle
  | noExclamation | noTagUri | noUriEscape | badLeadingOctet | badTrailingOctet
  | zeroIndent | tabForIndent | unexpectedMarker | unexpectedEnd | unknownEscape
  | noHexNumber | badCodePoint | unexpectedColon | tabInIndentation
  | noDocumentStart | duplicateVersion | duplicateTagHandle | incompatibleVersion | undefinedHandle
  | noContent | noDash | noKey | noSequenceSeparator | noMappingSeparator | unfinished
  deriving DecidableEq, Repr

namespace Problem

def message : Problem → String
  | controlCharacter => "control characters are not allowed"
  | noTokenStart => "found character that cannot start any token"
  | noColon => "could not find expected ':'"
  | sequenceNotAllowed => "block sequence entries are not allowed in this context"
  | keyNotAllowed => "mapping keys are not allowed in this context"
  | valueNotAllowed => "mapping values are not allowed in this context"
  | unknownDirective => "found unknown directive name"
  | noCommentOrBreak => "did not find expected comment or line break"
  | noDirectiveName => "could not find expected directive name"
  | nonAlphabetical => "found unexpected non-alphabetical character"
  | noDigitOrDot => "did not find expected digit or '.' character"
  | longVersion => "found extremely long version number"
  | noVersion => "did not find expected version number"
  | noSpace => "did not find expected whitespace"
  | noSpaceOrBreak => "did not find expected whitespace or line break"
  | noAlphanumeric => "did not find expected alphabetic or numeric character"
  | noClosingAngle => "did not find the expected '>'"
  | noExclamation => "did not find expected '!'"
  | noTagUri => "did not find expected tag URI"
  | noUriEscape => "did not find URI escaped octet"
  | badLeadingOctet => "found an incorrect leading UTF-8 octet"
  | badTrailingOctet => "found an incorrect trailing UTF-8 octet"
  | zeroIndent => "found an indentation indicator equal to 0"
  | tabForIndent => "found a tab character where an indentation space is expected"
  | unexpectedMarker => "found unexpected document indicator"
  | unexpectedEnd => "found unexpected end of stream"
  | unknownEscape => "found unknown escape character"
  | noHexNumber => "did not find expected hexadecimal number"
  | badCodePoint => "found invalid Unicode character escape code"
  | unexpectedColon => "found unexpected ':'"
  | tabInIndentation => "found a tab character that violates indentation"
  | noDocumentStart => "did not find expected <document start>"
  | duplicateVersion => "found duplicate %YAML directive"
  | duplicateTagHandle => "found duplicate %TAG directive"
  | incompatibleVersion => "found incompatible YAML document"
  | undefinedHandle => "found undefined tag handle"
  | noContent => "did not find expected node content"
  | noDash => "did not find expected '-' indicator"
  | noKey => "did not find expected key"
  | noSequenceSeparator => "did not find expected ',' or ']'"
  | noMappingSeparator => "did not find expected ',' or '\x7d'"
  | unfinished => "the text was not read to its end"

end Problem

inductive Context where
  | nextToken | simpleKey | directive | version | tagDirective | anchor | alias | tag
  | tagHandle | openTagHandle | tagUri | directiveUri | blockScalar | quotedScalar | escape
  | plainScalar | node | blockNode | flowNode | blockCollection | blockMapping
  | flowSequence | flowMapping
  deriving DecidableEq, Repr

namespace Context

def message : Context → String
  | nextToken => "while scanning for the next token"
  | simpleKey => "while scanning a simple key"
  | directive => "while scanning a directive"
  | version => "while scanning a %YAML directive"
  | tagDirective => "while scanning a %TAG directive"
  | anchor => "while scanning an anchor"
  | .alias => "while scanning an alias"
  | tag => "while scanning a tag"
  | tagHandle => "while scanning a tag directive"
  | openTagHandle => "while parsing a tag directive"
  | tagUri => "while parsing a tag"
  | directiveUri => "while parsing a %TAG directive"
  | blockScalar => "while scanning a block scalar"
  | quotedScalar => "while scanning a quoted scalar"
  | escape => "while parsing a quoted scalar"
  | plainScalar => "while scanning a plain scalar"
  | node => "while parsing a node"
  | blockNode => "while parsing a block node"
  | flowNode => "while parsing a flow node"
  | blockCollection => "while parsing a block collection"
  | blockMapping => "while parsing a block mapping"
  | flowSequence => "while parsing a flow sequence"
  | flowMapping => "while parsing a flow mapping"

end Context

/-- A problem, its place, and what was being read since where. A control character has a byte offset instead. -/
structure SyntaxError where
  problem : Problem
  mark : Mark
  context : Option (Context × Mark) := none
  offset : Nat := 0
  deriving DecidableEq, Repr

namespace Mark

def isOrigin (m : Mark) : Bool := m.line == 0 && m.column == 0

def samePlace (m n : Mark) : Bool := m.line == n.line && m.column == n.column

/-- Line and column counted from one. -/
def message (m : Mark) : String :=
  "line " ++ toString (m.line + 1) ++ " column " ++ toString (m.column + 1)

end Mark

/-- The message of a syntax error; the first place of a text goes without saying. -/
def SyntaxError.message (e : SyntaxError) : String :=
  let place :=
    if !e.mark.isOrigin then " at " ++ e.mark.message
    else if e.offset != 0 then " at position " ++ toString e.offset
    else ""
  let context := match e.context with
    | none => ""
    | some (c, m) =>
      ", " ++ c.message ++
        if !m.isOrigin && !m.samePlace e.mark then " at " ++ m.message else ""
  e.problem.message ++ place ++ context

def failIn (context : Context) (since : Mark) (problem : Problem) (place : Mark) :
    Except SyntaxError α :=
  .error ⟨problem, place, some (context, since), 0⟩

end YamlInclude.Yaml
