/-! # Characters of YAML text

Line breaks, blanks and the characters of names, and the marks that count them.
-/

namespace YamlInclude.Yaml

/-- A place in a text: characters, lines and columns before it. -/
structure Mark where
  index : Nat
  line : Nat
  column : Nat
  deriving DecidableEq, Repr, Inhabited

namespace Mark

def start : Mark := ⟨0, 0, 0⟩

def skip (m : Mark) (n : Nat) : Mark := ⟨m.index + n, m.line, m.column + n⟩

def newLine (m : Mark) (n : Nat) : Mark := ⟨m.index + n, m.line + 1, 0⟩

end Mark

/-- A carriage return, line feed, next line, line separator or paragraph separator. -/
def isBreak (c : Char) : Bool :=
  c == '\n' || c == '\x0d' || c == '\u0085' || c == '\u2028' || c == '\u2029'

def isBlankChar (c : Char) : Bool := c == ' ' || c == '\t'

/-- A character of an anchor name, a tag handle or a directive name. -/
def isNameChar (c : Char) : Bool := c.isAlphanum || c == '_' || c == '-'

def atLineEnd : List Char → Bool
  | [] => true
  | c :: _ => isBreak c

def atGap : List Char → Bool
  | [] => true
  | c :: _ => isBreak c || isBlankChar c

/-- What a line break stands for in a scalar: the separators stay, all others become a line feed. -/
def breakText (c : Char) : Char := if c == '\u2028' || c == '\u2029' then c else '\n'

/-- The characters allowed in a text. -/
def isAllowed (c : Char) : Bool :=
  let n := c.toNat
  n == 9 || n == 10 || n == 13 || (0x20 ≤ n && n ≤ 0x7E) || n == 0x85 ||
    (0xA0 ≤ n && n ≤ 0xFFFD) || 0x10000 ≤ n

/-- A rest of a text with its place. -/
structure Cursor where
  rest : List Char
  mark : Mark

namespace Cursor

def skip (c : Cursor) (n : Nat) : Cursor := ⟨c.rest.drop n, c.mark.skip n⟩

/-- The cursor after the characters at its start that satisfy `p`, none of which is a break. -/
def skipWhile (p : Char → Bool) (c : Cursor) : Cursor :=
  ⟨c.rest.dropWhile p, c.mark.skip (c.rest.takeWhile p).length⟩

def skipBlanks (c : Cursor) : Cursor := c.skipWhile isBlankChar

/-- The cursor at the end of its line if a comment starts here. -/
def skipComment (c : Cursor) : Cursor :=
  if c.rest.head? = some '#' then c.skipWhile (!isBreak ·) else c

/-- The cursor after a line break, if there is one here. -/
def skipBreak (c : Cursor) : Cursor :=
  match c.rest with
  | '\x0d' :: '\n' :: r => ⟨r, c.mark.newLine 2⟩
  | b :: r => if isBreak b then ⟨r, c.mark.newLine 1⟩ else c
  | [] => c

end Cursor

/-- Whether three equal marker characters and then a gap stand here. -/
def atMarker (m : Char) : List Char → Bool
  | a :: b :: c :: rest => a == m && b == m && c == m && atGap rest
  | _ => false

/-- Whether a document marker stands at the start of the line here. -/
def atDocumentMarker (c : Cursor) : Bool :=
  c.mark.column == 0 && (atMarker '-' c.rest || atMarker '.' c.rest)

end YamlInclude.Yaml
