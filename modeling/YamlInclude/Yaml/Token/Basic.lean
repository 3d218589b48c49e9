import YamlInclude.Yaml.SyntaxError

/-! # Tokens

The tokens of a YAML text, each with the marks where it begins and ends.
-/

namespace YamlInclude.Yaml

inductive Token where
  | version (major minor : Nat)
  | tagDirective (handle : String) (target : List UInt8)
  | documentStart | documentEnd | streamEnd
  | blockSequenceStart | blockMappingStart | blockEnd
  | flowSequenceStart | flowSequenceEnd | flowMappingStart | flowMappingEnd
  | blockEntry | flowEntry | key | value
  | alias (name : String)
  | anchor (name : String)
  | tag (handle : String) (suffix : List UInt8)
  | scalar (text : String) (plain : Bool)
  deriving DecidableEq, Repr

structure Located (α : Type) where
  value : α
  start : Mark
  stop : Mark
  deriving DecidableEq, Repr

/-- White space inside a scalar: blanks before the first break, that break, and the breaks after it. -/
structure Fold where
  blanks : List Char
  broken : Bool
  first : List Char
  more : List Char

namespace Fold

def empty : Fold := ⟨[], false, [], []⟩

/-- A break in a line that was escaped, which leaves nothing behind. -/
def escaped : Fold := ⟨[], true, [], []⟩

def pushBlank (f : Fold) (c : Char) : Fold := if f.broken then f else { f with blanks := f.blanks ++ [c] }

def pushBreak (f : Fold) (c : Char) : Fold :=
  if f.broken then { f with more := f.more ++ [breakText c] }
  else { f with broken := true, blanks := [], first := [breakText c] }

/-- What the white space stands for: one folded break is a space, and further ones remain. -/
def text (f : Fold) : List Char :=
  if !f.broken then f.blanks
  else if f.first = ['\n'] then (if f.more.isEmpty then [' '] else f.more)
  else f.first ++ f.more

end Fold

/-- The blanks and breaks here; a tab before column `limit` of a later line is a problem. -/
def scanFold (since : Mark) (limit : Int) :
    List Char → Mark → Fold → Except SyntaxError (Fold × Cursor)
  | [], m, f => .ok (f, ⟨[], m⟩)
  | '\x0d' :: '\n' :: cs, m, f => scanFold since limit cs (m.newLine 2) (f.pushBreak '\n')
  | c :: cs, m, f =>
    if isBlankChar c then
      if f.broken && m.column < limit && c == '\t' then failIn .plainScalar since .tabInIndentation m
      else scanFold since limit cs (m.skip 1) (f.pushBlank c)
    else if isBreak c then scanFold since limit cs (m.newLine 1) (f.pushBreak c)
    else .ok (f, ⟨c :: cs, m⟩)

end YamlInclude.Yaml
