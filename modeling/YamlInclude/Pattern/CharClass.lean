import YamlInclude.Text.Blank
import YamlInclude.Text.Category
import YamlInclude.Text.CaseFold

/-! # Classes of characters -/

namespace YamlInclude

inductive CharClass where
  | range (low high : Char)
  | digit | space | word
  | asciiDigit | asciiSpace | asciiWord
  | category (gs : List GeneralCategory)
  | negated (c : CharClass)
  | both (c d : CharClass)
  | either (c d : CharClass)
  /-- What differs in letter case only from a character of the class, of ASCII or of any script. -/
  | folded (ascii : Bool) (c : CharClass)

namespace CharClass

def otherCase (x : Char) : Char := if x.isUpper then x.toLower else x.toUpper

def contains : CharClass → Char → Bool
  | range low high, x => low ≤ x && x ≤ high
  | digit, x => isDigitChar x
  | space, x => isBlank x
  | word, x => isWordChar x
  | asciiDigit, x => x.isDigit
  | asciiSpace, x => 9 ≤ x.toNat && x.toNat ≤ 13 || x == ' '
  | asciiWord, x => x.isAlphanum || x == '_'
  | category gs, x => gs.contains (GeneralCategory.of x)
  | negated c, x => !contains c x
  | both c d, x => contains c x && contains d x
  | either c d, x => contains c x || contains d x
  | folded true c, x => contains c x || contains c (otherCase x)
  | folded false c, x => contains c x || (CaseFold.variants x).any (contains c)

def single (x : Char) : CharClass := range x x

def all : CharClass := range (Char.ofNat 0) (Char.ofNat 0x10FFFF)

def none : CharClass := negated all

def anyOf (cs : List CharClass) : CharClass := cs.foldr either none

/-- The class of what is in the first class and not in the second one. -/
def difference (c d : CharClass) : CharClass := both c (negated d)

def symmetricDifference (c d : CharClass) : CharClass := either (difference c d) (difference d c)

/-- Whether a class holds a code from 128 to 255, which is no character where bytes are matched. -/
def leavesAscii (c : CharClass) : Bool := (List.range 128).any fun n => contains c (Char.ofNat (n + 128))

def named? (name : List Char) : Option CharClass :=
  let upper := range 'A' 'Z'
  let lower := range 'a' 'z'
  let digits := range '0' '9'
  let punct := anyOf [range '!' '/', range ':' '@', range '[' (Char.ofNat 0x60), range '\x7b' '~']
  match String.ofList name with
  | "alnum" => some (anyOf [digits, upper, lower])
  | "alpha" => some (anyOf [upper, lower])
  | "ascii" => some (range (Char.ofNat 0) (Char.ofNat 0x7F))
  | "blank" => some (anyOf [single '\t', single ' '])
  | "cntrl" => some (anyOf [range (Char.ofNat 0) (Char.ofNat 0x1F), single (Char.ofNat 0x7F)])
  | "digit" => some digits
  | "graph" => some (range '!' '~')
  | "lower" => some lower
  | "print" => some (range ' ' '~')
  | "punct" => some punct
  | "space" => some asciiSpace
  | "upper" => some upper
  | "word" => some asciiWord
  | "xdigit" => some (anyOf [digits, range 'A' 'F', range 'a' 'f'])
  | _ => Option.none

end CharClass

end YamlInclude
