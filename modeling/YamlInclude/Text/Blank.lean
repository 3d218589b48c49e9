/-! # White space

The Unicode property `White_Space`, which decides what trimming removes and where an anchor name ends.
-/

namespace YamlInclude

/-- The characters with the Unicode property `White_Space`. -/
def isBlank (c : Char) : Bool :=
  let n := c.toNat
  (0x9 ≤ n && n ≤ 0xD) || n == 0x20 || n == 0x85 || n == 0xA0 || n == 0x1680 ||
    (0x2000 ≤ n && n ≤ 0x200A) || n == 0x2028 || n == 0x2029 || n == 0x202F ||
    n == 0x205F || n == 0x3000

namespace Blank

def trimStart (cs : List Char) : List Char := cs.dropWhile isBlank

def trimEnd (cs : List Char) : List Char := (cs.reverse.dropWhile isBlank).reverse

def trim (cs : List Char) : List Char := trimEnd (trimStart cs)

/-- A text that neither starts nor ends with white space. -/
def Trimmed (cs : List Char) : Prop :=
  (∀ c, cs.head? = some c → isBlank c = false) ∧ ∀ c, cs.getLast? = some c → isBlank c = false

end Blank

def trimmed (s : String) : String := String.ofList (Blank.trim s.toList)

end YamlInclude
