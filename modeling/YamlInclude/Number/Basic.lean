import YamlInclude.Number.Shortest

/-! # Numbers of documents

A number is an integer of 64 bits, signed or unsigned, or a binary64 number.
-/

namespace YamlInclude

/-- The integers that fit into 64 bits, with or without a sign. -/
structure WideInt where
  val : Int
  lower : -0x8000000000000000 ≤ val
  upper : val < 0x10000000000000000
  deriving DecidableEq

namespace WideInt

def ofInt? (n : Int) : Option WideInt :=
  if h : -0x8000000000000000 ≤ n ∧ n < 0x10000000000000000 then some ⟨n, h.1, h.2⟩ else none

@[simp] theorem ofInt?_val (n : WideInt) : ofInt? n.val = some n :=
  dif_pos ⟨n.lower, n.upper⟩

def text (n : WideInt) : List Char :=
  if n.val < 0 then '-' :: Nat.toDigits 10 n.val.natAbs else Nat.toDigits 10 n.val.natAbs

end WideInt

/-- A number of a document. -/
inductive Number where
  | int (n : WideInt)
  | float (x : Binary64)
  deriving DecidableEq

namespace Number

/-- Equality of keys: an integer never equals a float. -/
def same : Number → Number → Bool
  | int n, int m => n == m
  | float x, float y => x.same y
  | _, _ => false

end Number

end YamlInclude
