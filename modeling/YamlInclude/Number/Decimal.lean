import YamlInclude.Number.Binary64

/-! # Decimal numerals

A decimal numeral is `digits * 10 ^ exponent` with a sign. Its value is the nearest binary64 number.
-/

namespace YamlInclude

/-- The number `± digits * 10 ^ exponent`. -/
structure Decimal where
  negative : Bool
  digits : Nat
  exponent : Int
  deriving DecidableEq, Repr

def digitValue? (c : Char) : Option Nat :=
  if '0' ≤ c ∧ c ≤ '9' then some (c.toNat - '0'.toNat)
  else if 'a' ≤ c ∧ c ≤ 'f' then some (c.toNat - 'a'.toNat + 10)
  else if 'A' ≤ c ∧ c ≤ 'F' then some (c.toNat - 'A'.toNat + 10)
  else none

def digitIn? (radix : Nat) (c : Char) : Option Nat := (digitValue? c).filter (· < radix)

def readNatural? (radix : Nat) (cs : List Char) : Option Nat :=
  if cs.isEmpty then none else cs.foldlM (fun n c => (digitIn? radix c).map (n * radix + ·)) 0

def decimalValue (cs : List Char) : Nat := cs.foldl (fun n c => n * 10 + (c.toNat - '0'.toNat)) 0

namespace Decimal

/-- Far outside the range of binary64 in either direction. -/
def exponentLimit : Int := 400

def toBinary64 (d : Decimal) : Binary64 :=
  let size : Int := (Nat.toDigits 10 d.digits).length + d.exponent
  if d.digits = 0 then Binary64.zero d.negative
  else if exponentLimit < size then Binary64.infinity d.negative
  else if size < -exponentLimit then Binary64.zero d.negative
  else if 0 ≤ d.exponent then Binary64.nearest d.negative (d.digits * Nat.pow 10 d.exponent.toNat) 1
  else Binary64.nearest d.negative d.digits (Nat.pow 10 (-d.exponent).toNat)

/-- An optional exponent part, up to the end of the text. -/
def readExponent? : List Char → Option Int
  | [] => some 0
  | c :: cs =>
    if c != 'e' && c != 'E' then none else
      match cs with
      | '-' :: ds => (readNatural? 10 ds).map fun n => -(n : Int)
      | '+' :: ds => (readNatural? 10 ds).map fun n => (n : Int)
      | ds => (readNatural? 10 ds).map fun n => (n : Int)

/-- A numeral with an optional sign, digits with at most one point among them, and an optional exponent. -/
def read? (cs : List Char) : Option Decimal :=
  let (negative, cs) := match cs with
    | '-' :: r => (true, r)
    | '+' :: r => (false, r)
    | r => (false, r)
  let whole := cs.takeWhile Char.isDigit
  let (part, rest) := match cs.dropWhile Char.isDigit with
    | '.' :: r => (r.takeWhile Char.isDigit, r.dropWhile Char.isDigit)
    | r => ([], r)
  if whole.isEmpty && part.isEmpty then none else
    (readExponent? rest).map fun e => ⟨negative, decimalValue (whole ++ part), e - part.length⟩

end Decimal

end YamlInclude
