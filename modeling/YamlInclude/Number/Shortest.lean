import YamlInclude.Number.Decimal

/-! # Shortest numerals

The fewest digits that read back to a binary64 number, and their layout as text.
-/

namespace YamlInclude

namespace Binary64

/-- The numbers read as `x` lie between these quarters of the unit `2 ^ (exponent - 2)`. -/
def quarters (x : Binary64) : Nat × Nat :=
  let m := x.significand
  let below := if m = Nat.pow 2 52 ∧ Nat.pow 2 53 ≤ x.magnitude then 1 else 2
  (4 * m - below, 4 * m + 2)

/-- The greatest `e` with `10 ^ e ≤ num / den`, for quotients within the range of binary64. -/
def decimalExponent (num den : Nat) : Int :=
  ((Nat.toDigits 10 (num * Nat.pow 10 400 / den)).length : Int) - 401

/-- A multiple of `10 ^ e` that reads back as the finite number `x`, the nearest such multiple if there are two. -/
def onGrid? (x : Binary64) (e : Int) : Option Nat :=
  let (lo, hi) := x.quarters
  let (unitNum, unitDen) := scale 1 1 (x.exponent - 2)
  let (gridNum, gridDen) : Nat × Nat := if 0 ≤ e then (Nat.pow 10 e.toNat, 1) else (1, Nat.pow 10 (-e).toNat)
  let unit := unitNum * gridDen
  let grid := gridNum * unitDen
  let value := 4 * x.significand * unit
  let inside (n : Nat) : Bool :=
    if x.significand % 2 = 0 then lo * unit ≤ n * grid && n * grid ≤ hi * unit
    else lo * unit < n * grid && n * grid < hi * unit
  let low := value / grid
  let twice := 2 * (value % grid)
  let lowFirst := twice < grid || (twice == grid && low % 2 == 0)
  let (first, second) := if lowFirst then (low, low + 1) else (low + 1, low)
  if 0 < first && inside first then some first
  else if 0 < second && inside second then some second
  else none

/-- The first of `count` ever finer grids, from `10 ^ e` down, that holds a numeral of `x`. -/
def firstGrid (x : Binary64) (e : Int) : Nat → Nat × Int
  | 0 => (x.significand, x.exponent)
  | count + 1 => match onGrid? x e with
    | some n => (n, e)
    | none => firstGrid x (e - 1) count

/-- The fewest digits that read back as the finite non-zero number `x`, with the exponent of the last one. -/
def shortest (x : Binary64) : Nat × Int :=
  let (num, den) := x.ratio
  firstGrid x (decimalExponent num den) 20

end Binary64

structure NumeralLayout where
  /-- Whether a positive exponent carries its sign. -/
  plusSign : Bool

namespace NumeralLayout

/-- Positional notation from `10 ^ -5` up to `10 ^ 16`, scientific notation outside. -/
def layout (style : NumeralLayout) (digits : List Char) (e : Int) : List Char :=
  let n : Int := digits.length
  let point := n + e
  if 0 ≤ e ∧ point ≤ 16 then digits ++ List.replicate e.toNat '0' ++ ['.', '0']
  else if 0 < point ∧ point ≤ 16 then digits.take point.toNat ++ '.' :: digits.drop point.toNat
  else if -5 < point ∧ point ≤ 0 then '0' :: '.' :: (List.replicate (-point).toNat '0' ++ digits)
  else
    let mantissa := match digits with
      | [] => ['0']
      | [d] => [d]
      | d :: ds => d :: '.' :: ds
    let shown := point - 1
    let sign := if shown < 0 then ['-'] else if style.plusSign then ['+'] else []
    mantissa ++ 'e' :: (sign ++ Nat.toDigits 10 shown.natAbs)

/-- Digits without the zeros at their end, and the exponent raised by their count. -/
def dropZeros (digits : List Char) (e : Int) : List Char × Int :=
  let kept := (digits.reverse.dropWhile (· == '0')).reverse
  (kept, e + (digits.length - kept.length : Nat))

def write (style : NumeralLayout) (x : Binary64) : List Char :=
  let body := if x.isZero then ['0', '.', '0'] else
    let (n, e) := x.shortest
    let (digits, e) := dropZeros (Nat.toDigits 10 n) e
    style.layout digits e
  if x.isNegative then '-' :: body else body

end NumeralLayout

end YamlInclude
