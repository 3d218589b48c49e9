/-! # Binary64 numbers

Floating-point numbers as their 64 bits. A finite number is `significand * 2 ^ exponent`, and
every result is the nearest number to an exact quotient of naturals, halves going to the even one.
-/

namespace YamlInclude

/-- Quotient rounded to the nearest natural, a half to the even neighbour. -/
def roundHalfEven (num den : Nat) : Nat :=
  let q := num / den
  let twice := 2 * (num % den)
  if twice < den then q else if den < twice then q + 1 else if q % 2 = 0 then q else q + 1

structure Binary64 where
  bits : UInt64
  deriving DecidableEq

namespace Binary64

/-- The bits below the sign. -/
def magnitude (x : Binary64) : Nat := x.bits.toNat % Nat.pow 2 63

def isNegative (x : Binary64) : Bool := Nat.pow 2 63 ≤ x.bits.toNat

/-- Magnitude of the infinities; those above it are not numbers. -/
def infiniteMagnitude : Nat := 2047 * Nat.pow 2 52

def isNaN (x : Binary64) : Bool := infiniteMagnitude < x.magnitude

def isInfinite (x : Binary64) : Bool := x.magnitude == infiniteMagnitude

def isFinite (x : Binary64) : Bool := x.magnitude < infiniteMagnitude

def isZero (x : Binary64) : Bool := x.magnitude == 0

def significand (x : Binary64) : Nat :=
  if x.magnitude < Nat.pow 2 52 then x.magnitude else Nat.pow 2 52 + x.magnitude % Nat.pow 2 52

def exponent (x : Binary64) : Int := (max (x.magnitude / Nat.pow 2 52) 1 : Nat) - 1075

def ofMagnitude (negative : Bool) (m : Nat) : Binary64 :=
  ⟨UInt64.ofNat (if negative then Nat.pow 2 63 + m else m)⟩

def zero (negative : Bool) : Binary64 := ofMagnitude negative 0

def infinity (negative : Bool) : Binary64 := ofMagnitude negative infiniteMagnitude

def nan : Binary64 := ofMagnitude false (infiniteMagnitude + Nat.pow 2 51)

/-- The pair `(num, den)` multiplied by `2 ^ e`, kept as a quotient of naturals. -/
def scale (num den : Nat) (e : Int) : Nat × Nat :=
  if 0 ≤ e then (num * Nat.pow 2 e.toNat, den) else (num, den * Nat.pow 2 (-e).toNat)

/-- The greatest `e` with `2 ^ e ≤ num / den`. -/
def binaryExponent (num den : Nat) : Int :=
  let e : Int := (num.log2 : Int) - (den.log2 : Int)
  let (n, d) := scale num den (-e)
  if d ≤ n then e else e - 1

/-- The number nearest to `num / den`, infinite beyond the finite range. -/
def nearest (negative : Bool) (num den : Nat) : Binary64 :=
  if num = 0 then zero negative else
    let q := max (binaryExponent num den - 52) (-1074)
    let (n, d) := scale num den (-q)
    let m := (q + 1074).toNat * Nat.pow 2 52 + roundHalfEven n d
    if infiniteMagnitude ≤ m then infinity negative else ofMagnitude negative m

/-- Numerator and denominator of the magnitude of a finite number. -/
def ratio (x : Binary64) : Nat × Nat := scale x.significand 1 x.exponent

def mul (x y : Binary64) : Binary64 :=
  let (a, b) := x.ratio
  let (c, d) := y.ratio
  nearest (x.isNegative != y.isNegative) (a * c) (b * d)

def div (x y : Binary64) : Binary64 :=
  let (a, b) := x.ratio
  let (c, d) := y.ratio
  nearest (x.isNegative != y.isNegative) (a * d) (b * c)

def neg (x : Binary64) : Binary64 := ofMagnitude (!x.isNegative) x.magnitude

/-- Equality of keys: both zeros are one key, and so is every NaN. -/
def same (x y : Binary64) : Bool :=
  x == y || (x.isZero && y.isZero) || (x.isNaN && y.isNaN)

end Binary64

end YamlInclude
