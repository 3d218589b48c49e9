/-! # UTF-8

Bytes are read as characters. Where they are none, each longest start of a sequence that could have
become a character, or else each single byte, counts as one malformed sequence.
-/

namespace YamlInclude

namespace Utf8

/-- How many bytes follow a first byte, with the range of the second one. -/
def sequenceShape (first : Nat) : Option (Nat × Nat × Nat) :=
  if first < 0xC2 then none
  else if first < 0xE0 then some (1, 0x80, 0xBF)
  else if first = 0xE0 then some (2, 0xA0, 0xBF)
  else if first = 0xED then some (2, 0x80, 0x9F)
  else if first < 0xF0 then some (2, 0x80, 0xBF)
  else if first = 0xF0 then some (3, 0x90, 0xBF)
  else if first < 0xF4 then some (3, 0x80, 0xBF)
  else if first = 0xF4 then some (3, 0x80, 0x8F)
  else none

/-- The bits that a first byte with `more` bytes after it gives. -/
def leadBits (more first : Nat) : Nat := first % Nat.pow 2 (6 - more)

structure OpenSequence where
  /-- The bits that were read. -/
  value : Nat
  /-- How many bytes are missing after the next one. -/
  more : Nat
  /-- The range of the next byte. -/
  low : Nat
  high : Nat

/-- What a byte at the start of a sequence gives: a character or an open sequence, or neither. -/
def opening (n : Nat) : Option Char ⊕ OpenSequence :=
  if n < 0x80 then .inl (some (Char.ofNat n))
  else match sequenceShape n with
    | some (more, low, high) => .inr ⟨leadBits more n, more - 1, low, high⟩
    | none => .inl none

/-- Characters, with `none` for malformed sequences. -/
def scan : Option OpenSequence → List UInt8 → List (Option Char)
  | none, [] => []
  | some _, [] => [none]
  | none, b :: bs =>
    match opening b.toNat with
    | .inl c => c :: scan none bs
    | .inr s => scan (some s) bs
  | some s, b :: bs =>
    let n := b.toNat
    if s.low ≤ n ∧ n ≤ s.high then
      let value := s.value * 64 + n % 64
      match s.more with
      | 0 => some (Char.ofNat value) :: scan none bs
      | more + 1 => scan (some ⟨value, more, 0x80, 0xBF⟩) bs
    else none :: match opening n with
      | .inl c => c :: scan none bs
      | .inr s => scan (some s) bs

def decode? (bytes : List UInt8) : Option (List Char) := (scan none bytes).mapM id

def decodeLossy (bytes : List UInt8) : List Char := (scan none bytes).map (·.getD '\uFFFD')

def encodeChar (c : Char) : List UInt8 :=
  let n := c.toNat
  if n < 0x80 then [n.toUInt8]
  else if n < 0x800 then [(0xC0 + n / 64).toUInt8, (0x80 + n % 64).toUInt8]
  else if n < 0x10000 then
    [(0xE0 + n / 4096).toUInt8, (0x80 + n / 64 % 64).toUInt8, (0x80 + n % 64).toUInt8]
  else
    [(0xF0 + n / 262144).toUInt8, (0x80 + n / 4096 % 64).toUInt8, (0x80 + n / 64 % 64).toUInt8,
      (0x80 + n % 64).toUInt8]

def encode (cs : List Char) : List UInt8 := cs.flatMap encodeChar

end Utf8

end YamlInclude
