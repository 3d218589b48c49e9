import Mathlib
import YamlInclude.Text.Utf8

/-! # The order of texts by their bytes

The bytes of texts are in the order of the texts' characters. The first byte of a character does not get smaller as its
number grows, and where it stays the same the bytes after it are the lower digits of the number.
-/

namespace YamlInclude

namespace Utf8

variable {i j k n m : Nat} {x y : List UInt8} {a b : List Char} {c d : Char}

/-! ## Bytes -/

theorem toNat_toUInt8 (hi : i < 256) : i.toUInt8.toNat = i := UInt8.toNat_ofNat_of_lt hi

/-- Bytes are in order if their first ones are, or if these are the same and those that follow are in order. -/
theorem cons_lt_cons (hle : i ≤ j) (hj : j < 256) (h : i = j → x < y) : i.toUInt8 :: x < j.toUInt8 :: y := by
  rw [List.cons_lt_cons_iff, UInt8.lt_iff_toNat_lt, toNat_toUInt8 hj, toNat_toUInt8 (hle.trans_lt hj)]
  rcases hle.lt_or_eq with hlt | heq
  · exact Or.inl hlt
  · exact Or.inr ⟨by rw [heq], h heq⟩

def continuation (n : Nat) : Nat → List UInt8
  | 0 => []
  | k + 1 => (0x80 + n / 64 ^ k % 64).toUInt8 :: continuation n k

theorem continuation_append_lt (h : n < m) (hsame : n / 64 ^ k = m / 64 ^ k) (x y : List UInt8) :
    continuation n k ++ x < continuation m k ++ y := by
  induction k with
  | zero =>
    rw [pow_zero, Nat.div_one, Nat.div_one] at hsame
    exact absurd hsame h.ne
  | succ k ih =>
    have hle : n / 64 ^ k ≤ m / 64 ^ k := Nat.div_le_div_right h.le
    rw [pow_succ, ← Nat.div_div_eq_div_mul, ← Nat.div_div_eq_div_mul] at hsame
    exact cons_lt_cons (by omega) (by omega) fun heq => ih (by omega)

/-! ## Characters -/

def width (n : Nat) : Nat := if n < 0x80 then 0 else if n < 0x800 then 1 else if n < 0x10000 then 2 else 3

def lead (n : Nat) : Nat :=
  if n < 0x80 then n
  else if n < 0x800 then 0xC0 + n / 64
  else if n < 0x10000 then 0xE0 + n / 4096
  else 0xF0 + n / 262144

theorem encodeChar_eq (c : Char) : encodeChar c = (lead c.toNat).toUInt8 :: continuation c.toNat (width c.toNat) := by
  unfold encodeChar lead width
  dsimp only
  split_ifs <;> simp [continuation]

theorem lead_lt (h : n < 0x110000) : lead n < 256 := by
  unfold lead
  split_ifs <;> omega

theorem lead_mono (h : n ≤ m) (hm : m < 0x110000) : lead n ≤ lead m := by
  unfold lead
  split_ifs <;> omega

theorem width_eq_of_lead (h : lead n = lead m) (hn : n < 0x110000) (hm : m < 0x110000) : width n = width m := by
  unfold lead at h
  unfold width
  split_ifs at h ⊢ <;> omega

theorem div_eq_of_lead (h : lead n = lead m) (hn : n < 0x110000) (hm : m < 0x110000) :
    n / 64 ^ width n = m / 64 ^ width n := by
  unfold lead at h
  unfold width
  split_ifs at h ⊢ <;> omega

theorem toNat_lt (c : Char) : c.toNat < 0x110000 := by
  rcases c.valid with h | ⟨-, h⟩
  · exact h.trans (by decide)
  · exact h

theorem encodeChar_append_lt (h : c < d) (x y : List UInt8) : encodeChar c ++ x < encodeChar d ++ y := by
  have hlt : c.toNat < d.toNat := UInt32.lt_iff_toNat_lt.mp (Char.lt_def.mp h)
  have hd := toNat_lt d
  rw [encodeChar_eq, encodeChar_eq, List.cons_append, List.cons_append]
  refine cons_lt_cons (lead_mono hlt.le hd) (lead_lt hd) fun heq => ?_
  rw [← width_eq_of_lead heq (toNat_lt c) hd]
  exact continuation_append_lt hlt (div_eq_of_lead heq (toNat_lt c) hd) x y

theorem encode_lt_encode (h : a < b) : encode a < encode b := by
  induction h with
  | @nil c b =>
    have hnil : encode [] < encodeChar c ++ encode b := by
      rw [encodeChar_eq]
      exact List.nil_lt_cons _ _
    exact hnil
  | cons _ ih => exact List.append_left_lt ih
  | rel h => exact encodeChar_append_lt h _ _

end Utf8

end YamlInclude
