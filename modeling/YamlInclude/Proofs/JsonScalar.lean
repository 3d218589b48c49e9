import YamlInclude.Json.Parser
import YamlInclude.Json.Printer
import YamlInclude.Proofs.Numeral

/-! # Numbers and strings in JSON text

An integer that is written is read back in front of any text that cannot continue a number. A string that is
written is read back in front of any text.
-/

namespace YamlInclude.Json

/-- Whether a text cannot continue a number. -/
def EndsNumber : List Char → Prop
  | [] => True
  | c :: _ => c.isDigit = false ∧ c ≠ '.' ∧ c ≠ 'e' ∧ c ≠ 'E'

section Numbers

variable {rest : List Char} {c d : Char}

theorem ne_of_startsNumber (hc : c = '-' ∨ c.isDigit = true) (hd : d ≠ '-' ∧ d.isDigit = false) : c ≠ d := by
  rintro rfl
  rcases hc with rfl | hc
  · exact hd.1 rfl
  · rw [hd.2] at hc
    cases hc

theorem isSpace_of_startsNumber (hc : c = '-' ∨ c.isDigit = true) : isSpace c = false := by
  simp only [isSpace, Bool.or_eq_false_iff, beq_eq_false_iff_ne]
  refine ⟨⟨⟨?_, ?_⟩, ?_⟩, ?_⟩ <;> exact ne_of_startsNumber hc (by decide)

theorem digitChar_toNat {d : Nat} (h : d < 10) : d.digitChar.toNat - '0'.toNat = d := by
  interval_cases d <;> rfl

/-- The digits of a number that fits into 64 bits come to that number, and none is left over. -/
theorem pushAll_toDigits {n : Nat} (h : n < 0x10000000000000000) :
    (Significand.mk 0 0).pushAll (Nat.toDigits 10 n) = ⟨n, 0⟩ := by
  induction n using Nat.strongRecOn with
  | ind n ih =>
    by_cases hn : n < 10
    · simp only [Nat.toDigits_of_lt_base hn, Significand.pushAll, List.foldl_cons, List.foldl_nil,
        Significand.push, digitChar_toNat hn, Nat.zero_mul, Nat.zero_add]
      rw [if_pos ⟨trivial, h⟩]
    · have hd : n % 10 < 10 := Nat.mod_lt _ (by decide)
      have happend := Nat.toDigits_append_toDigits (b := 10) (by decide) (show 0 < n / 10 by omega) hd
      rw [Nat.div_add_mod, Nat.toDigits_of_lt_base hd] at happend
      have hinit := ih (n / 10) (by omega) (by omega)
      have hvalue : n / 10 * 10 + n % 10 = n := by omega
      rw [Significand.pushAll] at hinit ⊢
      rw [← happend, List.foldl_append, hinit]
      simp only [List.foldl_cons, List.foldl_nil, Significand.push, digitChar_toNat hd, hvalue]
      rw [if_pos ⟨trivial, h⟩]

theorem takeWhile_digits {ds : List Char} (hds : ∀ c ∈ ds, c.isDigit = true) (h : EndsNumber rest) :
    (ds ++ rest).takeWhile Char.isDigit = ds := by
  rw [List.takeWhile_append_of_pos hds]
  cases rest with
  | nil => simp
  | cons c rest => simp [h.1]

theorem dropWhile_digits {ds : List Char} (hds : ∀ c ∈ ds, c.isDigit = true) (h : EndsNumber rest) :
    (ds ++ rest).dropWhile Char.isDigit = rest := by
  rw [List.dropWhile_append_of_pos hds]
  cases rest with
  | nil => rfl
  | cons c rest => simp [h.1]

theorem readUnsigned_toDigits (negative : Bool) {n : Nat} (hn : n < 0x10000000000000000)
    (h : EndsNumber rest) :
    readUnsigned negative (Nat.toDigits 10 n ++ rest) = .ok (integerOf negative n, rest) := by
  have hdigit : ∀ d ∈ Nat.toDigits 10 n, d.isDigit = true := fun d =>
    Nat.isDigit_of_mem_toDigits (by decide) (by decide)
  have htake := takeWhile_digits hdigit h
  have hdrop := dropWhile_digits hdigit h
  obtain ⟨c, cs, heq, hc, hzero⟩ := toDigits_eq_cons n
  have hlead : ¬ (c = '0' ∧ 1 < (c :: cs).length) := by
    rintro ⟨rfl, hlength⟩
    rw [hzero rfl] at hlength
    exact absurd hlength (by decide)
  have hvalue := pushAll_toDigits hn
  rw [heq] at htake hdrop hvalue ⊢
  rw [List.cons_append] at htake hdrop ⊢
  simp only [readUnsigned, hc, htake, hdrop, hvalue, if_neg hlead, Bool.not_true, Bool.false_eq_true, if_false]
  -- what follows decides whether the number goes on
  split
  · exact absurd rfl h.2.1
  · exact absurd rfl h.2.2.1
  · exact absurd rfl h.2.2.2
  · rfl

theorem integerOf_of_val {negative : Bool} {m : Nat} (n : WideInt)
    (hval : n.val = if negative then -(m : Int) else m) (hzero : negative = true → m ≠ 0) :
    integerOf negative m = .int n := by
  have hfit := WideInt.ofInt?_val n
  have hplain : (negative && decide (m = 0)) = false := by
    cases negative with
    | true => simpa using hzero rfl
    | false => rfl
  rw [hval] at hfit
  rw [integerOf, hfit]
  simp only [hplain, Bool.false_eq_true, if_false]

theorem readNumber_text (n : WideInt) (h : EndsNumber rest) :
    readNumber (n.text ++ rest) = .ok (.int n, rest) := by
  have hlower := n.lower
  have hupper := n.upper
  have habs : n.val.natAbs < 0x10000000000000000 := by omega
  unfold WideInt.text
  split
  next hneg =>
    have hval : n.val = -(n.val.natAbs : Int) := by omega
    have hint : integerOf true n.val.natAbs = .int n :=
      integerOf_of_val n hval fun _ => by omega
    rw [List.cons_append, readNumber, readUnsigned_toDigits true habs h, hint]
  next hpos =>
    have hval : n.val = (n.val.natAbs : Int) := by omega
    have hint : integerOf false n.val.natAbs = .int n := integerOf_of_val n hval nofun
    have hread := readUnsigned_toDigits false habs h
    obtain ⟨c, cs, heq, hc, -⟩ := toDigits_eq_cons n.val.natAbs
    rw [hint, heq] at hread
    rw [heq, List.cons_append] at *
    unfold readNumber
    split
    next hminus =>
      obtain ⟨rfl, -⟩ := List.cons.inj hminus
      cases hc
    · exact hread

end Numbers

section Strings

variable {cs rest : List Char} {c : Char} {fuel : Nat}

theorem digitValue?_hexDigit {d : Nat} (h : d < 16) : digitValue? (hexDigit d) = some d := by
  interval_cases d <;> rfl

theorem length_le_byteLength (cs : List Char) : cs.length ≤ byteLength cs := by
  suffices h : ∀ n, n + cs.length ≤ cs.foldl (fun n c => n + c.utf8Size) n by simpa [byteLength] using h 0
  induction cs with
  | nil => simp
  | cons c cs ih =>
    intro n
    have := ih (n + c.utf8Size)
    have := c.utf8Size_pos
    rw [List.length_cons, List.foldl_cons]
    omega

theorem readCode_hexDigits (hc : c.toNat < 32) :
    readCode ('0' :: '0' :: hexDigit (c.toNat / 16) :: hexDigit (c.toNat % 16) :: cs) = .ok (c, cs) := by
  have hlength := length_le_byteLength ('0' :: '0' :: hexDigit (c.toNat / 16) :: hexDigit (c.toNat % 16) :: cs)
  have hhigh := digitValue?_hexDigit (d := c.toNat / 16) (by omega)
  have hlow := digitValue?_hexDigit (d := c.toNat % 16) (by omega)
  have hzero : digitValue? '0' = some 0 := by decide
  have hvalue : ((0 * 16 + 0) * 16 + c.toNat / 16) * 16 + c.toNat % 16 = c.toNat := by omega
  have hhex : readHex ('0' :: '0' :: hexDigit (c.toNat / 16) :: hexDigit (c.toNat % 16) :: cs) =
      .ok (c.toNat, cs) := by
    simp only [List.length_cons] at hlength
    rw [readHex, if_neg (by omega)]
    simp only [hzero, hhigh, hlow, hvalue]
  have hsurrogate : ¬ ((0xDC00 ≤ c.toNat && c.toNat ≤ 0xDFFF) = true) := by simp; omega
  have hplain : (c.toNat < 0xD800 || 0xDBFF < c.toNat) = true := by simp; omega
  simp only [readCode, hhex, bind, Except.bind]
  rw [if_neg hsurrogate, if_pos hplain, Char.ofNat_toNat]

theorem readChars_writeChar (fuel : Nat) (c : Char) (cs : List Char) :
    readChars (fuel + 1) (writeChar c ++ cs) =
      (readChars fuel cs).bind fun p => .ok (c :: p.1, p.2) := by
  unfold writeChar
  split_ifs with hquote hslash hb hf hn hr ht hcontrol
  all_goals try subst c
  all_goals try rfl
  · simp only [List.cons_append, List.nil_append]
    rw [readChars, if_neg (by decide), if_pos rfl, readEscape, readCode_hexDigits hcontrol]
    rfl
  · simp only [List.cons_append, List.nil_append]
    rw [readChars, if_neg hquote, if_neg hslash, if_neg hcontrol]
    rfl

theorem readChars_writeChars (h : cs.length < fuel) :
    readChars fuel (writeChars cs ++ '"' :: rest) = .ok (cs, rest) := by
  induction cs generalizing fuel with
  | nil =>
    obtain ⟨fuel, rfl⟩ := Nat.exists_eq_succ_of_ne_zero (by omega : fuel ≠ 0)
    rfl
  | cons c cs ih =>
    obtain ⟨fuel, rfl⟩ := Nat.exists_eq_succ_of_ne_zero (by omega : fuel ≠ 0)
    rw [writeChars, List.append_assoc, readChars_writeChar, ih (Nat.lt_of_succ_lt_succ h)]
    rfl

theorem length_le_writeChars (cs : List Char) : cs.length ≤ (writeChars cs).length := by
  induction cs with
  | nil => simp
  | cons c cs ih =>
    have hpos : 0 < (writeChar c).length := by
      unfold writeChar
      split_ifs <;> simp
    rw [writeChars, List.length_append, List.length_cons]
    omega

/-- A string is read back after its opening quote. -/
theorem readString_writeChars (s : String) (rest : List Char) :
    readString (writeChars s.toList ++ '"' :: rest) = .ok (s, rest) := by
  have hlength := length_le_writeChars s.toList
  unfold readString
  rw [readChars_writeChars (by simp; omega)]
  exact congrArg (fun t => Except.ok (t, rest)) s.ofList_toList

end Strings

end YamlInclude.Json
