import Mathlib
import YamlInclude.Text.Blank
import YamlInclude.Yaml.Scalar

/-! # Numerals

The decimal text of an integer is read as that integer. All texts of numbers, and all texts that are read
as numbers, are made of few characters, and not of dots alone.
-/

namespace YamlInclude

theorem isBlank_eq_false_of_isAlphanum {c : Char} (h : c.isAlphanum = true) : isBlank c = false := by
  have hrange : 48 ≤ c.toNat ∧ c.toNat ≤ 122 := by
    simp only [Char.isAlphanum, Char.isAlpha, Char.isUpper, Char.isLower, Char.isDigit, Bool.or_eq_true,
      Bool.and_eq_true, decide_eq_true_eq, ge_iff_le, UInt32.le_iff_toNat_le] at h
    obtain (⟨h₁, h₂⟩ | ⟨h₁, h₂⟩) | ⟨h₁, h₂⟩ := h
    all_goals exact ⟨Nat.le_trans (by decide) h₁, Nat.le_trans h₂ (by decide)⟩
  simp only [isBlank, Bool.or_eq_false_iff, Bool.and_eq_false_iff, decide_eq_false_iff_not, beq_eq_false_iff_ne]
  omega

/-- The characters of numbers and booleans: signs, points, digits, and letters. No number has the letter that
the extensions of file names have. -/
def isNumeralChar (c : Char) : Bool := (c.isAlphanum && c != 'y') || c == '+' || c == '-' || c == '.'

/-- Made of the characters of numbers, and not of dots alone. -/
structure IsNumeral (cs : List Char) : Prop where
  chars : ∀ c ∈ cs, isNumeralChar c = true
  notDots : ∃ c ∈ cs, c ≠ '.'

instance (cs : List Char) : Decidable (IsNumeral cs) :=
  decidable_of_iff ((cs.all isNumeralChar && cs.any (· != '.')) = true) <| by
    simp only [Bool.and_eq_true, List.all_eq_true, List.any_eq_true, bne_iff_ne]
    exact ⟨fun h => ⟨h.1, h.2⟩, fun h => ⟨h.chars, h.notDots⟩⟩

theorem isNumeralChar_of_isDigit {c : Char} (h : c.isDigit = true) : isNumeralChar c = true := by
  have hy : c ≠ 'y' := by
    rintro rfl
    cases h
  simp [isNumeralChar, Char.isAlphanum, h, hy]

theorem isAlphanum_of_digitValue? {c : Char} {n : Nat} (h : digitValue? c = some n) :
    c.isAlphanum = true ∧ c ≠ 'y' := by
  have hle (a b : Char) : a ≤ b ↔ a.val.toNat ≤ b.val.toNat := by rw [Char.le_def, UInt32.le_iff_toNat_le]
  have hy : c ≠ 'y' := by
    rintro rfl
    cases h
  refine ⟨?_, hy⟩
  simp only [Char.isAlphanum, Char.isAlpha, Char.isUpper, Char.isLower, Char.isDigit, Bool.or_eq_true,
    Bool.and_eq_true, decide_eq_true_eq, ge_iff_le, UInt32.le_iff_toNat_le]
  unfold digitValue? at h
  simp only [hle] at h
  split at h
  next hr => exact Or.inr hr
  split at h
  next hr => exact Or.inl (Or.inr ⟨hr.1, hr.2.trans (by decide)⟩)
  split at h
  next hr => exact Or.inl (Or.inl ⟨hr.1, hr.2.trans (by decide)⟩)
  cases h

theorem isNumeralChar_of_digitIn? {radix n : Nat} {c : Char} (h : digitIn? radix c = some n) :
    isNumeralChar c = true := by
  obtain ⟨hn, -⟩ := Option.filter_eq_some_iff.mp h
  obtain ⟨halnum, hy⟩ := isAlphanum_of_digitValue? hn
  simp [isNumeralChar, halnum, hy]

namespace IsNumeral

theorem ne_nil {cs : List Char} (h : IsNumeral cs) : cs ≠ [] := by
  rintro rfl
  obtain ⟨c, hc, -⟩ := h.notDots
  cases hc

theorem append_left {cs ds : List Char} (hds : IsNumeral ds) (hcs : ∀ c ∈ cs, isNumeralChar c = true) :
    IsNumeral (cs ++ ds) where
  chars c hc := (List.mem_append.mp hc).elim (hcs c) (hds.chars c)
  notDots := hds.notDots.imp fun _ h => ⟨List.mem_append_right _ h.1, h.2⟩

theorem append_right {cs ds : List Char} (hcs : IsNumeral cs) (hds : ∀ c ∈ ds, isNumeralChar c = true) :
    IsNumeral (cs ++ ds) where
  chars c hc := (List.mem_append.mp hc).elim (hcs.chars c) (hds c)
  notDots := hcs.notDots.imp fun _ h => ⟨List.mem_append_left _ h.1, h.2⟩

theorem cons {c : Char} {cs : List Char} (h : IsNumeral cs) (hc : isNumeralChar c = true) : IsNumeral (c :: cs) :=
  ⟨List.forall_mem_cons.mpr ⟨hc, h.chars⟩, h.notDots.imp fun _ h => ⟨List.mem_cons_of_mem _ h.1, h.2⟩⟩

theorem of_head {c : Char} {cs : List Char} (hc : isNumeralChar c = true ∧ c ≠ '.')
    (hcs : ∀ d ∈ cs, isNumeralChar d = true) : IsNumeral (c :: cs) :=
  ⟨List.forall_mem_cons.mpr ⟨hc.1, hcs⟩, c, List.mem_cons_self, hc.2⟩

theorem of_isDigit {cs : List Char} (hne : cs ≠ []) (h : ∀ c ∈ cs, c.isDigit = true) : IsNumeral cs where
  chars c hc := isNumeralChar_of_isDigit (h c hc)
  notDots := by
    obtain ⟨c, hc⟩ := List.exists_mem_of_ne_nil cs hne
    refine ⟨c, hc, ?_⟩
    rintro rfl
    exact absurd (h _ hc) (by decide)

end IsNumeral

def digitStep (radix n : Nat) (c : Char) : Option Nat := (digitIn? radix c).map (n * radix + ·)

theorem digitIn?_digitChar {d : Nat} (h : d < 10) : digitIn? 10 d.digitChar = some d := by
  interval_cases d <;> rfl

theorem foldlM_toDigits (n : Nat) : (Nat.toDigits 10 n).foldlM (digitStep 10) 0 = some n := by
  induction n using Nat.strongRecOn with
  | ind n ih =>
    by_cases hn : n < 10
    · simp [Nat.toDigits_of_lt_base hn, digitStep, digitIn?_digitChar hn]
    · have hd : n % 10 < 10 := Nat.mod_lt _ (by decide)
      have happend := Nat.toDigits_append_toDigits (b := 10) (by decide) (show 0 < n / 10 by omega) hd
      rw [Nat.div_add_mod, Nat.toDigits_of_lt_base hd] at happend
      rw [← happend, List.foldlM_append, ih (n / 10) (by omega)]
      simp only [digitStep, List.foldlM_cons, List.foldlM_nil, digitIn?_digitChar hd, Option.map_some]
      exact congrArg some (by omega)

theorem readNatural?_toDigits (n : Nat) : readNatural? 10 (Nat.toDigits 10 n) = some n := by
  have hne : (Nat.toDigits 10 n).isEmpty = false := by simp [Nat.toDigits_ne_nil]
  simp only [readNatural?, hne, Bool.false_eq_true, if_false]
  exact foldlM_toDigits n

theorem digitIn?_of_foldlM {radix n m : Nat} {cs : List Char} (h : cs.foldlM (digitStep radix) n = some m) :
    ∀ c ∈ cs, ∃ d, digitIn? radix c = some d := by
  induction cs generalizing n with
  | nil => simp
  | cons c cs ih =>
    rw [List.foldlM_cons] at h
    obtain ⟨k, hk, hrest⟩ := Option.bind_eq_some_iff.mp h
    obtain ⟨d, hd, -⟩ := Option.map_eq_some_iff.mp hk
    rintro e (- | ⟨-, he⟩)
    · exact ⟨d, hd⟩
    · exact ih hrest e he

theorem IsNumeral.of_readNatural? {radix n : Nat} {cs : List Char} (h : readNatural? radix cs = some n) :
    IsNumeral cs := by
  unfold readNatural? at h
  split at h
  · cases h
  next hne =>
    have hdigit := digitIn?_of_foldlM (n := 0) h
    refine ⟨fun c hc => isNumeralChar_of_digitIn? (hdigit c hc).choose_spec, ?_⟩
    obtain ⟨c, hc⟩ := List.exists_mem_of_ne_nil cs (by simpa using hne)
    refine ⟨c, hc, ?_⟩
    rintro rfl
    obtain ⟨d, hd⟩ := hdigit _ hc
    obtain ⟨hvalue, -⟩ := Option.filter_eq_some_iff.mp hd
    cases hvalue

theorem toDigits_eq_cons (n : Nat) :
    ∃ c cs, Nat.toDigits 10 n = c :: cs ∧ c.isDigit = true ∧ (c = '0' → cs = []) := by
  induction n using Nat.strongRecOn with
  | ind n ih =>
    by_cases hn : n < 10
    · exact ⟨_, [], Nat.toDigits_of_lt_base hn, by simpa [Nat.isDigit_digitChar] using hn, fun _ => rfl⟩
    · have hd : n % 10 < 10 := Nat.mod_lt _ (by decide)
      have happend := Nat.toDigits_append_toDigits (b := 10) (by decide) (show 0 < n / 10 by omega) hd
      rw [Nat.div_add_mod] at happend
      obtain ⟨c, cs, heq, hc, hzero⟩ := ih (n / 10) (by omega)
      refine ⟨c, cs ++ Nat.toDigits 10 (n % 10), by rw [← happend, heq]; rfl, hc, ?_⟩
      rintro rfl
      have hread := readNatural?_toDigits (n / 10)
      rw [heq, hzero rfl, show readNatural? 10 ['0'] = some 0 by decide] at hread
      have := Option.some.inj hread
      omega

namespace Decimal

theorem isNumeralChar_of_readExponent? {cs : List Char} {e : Int} (h : readExponent? cs = some e) :
    ∀ c ∈ cs, isNumeralChar c = true := by
  unfold readExponent? at h
  split at h
  · simp
  next c cs =>
    split at h
    · cases h
    next hmark =>
      have hc : isNumeralChar c = true := by
        simp only [Bool.and_eq_true, bne_iff_ne, not_and_or, not_not] at hmark
        rcases hmark with rfl | rfl <;> rfl
      have hcs : ∀ d ∈ cs, isNumeralChar d = true := by
        split at h
        all_goals
          obtain ⟨m, hm, -⟩ := Option.map_eq_some_iff.mp h
          obtain ⟨n, hn, -⟩ := Option.bind_eq_some_iff.mp hm
        · exact ((IsNumeral.of_readNatural? hn).cons (by decide)).chars
        · exact ((IsNumeral.of_readNatural? hn).cons (by decide)).chars
        · exact (IsNumeral.of_readNatural? hn).chars
      simpa using ⟨hc, hcs⟩

theorem isNumeral_digits {cs rest part : List Char} (point : List Char)
    (hsplit : cs.dropWhile Char.isDigit = point ++ part ++ rest) (hpoint : ∀ c ∈ point, c = '.')
    (hpart : ∀ c ∈ part, c.isDigit = true) (hne : cs.takeWhile Char.isDigit ≠ [] ∨ part ≠ [])
    (hrest : ∀ c ∈ rest, isNumeralChar c = true) : IsNumeral cs := by
  have hwhole : ∀ c ∈ cs.takeWhile Char.isDigit, c.isDigit = true := fun c hc => List.mem_takeWhile_imp hc
  have hpoint' : ∀ c ∈ point, isNumeralChar c = true := fun c hc => hpoint c hc ▸ by decide
  have hpart' : ∀ c ∈ part, isNumeralChar c = true := fun c hc => isNumeralChar_of_isDigit (hpart c hc)
  rw [← List.takeWhile_append_dropWhile (p := Char.isDigit) (l := cs), hsplit]
  rcases hne with hne | hne
  · refine (IsNumeral.of_isDigit hne hwhole).append_right ?_
    simpa [or_imp, forall_and] using ⟨hpoint', hpart', hrest⟩
  · refine (((IsNumeral.of_isDigit hne hpart).append_left hpoint').append_right hrest).append_left ?_
    exact fun c hc => isNumeralChar_of_isDigit (hwhole c hc)

theorem isNumeral_of_read? {cs : List Char} {d : Decimal} (h : read? cs = some d) : IsNumeral cs := by
  unfold read? at h
  split at h
  next negative unsigned hsign =>
    have hunsigned : IsNumeral unsigned := by
      split at h
      next part rest hsplit =>
        dsimp only at h
        split at h
        · cases h
        next hne =>
          obtain ⟨e, he, -⟩ := Option.map_eq_some_iff.mp h
          have hne' : unsigned.takeWhile Char.isDigit ≠ [] ∨ part ≠ [] := by
            simpa [-List.takeWhile_eq_nil_iff, Classical.or_iff_not_imp_left] using hne
          have hrest := isNumeralChar_of_readExponent? he
          split at hsplit
          next r hdrop =>
            obtain ⟨rfl, rfl⟩ := Prod.mk.inj hsplit
            refine isNumeral_digits ['.'] ?_ (by simp) (fun c hc => List.mem_takeWhile_imp hc) hne' hrest
            rw [hdrop, List.append_assoc, List.takeWhile_append_dropWhile]
            rfl
          · obtain ⟨rfl, rfl⟩ := Prod.mk.inj hsplit
            exact isNumeral_digits [] rfl (by simp) (by simp) hne' hrest
    split at hsign
    all_goals obtain ⟨-, rfl⟩ := Prod.mk.inj hsign
    · exact hunsigned.cons (by decide)
    · exact hunsigned.cons (by decide)
    · exact hunsigned

end Decimal

namespace NumeralLayout

theorem isNumeral_layout (style : NumeralLayout) {digits : List Char} {e : Int}
    (h : ∀ c ∈ digits, c.isDigit = true) : IsNumeral (style.layout digits e) := by
  have hdigits : ∀ c ∈ digits, isNumeralChar c = true := fun c hc => isNumeralChar_of_isDigit (h c hc)
  have hzeros (n : Nat) : ∀ c ∈ List.replicate n '0', isNumeralChar c = true := fun c hc =>
    List.eq_of_mem_replicate hc ▸ by decide
  have hpoint (cs : List Char) (hcs : ∀ c ∈ cs, isNumeralChar c = true) :
      ∀ c ∈ '.' :: cs, isNumeralChar c = true := List.forall_mem_cons.mpr ⟨by decide, hcs⟩
  unfold layout
  dsimp only
  split
  · exact IsNumeral.append_left (by decide) (List.forall_mem_append.mpr ⟨hdigits, hzeros _⟩)
  split
  next hne hwithin =>
    refine IsNumeral.append_right (.of_isDigit ?_ fun c hc => h c (List.mem_of_mem_take hc))
      (hpoint _ fun c hc => hdigits c (List.mem_of_mem_drop hc))
    intro hnil
    have := congrArg List.length hnil
    simp only [List.length_take, List.length_nil] at this
    omega
  split
  · exact IsNumeral.of_head (by decide)
      (hpoint _ (List.forall_mem_append.mpr ⟨hzeros _, hdigits⟩))
  · refine IsNumeral.append_left (.of_head (by decide) ?_) ?_
    · refine List.forall_mem_append.mpr ⟨?_, fun c hc => isNumeralChar_of_isDigit
        (Nat.isDigit_of_mem_toDigits (by decide) (by decide) hc)⟩
      split
      · exact List.forall_mem_singleton.mpr (by decide)
      split
      · exact List.forall_mem_singleton.mpr (by decide)
      · nofun
    · split
      · exact List.forall_mem_singleton.mpr (by decide)
      · exact hdigits
      next d ds _ =>
        obtain ⟨hd, hds⟩ := List.forall_mem_cons.mp hdigits
        exact List.forall_mem_cons.mpr ⟨hd, hpoint _ hds⟩

theorem isDigit_dropZeros {digits kept : List Char} {e e' : Int} (h : ∀ c ∈ digits, c.isDigit = true)
    (hkept : dropZeros digits e = (kept, e')) : ∀ c ∈ kept, c.isDigit = true := by
  obtain ⟨rfl, -⟩ := Prod.mk.inj hkept
  intro c hc
  have hc := (List.dropWhile_sublist _).subset (List.mem_reverse.mp hc)
  exact h c (List.mem_reverse.mp hc)

theorem isNumeral_write (style : NumeralLayout) (x : Binary64) : IsNumeral (style.write x) := by
  have hsign (body : List Char) (h : IsNumeral body) : IsNumeral (if x.isNegative then '-' :: body else body) := by
    split
    · exact h.cons (by decide)
    · exact h
  unfold write
  refine hsign _ ?_
  split
  · decide
  · obtain ⟨n, e⟩ := x.shortest
    dsimp only
    cases hkept : dropZeros (Nat.toDigits 10 n) e with
    | mk digits e' =>
      have hdigits (c : Char) := Nat.isDigit_of_mem_toDigits (b := 10) (n := n) (c := c) (by decide) (by decide)
      exact isNumeral_layout style (isDigit_dropZeros hdigits hkept)

end NumeralLayout

namespace Yaml.Scalar

theorem splitSign_of_isDigit {c : Char} {cs : List Char} (h : c.isDigit = true) :
    splitSign (c :: cs) = (false, c :: cs) := by
  unfold splitSign
  split
  next heq => obtain ⟨rfl, -⟩ := List.cons.inj heq; cases h
  next heq => obtain ⟨rfl, -⟩ := List.cons.inj heq; cases h
  · rfl

theorem isNumeral_splitSign {cs : List Char} (h : IsNumeral (splitSign cs).2) : IsNumeral cs := by
  unfold splitSign at h
  split at h
  · exact h.cons (by decide)
  · exact h.cons (by decide)
  · exact h

theorem isNumeral_of_natural? {cs : List Char} {n : Nat} (h : natural? cs = some n) : IsNumeral cs := by
  unfold natural? at h
  split at h
  · exact ((IsNumeral.of_readNatural? h).cons (by decide)).cons (by decide)
  · exact ((IsNumeral.of_readNatural? h).cons (by decide)).cons (by decide)
  · exact ((IsNumeral.of_readNatural? h).cons (by decide)).cons (by decide)
  · split at h
    · cases h
    · exact .of_readNatural? h

theorem isNumeral_of_integer? {cs : List Char} {n : Int} (h : integer? cs = some n) : IsNumeral cs := by
  obtain ⟨k, hk, -⟩ := Option.bind_eq_some_iff.mp h
  exact isNumeral_splitSign (isNumeral_of_natural? hk)

theorem isNumeral_of_float? {cs : List Char} {x : Binary64} (h : float? cs = some x) : IsNumeral cs := by
  have hword (ws : List String) (hws : ∀ w ∈ ws, IsNumeral w.toList) (hcs : ws.contains (String.ofList cs) = true) :
      IsNumeral cs := by
    have := hws _ (List.contains_iff_mem.mp hcs)
    rwa [String.toList_ofList] at this
  unfold float? at h
  dsimp only at h
  split at h
  next hinf => exact hword _ (by decide) hinf
  split at h
  next hinf => exact hword _ (by decide) hinf
  split at h
  next hnan => exact hword _ (by decide) hnan
  obtain ⟨d, hd, -⟩ := Option.bind_eq_some_iff.mp h
  exact Decimal.isNumeral_of_read? hd

theorem isNumeral_of_bool? {cs : List Char} {b : Bool} (h : bool? cs = some b) : IsNumeral cs := by
  have hword (ws : List String) (hws : ∀ w ∈ ws, IsNumeral w.toList)
      (hcs : (ws.any fun s => s.toList = cs) = true) : IsNumeral cs := by
    obtain ⟨w, hw, heq⟩ := List.any_eq_true.mp hcs
    exact of_decide_eq_true heq ▸ hws w hw
  unfold bool? at h
  split at h
  next htrue => exact hword _ (by decide) htrue
  split at h
  next hfalse => exact hword _ (by decide) hfalse
  cases h

theorem natural?_toDigits (n : Nat) : natural? (Nat.toDigits 10 n) = some n := by
  obtain ⟨c, cs, heq, hc, hzero⟩ := toDigits_eq_cons n
  have hdigit : ∀ d ∈ Nat.toDigits 10 n, d.isDigit = true := fun d =>
    Nat.isDigit_of_mem_toDigits (by decide) (by decide)
  unfold natural?
  split
  next h => have := hdigit 'x' (by rw [h]; simp); cases this
  next h => have := hdigit 'o' (by rw [h]; simp); cases this
  next h => have := hdigit 'b' (by rw [h]; simp); cases this
  · have hlead : hasLeadingZero (Nat.toDigits 10 n) = false := by
      rw [hasLeadingZero, heq, splitSign_of_isDigit hc]
      simp only
      split
      next hcons =>
        obtain ⟨rfl, rfl⟩ := List.cons.inj hcons
        cases hzero rfl
      · rfl
    rw [hlead]
    exact readNatural?_toDigits n

theorem integer?_text (n : WideInt) : integer? n.text = some n.val := by
  have hlower := n.lower
  have hupper := n.upper
  unfold WideInt.text
  split
  next hneg =>
    have hle : n.val.natAbs ≤ Nat.pow 2 127 := by
      have : (0x8000000000000000 : Nat) ≤ Nat.pow 2 127 := by decide
      omega
    simp only [integer?, splitSign, natural?_toDigits, Option.bind_some, if_true, hle]
    exact congrArg some (by omega)
  next hpos =>
    obtain ⟨c, cs, heq, hc, -⟩ := toDigits_eq_cons n.val.natAbs
    have hlt : n.val.natAbs < Nat.pow 2 128 := by
      have : (0x10000000000000000 : Nat) ≤ Nat.pow 2 128 := by decide
      omega
    have hsplit : splitSign (Nat.toDigits 10 n.val.natAbs) = (false, Nat.toDigits 10 n.val.natAbs) := by
      rw [heq, splitSign_of_isDigit hc]
    simp only [integer?, hsplit, natural?_toDigits, Option.bind_some, Bool.false_eq_true, if_false, hlt, if_true]
    exact congrArg some (by omega)

/-- The text of an integer begins with a sign or a digit, so it names no other value. -/
theorem text_eq_cons (n : WideInt) :
    ∃ c cs, n.text = c :: cs ∧ (c = '-' ∨ c.isDigit = true) := by
  obtain ⟨c, cs, heq, hc, -⟩ := toDigits_eq_cons n.val.natAbs
  unfold WideInt.text
  split
  · exact ⟨'-', _, rfl, Or.inl rfl⟩
  · exact ⟨c, cs, heq, Or.inr hc⟩

/-- The text of an integer is read as that integer. -/
theorem ofPlain_text (n : WideInt) : ofPlain (String.ofList n.text) = .ok (.number (.int n)) := by
  obtain ⟨c, cs, heq, hc⟩ := text_eq_cons n
  have hhead (d : Char) (ds : List Char) (hd : d ≠ '-' ∧ d.isDigit = false) : d :: ds ≠ n.text := by
    rintro h
    rw [heq] at h
    obtain ⟨rfl, -⟩ := List.cons.inj h
    rcases hc with rfl | hc
    · exact hd.1 rfl
    · rw [hd.2] at hc
      cases hc
  have hempty : n.text.isEmpty = false := by rw [heq]; rfl
  have hnull : isNull n.text = false := by
    simp only [isNull, List.any_cons, List.any_nil, Bool.or_false, Bool.or_eq_false_iff, decide_eq_false_iff_not]
    refine ⟨?_, ?_, ?_, ?_⟩ <;> exact hhead _ _ (by decide)
  have hbool : bool? n.text = none := by
    simp only [bool?, List.any_cons, List.any_nil, Bool.or_false, Bool.or_eq_true, decide_eq_true_eq]
    rw [if_neg, if_neg]
    · rintro (h | h | h) <;> exact hhead _ _ (by decide) h
    · rintro (h | h | h) <;> exact hhead _ _ (by decide) h
  simp [ofPlain, hempty, hnull, hbool, integer?_text, ofInteger]

theorem isNumeral_text (n : WideInt) : IsNumeral n.text := isNumeral_of_integer? (integer?_text n)

theorem isNumeral_toString (b : Bool) : IsNumeral (toString b).toList := by cases b <;> decide

theorem isNumeral_numberText (n : Number) : IsNumeral (numberText n).toList := by
  unfold numberText
  split
  · rw [String.toList_ofList]
    exact isNumeral_text _
  split
  · decide
  split
  · split <;> decide
  · rw [String.toList_ofList]
    exact NumeralLayout.isNumeral_write _ _

end Yaml.Scalar

end YamlInclude
