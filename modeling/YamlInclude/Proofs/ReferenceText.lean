import Mathlib.Data.List.Infix
import YamlInclude.Include.Reference
import YamlInclude.Proofs.Trimming

/-! # Texts of references

What is read from a text has a path without white space at its ends and without a star behind a space, and its
anchor, if it has one, is no empty text and has no white space at its ends. The references of this form are the
ones that their own texts are read as.
-/

namespace YamlInclude

namespace Reference

open Blank

variable {before after cs : List Char} {r : Reference}

def Starless (cs : List Char) : Prop := ¬ [' ', '*'] <:+: cs

/-! ## Splitting -/

theorem splitStar_cons {c : Char} (h : ¬ [' ', '*'] <+: c :: cs) :
    splitStar (c :: cs) = (splitStar cs).map fun (before, after) => (c :: before, after) := by
  rw [splitStar]
  rintro rest rfl rfl
  exact h (List.prefix_append [' ', '*'] rest)

theorem starless_cons_iff {c : Char} : Starless (c :: cs) ↔ ¬ [' ', '*'] <+: c :: cs ∧ Starless cs := by
  rw [Starless, List.infix_cons_iff, not_or, Starless]

theorem splitStar_eq_none (h : Starless cs) : splitStar cs = none := by
  induction cs with
  | nil => rfl
  | cons c cs ih =>
    obtain ⟨hc, hcs⟩ := starless_cons_iff.mp h
    rw [splitStar_cons hc, ih hcs]
    rfl

/-- The first star behind a space stands where it was put, because the text before it can only end in the space. -/
theorem splitStar_append (h : Starless before) :
    splitStar (before ++ ' ' :: '*' :: after) = some (before, after) := by
  induction before with
  | nil => rfl
  | cons c before ih =>
    obtain ⟨hc, hbefore⟩ := starless_cons_iff.mp h
    have hstep : ¬ [' ', '*'] <+: c :: (before ++ ' ' :: '*' :: after) := by
      intro hmark
      cases before with
      | nil => simp [List.cons_prefix_cons] at hmark
      | cons d before => exact hc (by simpa [List.cons_prefix_cons] using hmark)
    rw [List.cons_append, splitStar_cons hstep, ih hbefore]
    rfl

theorem starless_or_star (cs : List Char) :
    Starless cs ∨ ∃ before after, cs = before ++ ' ' :: '*' :: after ∧ Starless before := by
  induction cs with
  | nil => exact Or.inl (by simp [Starless])
  | cons c cs ih =>
    by_cases hc : [' ', '*'] <+: c :: cs
    · obtain ⟨after, hafter⟩ := hc
      exact Or.inr ⟨[], after, hafter.symm, by simp [Starless]⟩
    rcases ih with hcs | ⟨before, after, rfl, hbefore⟩
    · exact Or.inl (starless_cons_iff.mpr ⟨hc, hcs⟩)
    · refine Or.inr ⟨c :: before, after, rfl, starless_cons_iff.mpr ⟨?_, hbefore⟩⟩
      intro hmark
      exact hc (hmark.trans (List.prefix_append _ _))

/-! ## Reading back -/

/-- Whether a reference has the form of those that are read from texts. -/
structure WellFormed (r : Reference) : Prop where
  path_trimmed : Trimmed r.path.toList
  path_starless : Starless r.path.toList
  anchor_trimmed : ∀ a, r.anchor = some a → Trimmed a.toList
  anchor_ne_empty : ∀ a, r.anchor = some a → a ≠ ""
  /-- An anchor cannot stand alone: the star of its text would be at the start, with no space before it. -/
  path_ne_empty : r.anchor.isSome = true → r.path ≠ ""

theorem parse_of_starless {raw : String} (h : Starless (trim raw.toList)) :
    parse raw = ⟨String.ofList (trim raw.toList), none⟩ := by
  simp only [parse, splitStar_eq_none h]

theorem parse_of_star {raw : String} (h : trim raw.toList = before ++ ' ' :: '*' :: after) (hbefore : Starless before) :
    parse raw = ⟨String.ofList (trimEnd before),
      if (trim after).isEmpty then none else some (String.ofList (trim after))⟩ := by
  simp only [parse, h, splitStar_append hbefore]

theorem wellFormed_of_starless (h : Starless cs) (htrim : Trimmed cs) : WellFormed ⟨String.ofList cs, none⟩ where
  path_trimmed := by simpa using htrim
  path_starless := by simpa using h
  anchor_trimmed := by simp
  anchor_ne_empty := by simp
  path_ne_empty := by simp

theorem wellFormed_parse (raw : String) : (parse raw).WellFormed := by
  have htrim := trimmed_trim raw.toList
  rcases starless_or_star (trim raw.toList) with h | ⟨before, after, h, hbefore⟩
  · rw [parse_of_starless h]
    exact wellFormed_of_starless h htrim
  rw [parse_of_star h hbefore]
  -- the text does not start with the space of the star, so there is a path before it
  obtain ⟨c, hc⟩ : ∃ c, before.head? = some c := by
    cases before with
    | nil => exact absurd (htrim.1 ' ' (by rw [h]; rfl)) (by decide)
    | cons c before => exact ⟨c, rfl⟩
  have hhead : ∀ d, before.head? = some d → isBlank d = false := by
    intro d hd
    apply htrim.1
    rw [h, List.head?_append, hd, Option.some_or]
  have hpath : Trimmed (trimEnd before) := trimmed_trimEnd hhead
  have hne : trimEnd before ≠ [] := trimEnd_ne_nil (List.mem_of_head? hc) (hhead c hc)
  have hstarless : Starless (trimEnd before) := fun hmark => hbefore (hmark.trans (isPrefix_trimEnd before).isInfix)
  constructor
  · simpa using hpath
  · simpa using hstarless
  · intro a ha
    obtain ⟨-, rfl⟩ := by simpa using ha
    simpa using trimmed_trim after
  · intro a ha
    obtain ⟨hname, rfl⟩ := by simpa using ha
    simpa using hname
  · intro _
    simpa using hne

theorem WellFormed.parse_text (h : r.WellFormed) : parse r.text = r := by
  obtain ⟨path, anchor⟩ := r
  cases anchor with
  | none =>
    have htrim : trim path.toList = path.toList := h.path_trimmed.trim_eq
    rw [text, parse_of_starless (by rw [htrim]; exact h.path_starless), htrim, String.ofList_toList]
  | some a =>
    have hpath : path.toList ≠ [] := by simpa using h.path_ne_empty rfl
    have ha : a.toList ≠ [] := by simpa using h.anchor_ne_empty a rfl
    have hanchor : Trimmed a.toList := h.anchor_trimmed a rfl
    have htext : trim (path ++ " *" ++ a).toList = path.toList ++ ' ' :: '*' :: a.toList := by
      have hends := h.path_trimmed.append hanchor hpath ha [' ', '*']
      have hsplit : (path ++ " *" ++ a).toList = path.toList ++ [' ', '*'] ++ a.toList := by simp
      rw [hsplit, hends.trim_eq]
      simp
    rw [text, parse_of_star htext h.path_starless, trimEnd_of_getLast h.path_trimmed.2, hanchor.trim_eq]
    simp [ha]

/-- References are read back from their texts exactly if they have the form of those that are read from any text. -/
theorem reference_reads_back_iff :
    (∀ raw, (parse raw).WellFormed ∧ parse (parse raw).text = parse raw) ∧
      ∀ r : Reference, parse r.text = r ↔ r.WellFormed := by
  constructor
  · intro raw
    exact ⟨wellFormed_parse raw, (wellFormed_parse raw).parse_text⟩
  · intro r
    constructor
    · intro h
      rw [← h]
      exact wellFormed_parse r.text
    · exact WellFormed.parse_text

example : parse " a.yml  *b *c" = ⟨"a.yml", some "b *c"⟩ := by decide +kernel

end Reference

end YamlInclude
