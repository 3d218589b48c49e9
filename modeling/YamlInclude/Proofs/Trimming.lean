import Mathlib.Data.List.DropRight
import YamlInclude.Text.Blank

/-! # Trimming

Trimming keeps a text without white space at its ends as it is and makes every text one. At the end of a text it
takes white space only, as much as there is.
-/

namespace YamlInclude

namespace Blank

variable {cs ds : List Char}

theorem isPrefix_trimEnd (cs : List Char) : trimEnd cs <+: cs := List.rdropWhile_prefix isBlank cs

theorem trimStart_of_head (h : ∀ c, cs.head? = some c → isBlank c = false) : trimStart cs = cs := by
  cases cs with
  | nil => rfl
  | cons c cs => rw [trimStart, List.dropWhile_cons, h c rfl, if_neg Bool.false_ne_true]

theorem trimEnd_of_getLast (h : ∀ c, cs.getLast? = some c → isBlank c = false) : trimEnd cs = cs := by
  apply List.rdropWhile_eq_self_iff.mpr
  intro hne
  rw [h _ (List.getLast?_eq_some_getLast hne)]
  exact Bool.false_ne_true

theorem isBlank_head_trimStart (cs : List Char) : ∀ c, (trimStart cs).head? = some c → isBlank c = false := by
  intro c hc
  have hhead := List.head?_dropWhile_not isBlank cs
  rw [trimStart] at hc
  rw [hc] at hhead
  simpa using hhead

theorem isBlank_getLast_trimEnd (cs : List Char) : ∀ c, (trimEnd cs).getLast? = some c → isBlank c = false := by
  intro c hc
  obtain ⟨hne, rfl⟩ := List.mem_getLast?_eq_getLast hc
  exact Bool.eq_false_iff.mpr (List.rdropWhile_last_not isBlank cs hne)

theorem trimEnd_trimEnd (cs : List Char) : trimEnd (trimEnd cs) = trimEnd cs :=
  trimEnd_of_getLast (isBlank_getLast_trimEnd cs)

theorem trimEnd_eq_nil_iff : trimEnd cs = [] ↔ cs.all isBlank = true := by
  rw [List.all_eq_true]
  exact List.rdropWhile_eq_nil_iff

theorem trimEnd_ne_nil {c : Char} (h : c ∈ cs) (hc : isBlank c = false) : trimEnd cs ≠ [] := by
  intro hnil
  rw [List.all_eq_true.mp (trimEnd_eq_nil_iff.mp hnil) c h] at hc
  cases hc

theorem exists_trimEnd_append (cs : List Char) : ∃ blank, cs = trimEnd cs ++ blank ∧ blank.all isBlank = true := by
  refine ⟨cs.rtakeWhile isBlank, List.rdropWhile_append_rtakeWhile.symm, ?_⟩
  exact List.all_eq_true.mpr fun c => List.mem_rtakeWhile_imp

theorem trimEnd_append_of_blank (h : ds.all isBlank = true) : trimEnd (cs ++ ds) = trimEnd cs := by
  rw [trimEnd, List.reverse_append, List.dropWhile_append_of_pos, trimEnd]
  simpa using h

theorem trimEnd_append (h : ds.all isBlank = false) : trimEnd (cs ++ ds) = cs ++ trimEnd ds := by
  have hne : trimEnd ds ≠ [] := by
    intro hnil
    rw [trimEnd_eq_nil_iff.mp hnil] at h
    cases h
  rw [trimEnd] at hne
  rw [trimEnd, List.reverse_append, List.dropWhile_append, if_neg (by simpa using hne), List.reverse_append,
    List.reverse_reverse, trimEnd]

/-- Text that starts without white space still does so when the white space at its end is gone. -/
theorem trimmed_trimEnd (h : ∀ c, cs.head? = some c → isBlank c = false) : Trimmed (trimEnd cs) := by
  constructor
  · intro c hc
    obtain ⟨rest, hrest⟩ := isPrefix_trimEnd cs
    apply h
    rw [← hrest, List.head?_append, hc, Option.some_or]
  · exact isBlank_getLast_trimEnd cs

theorem trimmed_trim (cs : List Char) : Trimmed (trim cs) := trimmed_trimEnd (isBlank_head_trimStart cs)

theorem Trimmed.trim_eq (h : Trimmed cs) : trim cs = cs := by
  rw [trim, trimStart_of_head h.1, trimEnd_of_getLast h.2]

theorem Trimmed.append (hcs : Trimmed cs) (hds : Trimmed ds) (hne : cs ≠ []) (hne' : ds ≠ []) (between : List Char) :
    Trimmed (cs ++ between ++ ds) := by
  constructor
  · intro c hc
    apply hcs.1
    rwa [List.append_assoc, List.head?_append_of_ne_nil _ hne] at hc
  · intro c hc
    apply hds.2
    rwa [List.getLast?_append_of_ne_nil _ hne'] at hc

end Blank

end YamlInclude
