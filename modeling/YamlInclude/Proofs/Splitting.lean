import YamlInclude.Text.Split

/-! # Splitting and joining

The parts of a text have no separator in them. Joining them gives the text again, and parts without a separator are
the ones that their joined text is split into.
-/

namespace YamlInclude

variable {sep : Char} {cs ds : List Char}

/-! ## Parts of a text -/

theorem splitChar_ne_nil (sep : Char) (cs : List Char) : splitChar sep cs ≠ [] := by
  cases cs with
  | nil => exact List.cons_ne_nil _ _
  | cons c cs =>
    unfold splitChar
    split
    · exact List.cons_ne_nil _ _
    · split <;> exact List.cons_ne_nil _ _

theorem splitChar_of_not_mem (h : sep ∉ cs) : splitChar sep cs = [cs] := by
  induction cs with
  | nil => rfl
  | cons c cs ih =>
    obtain ⟨hc, hcs⟩ := List.ne_and_not_mem_of_not_mem_cons h
    rw [splitChar, if_neg hc.symm, ih hcs]

theorem splitChar_append : splitChar sep (cs ++ sep :: ds) = splitChar sep cs ++ splitChar sep ds := by
  induction cs with
  | nil => simp [splitChar]
  | cons c cs ih =>
    rw [List.cons_append, splitChar, splitChar, ih]
    split
    · rfl
    · obtain ⟨s, rest, hs⟩ := List.exists_cons_of_ne_nil (splitChar_ne_nil sep cs)
      rw [hs]
      rfl

theorem splitChar_concat {c : Char} (hc : c ≠ sep) (cs : List Char) :
    ∃ segments n, splitChar sep (cs ++ [c]) = segments ++ [n ++ [c]] := by
  induction cs with
  | nil => exact ⟨[], [], by simp [splitChar, hc]⟩
  | cons d cs ih =>
    obtain ⟨segments, n, hsplit⟩ := ih
    rw [List.cons_append, splitChar, hsplit]
    split
    · exact ⟨[] :: segments, n, rfl⟩
    · cases segments with
      | nil => exact ⟨[], d :: n, rfl⟩
      | cons s segments => exact ⟨(d :: s) :: segments, n, rfl⟩

theorem not_mem_of_mem_splitChar {s : List Char} (h : s ∈ splitChar sep cs) : sep ∉ s := by
  induction cs generalizing s with
  | nil =>
    rw [List.mem_singleton.mp h]
    simp
  | cons c cs ih =>
    obtain ⟨first, rest, hsplit⟩ := List.exists_cons_of_ne_nil (splitChar_ne_nil sep cs)
    unfold splitChar at h
    rw [hsplit] at h ih
    split at h
    · rcases List.mem_cons.mp h with rfl | h
      · simp
      · exact ih h
    next hc =>
      rcases List.mem_cons.mp h with rfl | h
      · have := ih List.mem_cons_self
        simp [Ne.symm hc, this]
      · exact ih (List.mem_cons_of_mem _ h)

/-! ## Joined parts -/

theorem joinChar_append {xs ys : List (List Char)} (h : xs ≠ []) (h' : ys ≠ []) :
    joinChar sep (xs ++ ys) = joinChar sep xs ++ sep :: joinChar sep ys := by
  induction xs with
  | nil => exact absurd rfl h
  | cons x xs ih =>
    cases xs with
    | nil =>
      obtain ⟨y, ys, rfl⟩ := List.exists_cons_of_ne_nil h'
      rfl
    | cons x' xs =>
      have := ih (List.cons_ne_nil _ _)
      simp only [List.cons_append, joinChar, List.append_assoc] at this ⊢
      rw [this]

theorem joinChar_append_singleton {xs : List (List Char)} (h : xs ≠ []) :
    joinChar sep (xs ++ [ds]) = joinChar sep xs ++ sep :: ds :=
  joinChar_append h (List.cons_ne_nil _ _)

theorem joinChar_splitChar (sep : Char) (cs : List Char) : joinChar sep (splitChar sep cs) = cs := by
  induction cs with
  | nil => rfl
  | cons c cs ih =>
    obtain ⟨s, rest, hs⟩ := List.exists_cons_of_ne_nil (splitChar_ne_nil sep cs)
    unfold splitChar
    rw [hs] at ih ⊢
    split
    next h =>
      rw [h, joinChar, ih, List.nil_append]
      exact List.cons_ne_nil _ _
    next =>
      cases rest with
      | nil => simpa [joinChar] using ih
      | cons s' rest => simpa [joinChar] using ih

theorem splitChar_joinChar {segments : List (List Char)} (hne : segments ≠ [])
    (h : ∀ s ∈ segments, sep ∉ s) : splitChar sep (joinChar sep segments) = segments := by
  induction segments with
  | nil => exact absurd rfl hne
  | cons s segments ih =>
    have hs := splitChar_of_not_mem (h s List.mem_cons_self)
    cases segments with
    | nil => exact hs
    | cons t segments =>
      have ih := ih (List.cons_ne_nil _ _) fun s hs => h s (List.mem_cons_of_mem _ hs)
      rw [joinChar, splitChar_append, hs, ih]
      · rfl
      · exact List.cons_ne_nil _ _

end YamlInclude
