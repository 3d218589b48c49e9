import YamlInclude.Include.Anchor
import YamlInclude.Proofs.Splitting
import YamlInclude.Proofs.Trimming

/-! # Markers at the end of a text

The lines of a text are looked at from the end. White space goes away as long as markers do, one line after the
other, up to a line that is neither; without a marker nothing does. What is left of a text is left as it is when
it is stripped again, and an entry that is added to it starts a line.
-/

namespace YamlInclude

open Blank

section Lines

variable {lines : List (List Char)} {line : List Char}

theorem joinLines_concat_append (lines : List (List Char)) (s t : List Char) :
    joinLines (lines ++ [s ++ t]) = joinLines (lines ++ [s]) ++ t := by
  by_cases h : lines = []
  · subst h
    rfl
  · rw [joinLines, joinLines, joinChar_append_singleton h, joinChar_append_singleton h, List.append_assoc,
      List.cons_append]

theorem trimEnd_joinLines_of_blank (h : isBlankLine line = true) :
    trimEnd (joinLines (lines ++ [line])) = trimEnd (joinLines lines) := by
  by_cases hlines : lines = []
  · subst hlines
    change trimEnd ([] ++ line) = trimEnd []
    exact trimEnd_append_of_blank h
  · have hall : ('\n' :: line).all isBlank = true := by
      rw [List.all_cons, Bool.and_eq_true]
      exact ⟨by decide, h⟩
    rw [joinLines, joinChar_append_singleton hlines, trimEnd_append_of_blank hall, joinLines]

theorem trimEnd_joinLines (h : isBlankLine line = false) :
    trimEnd (joinLines (lines ++ [line])) = joinLines (lines ++ [trimEnd line]) := by
  have hadded := joinLines_concat_append lines [] line
  rw [List.nil_append] at hadded
  rw [hadded, trimEnd_append h, ← joinLines_concat_append, List.nil_append]

end Lines

namespace Anchor

variable {text left result line : List Char} {lines before after : List (List Char)} {gone : Bool}

/-- A line that goes away at the end of a text when a marker does. -/
def isIdle (line : List Char) : Bool := isBlankLine line || isMarker line

def endsInMarker (lines : List (List Char)) : Bool :=
  (lines.filter fun line => !isBlankLine line).getLast?.any isMarker

theorem isMarker_of_blank (h : isBlankLine line = true) : isMarker line = false := by
  rw [isMarker, trimEnd_eq_nil_iff.mpr h]
  rfl

theorem isMarker_trimEnd (line : List Char) : isMarker (trimEnd line) = isMarker line := by
  rw [isMarker, trimEnd_trimEnd, isMarker]

theorem isBlankLine_trimEnd (line : List Char) : isBlankLine (trimEnd line) = isBlankLine line := by
  rw [Bool.eq_iff_iff, isBlankLine, isBlankLine, ← trimEnd_eq_nil_iff, ← trimEnd_eq_nil_iff, trimEnd_trimEnd]

theorem isIdle_of_blank (h : isBlankLine line = true) : isIdle line = true := by rw [isIdle, h, Bool.true_or]

theorem isIdle_of_isMarker (h : isMarker line = true) : isIdle line = true := by rw [isIdle, h, Bool.or_true]

theorem isIdle_eq_false_iff : isIdle line = false ↔ isBlankLine line = false ∧ isMarker line = false :=
  Bool.or_eq_false_iff

theorem endsInMarker_of_blank (h : isBlankLine line = true) : endsInMarker (lines ++ [line]) = endsInMarker lines := by
  simp [endsInMarker, h]

theorem endsInMarker_concat (h : isBlankLine line = false) : endsInMarker (lines ++ [line]) = isMarker line := by
  simp [endsInMarker, h]

/-- A marker is among the lines that may go away exactly if the last line that is not blank is one. -/
theorem any_isMarker_rtakeWhile (lines : List (List Char)) :
    (lines.rtakeWhile isIdle).any isMarker = endsInMarker lines := by
  induction lines using List.reverseRecOn with
  | nil => rfl
  | append_singleton lines line ih =>
    cases hblank : isBlankLine line with
    | true =>
      rw [endsInMarker_of_blank hblank, List.rtakeWhile_concat_pos _ _ _ (isIdle_of_blank hblank), List.any_append, ih]
      simp [isMarker_of_blank hblank]
    | false =>
      rw [endsInMarker_concat hblank]
      cases hmarker : isMarker line with
      | true =>
        rw [List.rtakeWhile_concat_pos _ _ _ (isIdle_of_isMarker hmarker)]
        simp [hmarker]
      | false =>
        rw [List.rtakeWhile_concat_neg _ _ _ (Bool.eq_false_iff.mp (isIdle_eq_false_iff.mpr ⟨hblank, hmarker⟩))]
        rfl

theorem stripMarkers_eq (text : List Char) : stripMarkers text =
    if endsInMarker (splitLines text) then trimEnd (joinLines ((splitLines text).rdropWhile isIdle)) else text := by
  rw [← any_isMarker_rtakeWhile, List.rtakeWhile, List.any_reverse]
  rfl

theorem stripMarkers_of_not_endsInMarker (h : endsInMarker (splitLines text) = false) : stripMarkers text = text := by
  rw [stripMarkers_eq, h, if_neg Bool.false_ne_true]

/-! ## Turns -/

/-- One turn of stripping: what stands before the last line that is not blank, if that is a marker. -/
def stripLine? (text : List Char) : Option (List Char) :=
  let lines := splitLines (trimEnd text)
  if lines.getLast?.any isMarker then some (joinLines lines.dropLast) else none

/-- Whether turn after turn ends with a result, from what is left of a text and whether a marker of it is gone. -/
inductive Strips (text : List Char) : List Char → Bool → List Char → Prop
  | again {left rest result : List Char} {gone : Bool} (hturn : stripLine? left = some rest)
      (h : Strips text rest true result) : Strips text left gone result
  | trimmed {left : List Char} (hturn : stripLine? left = none) : Strips text left true (trimEnd left)
  | untouched {left : List Char} (hturn : stripLine? left = none) : Strips text left false text

theorem Strips.unique {result' : List Char} (h : Strips text left gone result) (h' : Strips text left gone result') :
    result = result' := by
  induction h with
  | again hturn _ ih =>
    cases h' with
    | again hturn' h' =>
      obtain rfl := Option.some.inj (hturn.symm.trans hturn')
      exact ih h'
    | trimmed hturn' => cases hturn.symm.trans hturn'
    | untouched hturn' => cases hturn.symm.trans hturn'
  | trimmed hturn =>
    cases h' with
    | again hturn' => cases hturn.symm.trans hturn'
    | trimmed => rfl
  | untouched hturn =>
    cases h' with
    | again hturn' => cases hturn.symm.trans hturn'
    | untouched => rfl

theorem Strips.congr {left' : List Char} (h : Strips text left gone result) (heq : trimEnd left = trimEnd left') :
    Strips text left' gone result := by
  have hsame : stripLine? left = stripLine? left' := by rw [stripLine?, heq, stripLine?]
  cases h with
  | again hturn h => exact .again (hsame ▸ hturn) h
  | trimmed hturn =>
    rw [heq]
    exact .trimmed (hsame ▸ hturn)
  | untouched hturn => exact .untouched (hsame ▸ hturn)

theorem splitLines_trimEnd (hlines : ∀ l ∈ lines ++ [line], '\n' ∉ l) :
    splitLines (joinLines (lines ++ [trimEnd line])) = lines ++ [trimEnd line] := by
  apply splitChar_joinChar (by simp)
  intro l hl
  rcases List.mem_append.mp hl with hl | hl
  · exact hlines l (List.mem_append_left _ hl)
  · obtain rfl := List.mem_singleton.mp hl
    exact fun hmem => hlines line (by simp) ((isPrefix_trimEnd line).subset hmem)

theorem stripLine?_joinLines (hlines : ∀ l ∈ lines ++ [line], '\n' ∉ l) (h : isBlankLine line = false) :
    stripLine? (joinLines (lines ++ [line])) = if isMarker line then some (joinLines lines) else none := by
  simp only [stripLine?, trimEnd_joinLines h, splitLines_trimEnd hlines, List.getLast?_concat, List.dropLast_concat,
    Option.any_some, isMarker_trimEnd]

theorem strips_joinLines (hlines : ∀ l ∈ lines, '\n' ∉ l) : Strips text (joinLines lines) gone
    (if gone || endsInMarker lines then trimEnd (joinLines (lines.rdropWhile isIdle)) else text) := by
  -- from the last line on: a blank one is passed over, a marker takes one turn, another one ends the run
  induction lines using List.reverseRecOn generalizing gone with
  | nil =>
    cases gone with
    | false => exact .untouched rfl
    | true => exact .trimmed rfl
  | append_singleton lines line ih =>
    have ih (gone : Bool) := @ih gone fun l hl => hlines l (List.mem_append_left _ hl)
    cases hblank : isBlankLine line with
    | true =>
      rw [endsInMarker_of_blank hblank, List.rdropWhile_concat_pos _ _ _ (isIdle_of_blank hblank)]
      exact (ih gone).congr (trimEnd_joinLines_of_blank hblank).symm
    | false =>
      have hturn := stripLine?_joinLines hlines hblank
      rw [endsInMarker_concat hblank]
      cases hmarker : isMarker line with
      | true =>
        rw [List.rdropWhile_concat_pos _ _ _ (isIdle_of_isMarker hmarker), Bool.or_true]
        rw [hmarker, if_pos rfl] at hturn
        exact .again hturn (ih true)
      | false =>
        have hstays : isIdle line = false := isIdle_eq_false_iff.mpr ⟨hblank, hmarker⟩
        rw [List.rdropWhile_concat_neg _ _ _ (Bool.eq_false_iff.mp hstays), Bool.or_false]
        rw [hmarker, if_neg Bool.false_ne_true] at hturn
        cases gone with
        | false => exact .untouched hturn
        | true => exact .trimmed hturn

theorem strips_stripMarkers (text : List Char) : Strips text text false (stripMarkers text) := by
  have h : Strips text (joinLines (splitLines text)) false _ :=
    strips_joinLines fun l hl => not_mem_of_mem_splitChar hl
  rw [joinLines, splitLines, joinChar_splitChar, Bool.false_or] at h
  rw [stripMarkers_eq]
  exact h

/-! ## What is left -/

/-- Whether stripping stops at a line of a text, with the lines before it kept and those behind it gone. -/
structure StopsAt (text : List Char) (before : List (List Char)) (line : List Char) (after : List (List Char)) :
    Prop where
  lines_eq : splitLines text = before ++ [line] ++ after
  stays : isIdle line = false
  after_ne_nil : after ≠ []
  idle : ∀ l ∈ after, isIdle l = true
  left_eq : stripMarkers text = joinLines (before ++ [trimEnd line])

/-- A text that ends in a marker goes away, or stripping stops at a line of it. -/
theorem stripMarkers_cases (h : endsInMarker (splitLines text) = true) :
    (stripMarkers text = [] ∧ ∀ l ∈ splitLines text, isIdle l = true) ∨
      ∃ before line after, StopsAt text before line after := by
  have hleft : stripMarkers text = trimEnd (joinLines ((splitLines text).rdropWhile isIdle)) := by
    rw [stripMarkers_eq, if_pos h]
  rcases List.eq_nil_or_concat ((splitLines text).rdropWhile isIdle) with hkept | ⟨before, line, hkept⟩
  · refine Or.inl ⟨by rw [hleft, hkept]; rfl, ?_⟩
    exact List.rdropWhile_eq_nil_iff.mp hkept
  rw [List.concat_eq_append] at hkept
  have hstays : isIdle line = false := by
    have hlast := List.rdropWhile_last_not isIdle (splitLines text) (by simp [hkept])
    simpa [hkept] using hlast
  refine Or.inr ⟨before, line, (splitLines text).rtakeWhile isIdle, ?_⟩
  constructor
  case lines_eq =>
    rw [← hkept]
    exact List.rdropWhile_append_rtakeWhile.symm
  case stays => exact hstays
  case after_ne_nil =>
    intro hnil
    rw [← any_isMarker_rtakeWhile, hnil] at h
    cases h
  case idle => exact fun l => List.mem_rtakeWhile_imp
  case left_eq => rw [hleft, hkept, trimEnd_joinLines (isIdle_eq_false_iff.mp hstays).1]

theorem StopsAt.noBreak (h : StopsAt text before line after) : ∀ l ∈ before ++ [line] ++ after, '\n' ∉ l := by
  intro l hl
  exact not_mem_of_mem_splitChar (h.lines_eq ▸ hl)

theorem StopsAt.splitLines_left (h : StopsAt text before line after) :
    splitLines (stripMarkers text) = before ++ [trimEnd line] := by
  rw [h.left_eq]
  exact splitLines_trimEnd fun l hl => h.noBreak l (List.mem_append_left _ hl)

/-- Behind what is left stand the white space of its last line and the lines that went away. -/
theorem StopsAt.exists_dropped (h : StopsAt text before line after) :
    ∃ blank dropped, text = stripMarkers text ++ dropped ∧ splitLines dropped = blank :: after ∧
      isBlankLine blank = true := by
  obtain ⟨blank, hline, hblank⟩ := exists_trimEnd_append line
  have htext : text = stripMarkers text ++ (blank ++ '\n' :: joinLines after) := by
    calc text = joinLines (splitLines text) := (joinChar_splitChar _ _).symm
      _ = joinLines (before ++ [line]) ++ '\n' :: joinLines after := by
        rw [h.lines_eq]
        exact joinChar_append (by simp) h.after_ne_nil
      _ = joinLines (before ++ [trimEnd line]) ++ blank ++ '\n' :: joinLines after := by
        rw [← joinLines_concat_append before (trimEnd line) blank, ← hline]
      _ = stripMarkers text ++ (blank ++ '\n' :: joinLines after) := by rw [h.left_eq, List.append_assoc]
  refine ⟨blank, _, htext, ?_, hblank⟩
  have hbreak : '\n' ∉ blank := by
    intro hmem
    apply h.noBreak line (by simp)
    rw [hline]
    exact List.mem_append_right _ hmem
  have hafter : splitLines (joinLines after) = after :=
    splitChar_joinChar h.after_ne_nil fun l hl => h.noBreak l (List.mem_append_right _ hl)
  rw [splitLines, splitChar_append, splitChar_of_not_mem hbreak, ← splitLines, hafter, List.singleton_append]

structure Parts (body dropped : List Char) : Prop where
  /-- Only white space and markers go away. -/
  idle : ∀ l ∈ splitLines dropped, isIdle l = true
  /-- Markers go away as whole lines: a line that stays loses white space only. -/
  whole : body ≠ [] → ∀ l, (splitLines dropped).head? = some l → isBlankLine l = true
  trimmed : ∀ c, body.getLast? = some c → isBlank c = false
  unmarked : ∀ l, (splitLines body).getLast? = some l → isMarker l = false

theorem parts_of_endsInMarker (h : endsInMarker (splitLines text) = true) :
    ∃ dropped, text = stripMarkers text ++ dropped ∧ Parts (stripMarkers text) dropped := by
  rcases stripMarkers_cases h with ⟨hnil, hidle⟩ | ⟨before, line, after, hstops⟩
  · rw [hnil]
    refine ⟨text, rfl, hidle, fun hne => absurd rfl hne, by simp, ?_⟩
    intro l hl
    obtain rfl : [] = l := by simpa [splitLines, splitChar] using hl
    rfl
  obtain ⟨blank, dropped, htext, hdropped, hblank⟩ := hstops.exists_dropped
  obtain ⟨hfull, hmarker⟩ := isIdle_eq_false_iff.mp hstops.stays
  refine ⟨dropped, htext, ?_⟩
  constructor
  case idle =>
    rw [hdropped, List.forall_mem_cons]
    exact ⟨isIdle_of_blank hblank, hstops.idle⟩
  case whole =>
    intro _ l hl
    rw [hdropped] at hl
    exact Option.some.inj hl ▸ hblank
  case trimmed =>
    rw [hstops.left_eq, ← trimEnd_joinLines hfull]
    exact isBlank_getLast_trimEnd _
  case unmarked =>
    intro l hl
    rw [hstops.splitLines_left, List.getLast?_concat] at hl
    rw [← Option.some.inj hl, isMarker_trimEnd, hmarker]

theorem stripMarkers_stripMarkers (text : List Char) : stripMarkers (stripMarkers text) = stripMarkers text := by
  cases h : endsInMarker (splitLines text) with
  | false => rw [stripMarkers_of_not_endsInMarker h, stripMarkers_of_not_endsInMarker h]
  | true =>
    rcases stripMarkers_cases h with ⟨hnil, -⟩ | ⟨before, line, after, hstops⟩
    · rw [hnil]
      rfl
    · obtain ⟨hfull, hmarker⟩ := isIdle_eq_false_iff.mp hstops.stays
      rw [← isBlankLine_trimEnd] at hfull
      apply stripMarkers_of_not_endsInMarker
      rw [hstops.splitLines_left, endsInMarker_concat hfull, isMarker_trimEnd, hmarker]

/-- An entry is added behind what stripping leaves of a text. Turn after turn ends with that, only white space and
marker lines go away, and nothing does where the last line that is not blank is no marker. -/
theorem splice_only_drops_markers (text anchor : String) :
    let body := stripMarkers text.toList
    let sep := if body = [] ∨ body.getLast? = some '\n' then "" else "\n"
    (∀ result, Strips text.toList text.toList false result ↔ result = body) ∧
      splice text anchor = String.ofList body ++ sep ++ "__yamlc_anchor__: *" ++ anchor ++ "\n" ∧
      (∀ c, (body ++ sep.toList).getLast? = some c → c = '\n') ∧
      (∃ dropped, text.toList = body ++ dropped ∧
        if endsInMarker (splitLines text.toList) then Parts body dropped else dropped = []) ∧
      stripMarkers body = body := by
  intro body sep
  refine ⟨?_, ?_, ?_, ?_, stripMarkers_stripMarkers text.toList⟩
  · intro result
    constructor
    · exact fun h => h.unique (strips_stripMarkers text.toList)
    · rintro rfl
      exact strips_stripMarkers text.toList
  · have hgap : (if body.isEmpty || body.getLast? == some '\n' then [] else ['\n']) = sep.toList := by
      simp only [sep, Bool.or_eq_true, List.isEmpty_iff, beq_iff_eq]
      split <;> rfl
    apply String.toList_inj.mp
    rw [splice, hgap]
    simp [sentinel, body]
  · intro c hc
    by_cases hends : body = [] ∨ body.getLast? = some '\n'
    · simp only [sep, if_pos hends, String.toList_empty, List.append_nil] at hc
      rcases hends with hnil | hbreak
      · rw [hnil] at hc
        cases hc
      · exact Option.some.inj (hc.symm.trans hbreak)
    · simp only [sep, if_neg hends] at hc
      simpa using hc.symm
  · cases h : endsInMarker (splitLines text.toList) with
    | true => simpa using parts_of_endsInMarker h
    | false =>
      refine ⟨[], ?_, rfl⟩
      rw [List.append_nil]
      exact (stripMarkers_of_not_endsInMarker h).symm

example : splice "a: &x 1\r\n---\r\n...\n\n" "x" = "a: &x 1\n__yamlc_anchor__: *x\n" := by decide +kernel

end Anchor

end YamlInclude
