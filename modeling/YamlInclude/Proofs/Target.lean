import YamlInclude.Proofs.Load
import YamlInclude.Proofs.Numeral
import YamlInclude.Proofs.ReferenceText
import YamlInclude.Proofs.Splitting

/-! # Targets of names

A reference that is the text of a number names a file beside the including one, whose own name is that
text with or without an extension. So two such references with one target are one text.
-/

namespace YamlInclude

namespace Path

structure IsName (name : List Char) : Prop where
  noSlash : '/' ∉ name
  component : componentOf? name = some (.name name)

instance (name : List Char) : Decidable (IsName name) :=
  decidable_of_iff ('/' ∉ name ∧ componentOf? name = some (.name name)) ⟨fun h => ⟨h.1, h.2⟩, fun h => ⟨h.1, h.2⟩⟩

/-- Whether a name stands at the end of a path, after a slash if anything is before it. -/
def EndsIn (p : Path) (name : List Char) : Prop := p.chars = name ∨ ∃ cs, p.chars = cs ++ '/' :: name

variable {p q : Path} {name suffix : List Char}

@[simp] theorem chars_ofChars (cs : List Char) : (ofChars cs).chars = cs := String.toList_ofList

theorem eq_of_chars (h : p.chars = q.chars) : p = q := congrArg Path.mk (String.toList_inj.mp h)

theorem ofChars_chars (p : Path) : ofChars p.chars = p := eq_of_chars (chars_ofChars p.chars)

namespace IsName

theorem not_isVoid (h : IsName name) : isVoid name = false := by
  have := h.component
  unfold componentOf? at this
  split at this
  · cases this
  next hv => exact Bool.eq_false_iff.mpr hv

theorem ne_parent (h : IsName name) : name ≠ ['.', '.'] := by
  rintro rfl
  cases h.component

theorem ne_current (h : IsName name) : name ≠ ['.'] := by
  rintro rfl
  cases h.component

theorem ne_nil (h : IsName name) : name ≠ [] := by
  rintro rfl
  cases h.component

end IsName

theorem EndsIn.segments (h : p.EndsIn name) (hname : IsName name) : ∃ segments, p.body = segments ++ [name] := by
  unfold body isAbsolute
  obtain h | ⟨cs, h⟩ := h
  · have hrel : (p.chars.head? == some '/') = false := by
      obtain ⟨c, cs, rfl⟩ := List.exists_cons_of_ne_nil hname.ne_nil
      obtain ⟨hc, -⟩ := List.ne_and_not_mem_of_not_mem_cons hname.noSlash
      simpa [h] using hc.symm
    rw [hrel, h, splitChar_of_not_mem hname.noSlash]
    exact ⟨[], rfl⟩
  · rw [h]
    split
    · cases cs with
      | nil => exact ⟨[], splitChar_of_not_mem hname.noSlash⟩
      | cons c cs => exact ⟨splitChar '/' cs, by
          rw [List.cons_append, List.drop_one, List.tail_cons, splitChar_append, splitChar_of_not_mem hname.noSlash]⟩
    · exact ⟨splitChar '/' cs, by rw [splitChar_append, splitChar_of_not_mem hname.noSlash]⟩

theorem EndsIn.fileName? (h : p.EndsIn name) (hname : IsName name) : p.fileName? = some name := by
  obtain ⟨segments, hbody⟩ := h.segments hname
  have hlast (first : List Component) (segments : List (List Char)) :
      (first ++ componentsOf (segments ++ [name])).getLast? = some (.name name) := by
    rw [componentsOf, List.filterMap_append, ← List.append_assoc]
    simp [hname.component]
  have hcomponents : p.components.getLast? = some (.name name) := by
    unfold components
    split
    · rw [hbody]
      exact hlast [.root] segments
    · rw [hbody]
      cases segments with
      | nil =>
        split
        next hcons => exact absurd (List.cons.inj hcons).1 hname.ne_current
        · exact hlast [] []
      | cons s segments =>
        split
        next hcons =>
          obtain ⟨-, rfl⟩ := List.cons.inj hcons
          exact hlast [.current] segments
        · exact hlast [] (s :: segments)
  rw [Path.fileName?, hcomponents]

theorem EndsIn.join (h : q.EndsIn name) : (p.join q).EndsIn name := by
  unfold Path.join
  split
  · exact h
  · rw [EndsIn, chars_ofChars]
    obtain h | ⟨cs, h⟩ := h
    · rw [h]
      split
      next hend =>
        cases hp : p.chars with
        | nil => exact Or.inl rfl
        | cons c cs =>
          have hlast : (c :: cs).getLast? = some '/' := by simpa [hp] using hend
          obtain ⟨base, hbase⟩ := List.getLast?_eq_some_iff.mp hlast
          exact Or.inr ⟨base, by rw [hbase, List.append_nil, List.append_assoc]; rfl⟩
      · exact Or.inr ⟨p.chars, by rw [List.append_assoc]; rfl⟩
    · exact Or.inr ⟨_, by rw [h, ← List.append_assoc]⟩

theorem endsIn_ofSegments (absolute : Bool) (segments : List (List Char)) :
    (ofSegments absolute (segments ++ [name])).EndsIn name := by
  rw [EndsIn, ofSegments, chars_ofChars]
  cases segments with
  | nil =>
    cases absolute with
    | true => exact Or.inr ⟨[], rfl⟩
    | false => exact Or.inl rfl
  | cons s segments =>
    rw [joinChar_append_singleton (List.cons_ne_nil _ _)]
    cases absolute with
    | true => exact Or.inr ⟨'/' :: joinChar '/' (s :: segments), rfl⟩
    | false => exact Or.inr ⟨joinChar '/' (s :: segments), rfl⟩

theorem EndsIn.normalize (h : p.EndsIn name) (hname : IsName name) : p.normalize.EndsIn name := by
  obtain ⟨segments, hbody⟩ := h.segments hname
  have hstep (done : List (List Char)) : foldSegment p.isAbsolute done name = name :: done := by
    unfold foldSegment
    rw [hname.not_isVoid, if_neg Bool.false_ne_true, if_neg hname.ne_parent]
  have hfold : foldSegments p.isAbsolute p.body =
      (segments.foldl (foldSegment p.isAbsolute) []).reverse ++ [name] := by
    rw [hbody, foldSegments, List.foldl_append, List.foldl_cons, List.foldl_nil, hstep, List.reverse_cons]
  unfold Path.normalize
  rw [hfold]
  split
  next hnil => exact absurd hnil (List.append_ne_nil_of_right_ne_nil _ (List.cons_ne_nil _ _))
  · exact endsIn_ofSegments _ _

theorem EndsIn.append (h : p.EndsIn name) : (p.append suffix).EndsIn (name ++ suffix) := by
  rw [EndsIn, Path.append, chars_ofChars]
  obtain h | ⟨cs, h⟩ := h
  · exact Or.inl (by rw [h])
  · exact Or.inr ⟨cs, by rw [h, List.append_assoc, List.cons_append]⟩

end Path

namespace IsNumeral

variable {cs ext : List Char}

theorem not_mem {c : Char} (h : IsNumeral cs) (hc : isNumeralChar c = false) : c ∉ cs := fun hmem => by
  rw [h.chars c hmem] at hc
  cases hc

theorem isName_append (h : IsNumeral cs) (hext : '/' ∉ ext) : Path.IsName (cs ++ ext) where
  noSlash := List.not_mem_append (h.not_mem (by decide)) hext
  component := by
    obtain ⟨c, hc, hdot⟩ := h.notDots
    have hne (ds : List Char) (hds : ∀ d ∈ ds, d = '.') : cs ++ ext ≠ ds := by
      rintro rfl
      exact hdot (hds c (List.mem_append_left _ hc))
    have hvoid : Path.isVoid (cs ++ ext) = false := by
      simpa [Path.isVoid] using ⟨fun hnil => absurd hnil h.ne_nil, hne ['.'] (by simp)⟩
    rw [Path.componentOf?, hvoid, if_neg Bool.false_ne_true, if_neg (hne _ (by simp))]

theorem isName (h : IsNumeral cs) : Path.IsName cs := by
  simpa using h.isName_append List.not_mem_nil

theorem isBlank_eq_false (h : IsNumeral cs) : ∀ c ∈ cs, isBlank c = false := by
  intro c hc
  have hchar := h.chars c hc
  simp only [isNumeralChar, Bool.or_eq_true, Bool.and_eq_true, beq_iff_eq] at hchar
  obtain ((⟨halphanum, -⟩ | rfl) | rfl) | rfl := hchar
  · exact isBlank_eq_false_of_isAlphanum halphanum
  all_goals decide

theorem trimmed (h : IsNumeral cs) : Blank.Trimmed cs := by
  constructor
  · exact fun c hc => h.isBlank_eq_false c (List.mem_of_head? hc)
  · exact fun c hc => h.isBlank_eq_false c (List.mem_of_getLast? hc)

theorem parse_eq {r : String} (h : IsNumeral r.toList) : Reference.parse r = ⟨r, none⟩ := by
  have htrim := h.trimmed.trim_eq
  have hstarless : Reference.Starless (Blank.trim r.toList) := by
    rw [htrim]
    intro hmark
    exact h.not_mem (by decide) (hmark.subset List.mem_cons_self)
  rw [Reference.parse_of_starless hstarless, htrim, String.ofList_toList]

end IsNumeral

namespace Loader

/-- The names that the target of a numeral may have: the numeral, with an extension if its path has none. -/
theorem fileName?_target (l : Loader) (from_ : Path) {r : String} (h : IsNumeral r.toList) :
    ∃ ext, (ext = [] ∨ ext = ['.', 'y', 'm', 'l'] ∨ ext = ['.', 'y', 'a', 'm', 'l']) ∧
      (l.target r from_).fileName? = some (r.toList ++ ext) := by
  have hlocated : (Target.located r from_ l.root).EndsIn r.toList := by
    have hhead : r.toList.head?.any Target.isSeparator = false := by
      cases hr : r.toList.head? with
      | none => rfl
      | some c =>
        have hc := h.chars c (List.mem_of_head? hr)
        have hslash : c ≠ '/' := by rintro rfl; cases hc
        have hback : c ≠ '\\' := by rintro rfl; cases hc
        simp [Target.isSeparator, hslash, hback]
    rw [Target.located, hhead, if_neg Bool.false_ne_true]
    exact Path.EndsIn.join (Or.inl rfl)
  have hnormal := hlocated.normalize h.isName
  rw [target, h.parse_eq, Target.resolve]
  dsimp only
  split
  · exact ⟨[], Or.inl rfl, by rw [List.append_nil, hnormal.fileName? h.isName]⟩
  split
  · exact ⟨_, Or.inr (Or.inl rfl), hnormal.append.fileName? (h.isName_append (by decide))⟩
  · exact ⟨_, Or.inr (Or.inr rfl), hnormal.append.fileName? (h.isName_append (by decide))⟩

theorem eq_of_same_target (l : Loader) (from_ : Path) {r s : String} (hr : IsNumeral r.toList)
    (hs : IsNumeral s.toList) (h : (l.target r from_).same (l.target s from_) = true) : r = s := by
  have hfile : (l.target r from_).fileName? = (l.target s from_).fileName? := by
    rw [Path.fileName?, Path.fileName?, (beq_iff_eq.mp h : (l.target r from_).components = _)]
  obtain ⟨er, her, hr'⟩ := l.fileName?_target from_ hr
  obtain ⟨es, hes, hs'⟩ := l.fileName?_target from_ hs
  rw [hr', hs'] at hfile
  have heq := Option.some.inj hfile
  -- A numeral has no `y`, so the two texts are cut at the same place, in the extension.
  have hcut {cs ext : List Char} (h : IsNumeral cs) :
      (cs ++ ext).takeWhile (· != 'y') = cs ++ ext.takeWhile (· != 'y') := by
    refine List.takeWhile_append_of_pos fun c hc => bne_iff_ne.mpr ?_
    rintro rfl
    exact h.not_mem (by decide) hc
  have hy : 'y' ∈ er ↔ 'y' ∈ es := by
    have := congrArg ('y' ∈ ·) heq
    simpa [hr.not_mem (show isNumeralChar 'y' = false by decide), hs.not_mem (show isNumeralChar 'y' = false by decide)]
      using this
  have hstem := congrArg (List.takeWhile (· != 'y')) heq
  rw [hcut hr, hcut hs] at hstem
  refine String.toList_inj.mp ?_
  rcases her with rfl | rfl | rfl <;> rcases hes with rfl | rfl | rfl
  all_goals first
    | exact List.append_cancel_right hstem
    | exact absurd hy (by decide)

end Loader

end YamlInclude
