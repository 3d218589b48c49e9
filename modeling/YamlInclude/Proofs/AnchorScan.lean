import YamlInclude.Proofs.Events
import YamlInclude.Proofs.Extraction
import YamlInclude.Proofs.Numeral

/-! # Anchors that are found and anchors that are carried

An anchor is looked for in the text of a file: `&name` has to stand there before white space or at the end. A node
carries an anchor where `&name` begins a token, whatever ends the name there. So the two agree on a text where each
place of the first kind begins a token and each anchor is followed by white space.
-/

namespace YamlInclude

open Yaml Traced

namespace Anchor

variable {name cs : List Char}

/-- White space follows, or nothing. -/
def atBlank (cs : List Char) : Bool := cs.head?.all isBlank

theorem startsName_iff : startsName name cs = true ↔ ∃ rest, cs = name ++ rest ∧ atBlank rest = true := by
  rw [startsName, Bool.and_eq_true, List.isPrefixOf_iff_prefix]
  constructor
  · rintro ⟨⟨rest, rfl⟩, hrest⟩
    exact ⟨rest, rfl, by simpa [atBlank] using hrest⟩
  · rintro ⟨rest, rfl, hrest⟩
    exact ⟨List.prefix_append _ _, by simpa [atBlank] using hrest⟩

theorem definedIn_iff : definedIn name cs = true ↔ ∃ i, AnchorAt cs name atBlank i := by
  induction cs with
  | nil => simp [definedIn, AnchorAt]
  | cons c cs ih =>
    rw [definedIn, Bool.or_eq_true, Bool.and_eq_true, beq_iff_eq, startsName_iff, ih]
    constructor
    · rintro (⟨rfl, rest, rfl, hrest⟩ | ⟨i, hi⟩)
      · exact ⟨0, rest, rfl, hrest⟩
      · exact ⟨i + 1, hi⟩
    · rintro ⟨_ | i, hi⟩
      · obtain ⟨rest, hcs, hrest⟩ := hi
        obtain ⟨rfl, rfl⟩ := List.cons.inj hcs
        exact Or.inl ⟨rfl, rest, rfl, hrest⟩
      · exact Or.inr ⟨i, hi⟩

end Anchor

namespace Yaml

variable {text name name' : List Char} {after after' : List Char → Bool} {i : Nat}

/-- Rests after a name do not go on with it. -/
def EndsNames (after : List Char → Bool) : Prop := ∀ c cs, after (c :: cs) = true → isNameChar c = false

theorem endsNames_endsName : EndsNames endsName := by
  intro c cs h
  simp only [endsName, atGap, isBreak, isBlankChar, Bool.or_eq_true, beq_iff_eq, List.contains_eq_mem,
    decide_eq_true_eq, List.mem_cons, List.not_mem_nil, or_false] at h
  rcases h with (((((rfl | rfl) | rfl) | rfl) | rfl) | (rfl | rfl)) | (rfl | rfl | rfl | rfl | rfl | rfl | rfl | rfl) <;>
    decide

theorem endsNames_atBlank : EndsNames Anchor.atBlank := by
  intro c cs h
  refine Bool.eq_false_iff.mpr fun hname => ?_
  replace h : isBlank c = true := h
  simp only [isNameChar, Bool.or_eq_true, beq_iff_eq] at hname
  obtain (halphanum | rfl) | rfl := hname
  · cases h.symm.trans (isBlank_eq_false_of_isAlphanum halphanum)
  all_goals exact absurd h (by decide)

theorem takeWhile_name (hafter : EndsNames after) (hname : name.all isNameChar = true) {rest : List Char}
    (hrest : after rest = true) : (name ++ rest).takeWhile isNameChar = name := by
  have hnone : rest.takeWhile isNameChar = [] := by
    cases rest with
    | nil => rfl
    | cons c cs => simp [hafter c cs hrest]
  rw [List.takeWhile_append_of_pos (List.all_eq_true.mp hname), hnone, List.append_nil]

theorem AnchorAt.name_unique (hafter : EndsNames after) (hafter' : EndsNames after')
    (hname : name.all isNameChar = true) (hname' : name'.all isNameChar = true) (h : AnchorAt text name after i)
    (h' : AnchorAt text name' after' i) : name = name' := by
  obtain ⟨rest, htext, hrest⟩ := h
  obtain ⟨rest', htext', hrest'⟩ := h'
  have hsame := (List.cons.inj (htext.symm.trans htext')).2
  rw [← takeWhile_name hafter hname hrest, hsame, takeWhile_name hafter' hname' hrest']

/-- A token that takes up text begins at a place. -/
def TokenAt (text : String) (i : Nat) : Prop :=
  ∃ t ∈ (tokens text.toList).1, t.start.index = i ∧ t.start.index < t.stop.index

instance (text : String) (i : Nat) : Decidable (TokenAt text i) :=
  inferInstanceAs (Decidable (∃ t ∈ (tokens text.toList).1, _))

def events (text : String) : List Marked × Option SyntaxError := eventsOf (tokens text.toList).1 (tokens text.toList).2

/-- A node of a text has an anchor. -/
def CarriesAnchor (text anchor : String) : Prop := ∃ m ∈ (events text).1, m.event.anchor? = some anchor

instance (text anchor : String) : Decidable (CarriesAnchor text anchor) :=
  inferInstanceAs (Decidable (∃ m ∈ (events text).1, _))

theorem ended_of_documentsOf {failure : Option SyntaxError} {ms : List Marked} {d : Draft} {first : Bool}
    (h : ∀ e ∈ documentsOf failure ms d first, e.failure = none) :
    failure = none ∨ ∃ m ∈ ms, m.event = .streamEnd := by
  induction ms generalizing d first with
  | nil =>
    cases failure with
    | none => exact Or.inl rfl
    | some e => exact nomatch h _ (List.mem_singleton_self _)
  | cons m ms ih =>
    have hmore {d' : Draft} {first' : Bool} (h : ∀ d ∈ documentsOf failure ms d' first', d.failure = none) :
        failure = none ∨ ∃ m' ∈ m :: ms, m'.event = .streamEnd :=
      (ih h).imp_right fun ⟨m', hm', he⟩ => ⟨m', List.mem_cons_of_mem _ hm', he⟩
    obtain ⟨event, mark⟩ := m
    cases event with
    | documentStart => exact hmore h
    | documentEnd => exact hmore fun d hd => h d (List.mem_cons_of_mem _ hd)
    | streamEnd => exact Or.inr ⟨_, List.mem_cons_self, rfl⟩
    | «alias» name =>
      unfold documentsOf at h
      dsimp only at h
      split at h
      · exact hmore h
      · exact nomatch h _ (List.mem_singleton_self _)
    | scalar p text plain => exact hmore h
    | sequenceStart p => exact hmore h
    | sequenceEnd => exact hmore h
    | mappingStart p => exact hmore h
    | mappingEnd => exact hmore h

theorem Document.failure_of_value {d : Document} {v : Value} (h : d.value = .ok v) : d.failure = none := by
  obtain ⟨r, -, h⟩ := bind_ok h
  cases hfailure : d.failure with
  | none => rfl
  | some e =>
    simp only [hfailure] at h
    cases h

theorem events_ended {text : String} (h : ∀ r ∈ values text, ∃ v, r = .ok v) :
    (events text).2 = none ∨ ∃ m ∈ (events text).1, m.event = .streamEnd := by
  have hdocuments : ∀ d ∈ documentsOf (events text).2 (events text).1 .empty true, d.failure = none := by
    intro d hd
    obtain ⟨v, hv⟩ := h d.value (List.mem_map_of_mem hd)
    exact Document.failure_of_value hv
  exact ended_of_documentsOf hdocuments

/-- Documents that have values carry the anchors of the tokens. -/
theorem carriesAnchor_iff_token {text anchor : String} (h : ∀ r ∈ values text, ∃ v, r = .ok v) :
    CarriesAnchor text anchor ↔ ∃ t ∈ (tokens text.toList).1, t.value.anchor? = some anchor := by
  have hanchors : (events text).1.filterMap (·.event.anchor?) = anchors (tokens text.toList).1 :=
    anchors_eventsOf (tokens_faithful text.toList).2 (events_ended h)
  rw [CarriesAnchor, ← List.mem_filterMap, hanchors, anchors, List.mem_filterMap]

theorem carriesAnchor_of_tokenAt {text anchor : String} (h : ∀ r ∈ values text, ∃ v, r = .ok v)
    (hname : anchor.toList.all isNameChar = true) (hafter : EndsNames after)
    (hat : AnchorAt text.toList anchor.toList after i) (htoken : TokenAt text i) : CarriesAnchor text anchor := by
  obtain ⟨t, ht, rfl, hwidth⟩ := htoken
  have hfaithful := (tokens_faithful text.toList).1 t ht
  have hhere : text.toList[t.start.index]? = some '&' := by
    obtain ⟨rest, htext, -⟩ := hat
    rw [← List.head?_drop, htext]
    rfl
  obtain ⟨found, hfound⟩ := hfaithful.named hwidth hhere
  obtain ⟨-, hname', hat'⟩ := hfaithful.stands found hfound
  have hsame := hat.name_unique hafter endsNames_endsName hname hname' hat'
  exact (carriesAnchor_iff_token h).mpr ⟨t, ht, by rw [hfound, String.toList_inj.mp hsame]⟩

/-- A node has an anchor exactly if `&` and the name stand at the beginning of a token. -/
theorem carriesAnchor_iff {text anchor : String} (h : ∀ r ∈ values text, ∃ v, r = .ok v)
    (hname : anchor.toList.all isNameChar = true) :
    CarriesAnchor text anchor ↔ ∃ i, AnchorAt text.toList anchor.toList endsName i ∧ TokenAt text i := by
  constructor
  · intro hcarries
    obtain ⟨t, ht, hanchor⟩ := (carriesAnchor_iff_token h).mp hcarries
    obtain ⟨hwidth, -, hat⟩ := ((tokens_faithful text.toList).1 t ht).stands anchor hanchor
    exact ⟨t.start.index, hat, t, ht, rfl, hwidth⟩
  · rintro ⟨i, hat, htoken⟩
    exact carriesAnchor_of_tokenAt h hname endsNames_endsName hat htoken

end Yaml

open Loader

/-- An anchor that is found in a text is not missing when the text is asked for it. -/
theorem Loader.anchored_ne_anchorNotFound {l : Loader} (hl : l.tags = .empty) {text anchor : String} {s : LoadState}
    {n : Nat} (hfound : Anchor.isDefined text anchor = true) :
    (l.anchored (l.loadWithin n) text anchor s).result ≠ .error (.anchorNotFound anchor s.file) := by
  intro h
  obtain h | ⟨-, he⟩ | ⟨hmissing, -⟩ := anchored_error h
  · obtain h | ⟨_, he, -⟩ := single_error h
    · exact not_anchorFault_file (Or.inl rfl) (loadWithin_anchorFault hl rfl h)
    · cases he
  · cases he
  · exact Bool.false_ne_true (hmissing.symm.trans hfound)

end YamlInclude
