import YamlInclude.Proofs.Entry
import YamlInclude.Proofs.MissedAnchor
import YamlInclude.Proofs.Transparency

/-! # Extraction of anchored nodes

An anchored node is taken out of a text by loading the text with one more entry. So extraction has a value,
or says that there is none, exactly where that longer text loads on its own as at most one document.
-/

namespace YamlInclude

open Yaml Traced

/-- A block scalar at the end of a text without a final line break gets one by the splice. -/
theorem extracted_value_changes :
    let l := (FileSet.pair "!include b.yml *x\n" "k: &x |\n  text").loader true none ⟨"/"⟩
    (l.loadFile ⟨"/b.yml"⟩).result = .ok [.mapping [(.string "k", .string "text")]] ∧
      (l.loadFile ⟨"/a.yml"⟩).result = .ok [.string "text\n"] := by
  intro l
  exact ⟨by decide +kernel, by decide +kernel⟩

namespace Loader

variable {l : Loader} {load : LoadText} {s st : LoadState} {text anchor raw : String} {n : Nat}

/-- The value of the added entry in a document, if that is a mapping with it. -/
def entryOf (anchor : String) (file : Path) : Value → Except LoadError Value
  | .mapping es =>
    match Entries.swapRemove (.string Anchor.sentinel) es with
    | some (v, _) => .ok v
    | none => .error (.anchorNotExtractable anchor file)
  | _ => .error (.anchorNotExtractable anchor file)

/-- The value of the added entry in the only document of a text. -/
def takeEntry (anchor : String) (file : Path) : List Value → Except LoadError Value
  | [] => .error (.anchorNotExtractable anchor file)
  | [v] => entryOf anchor file v
  | vs => .error (.multipleDocuments vs.length file)

theorem entryOf_cases (anchor : String) (file : Path) (v : Value) :
    (∃ w, entryOf anchor file v = .ok w) ∨ entryOf anchor file v = .error (.anchorNotExtractable anchor file) := by
  cases v with
  | mapping es =>
    unfold entryOf
    cases h : Entries.swapRemove (.string Anchor.sentinel) es with
    | none => exact Or.inr (by simp only [h])
    | some found => exact Or.inl ⟨found.1, by simp only [h]⟩
  | _ => exact Or.inr rfl

theorem takeEntry_bind_iff {anchor : String} {file : Path} {loaded : Except LoadError (List Value)}
    (h : loaded ≠ .error (.anchorNotExtractable anchor file)) :
    (∃ v, loaded >>= takeEntry anchor file = .ok v) ∨
        loaded >>= takeEntry anchor file = .error (.anchorNotExtractable anchor file) ↔
      ∃ ds, loaded = .ok ds ∧ ds.length ≤ 1 := by
  constructor
  · intro hwell
    cases loaded with
    | error e =>
      obtain ⟨v, hv⟩ | he := hwell
      · cases hv
      · exact absurd (congrArg Except.error (Except.error.inj he)) h
    | ok ds =>
      refine ⟨ds, rfl, ?_⟩
      match ds with
      | [] => exact Nat.zero_le 1
      | [_] => exact Nat.le_refl 1
      | v :: w :: ds =>
        obtain ⟨v, hv⟩ | he := hwell
        · cases hv
        · cases he
  · rintro ⟨ds, rfl, hlength⟩
    match ds with
    | [] => exact Or.inr rfl
    | [v] => exact entryOf_cases anchor file v

theorem anchored_result (h : Anchor.isDefined text anchor = true) :
    (l.anchored load text anchor s).result =
      (load (Anchor.splice text anchor) s).result >>= takeEntry anchor s.file := by
  unfold anchored
  rw [if_pos h, result_bind, single, result_bind]
  cases (load (Anchor.splice text anchor) s).result with
  | error e => rfl
  | ok vs =>
    match vs with
    | [] => rfl
    | [v] =>
      cases v with
      | mapping es =>
        change Traced.result _ = entryOf anchor s.file (.mapping es)
        unfold entryOf
        cases h : Entries.swapRemove (.string Anchor.sentinel) es <;> simp only [h] <;> rfl
      | _ => rfl
    | v :: w :: vs => rfl

/-- A reference whose target may be entered and read gives what it asks for of the text. -/
theorem follow_result_of_read (hentered : st.chain.any (·.same (l.target raw st.file)) = false)
    (hread : l.source.read (l.target raw st.file) = .ok text) :
    (l.follow load raw st).result =
      (l.asked load text ⟨st.chain, l.target raw st.file⟩ (Reference.parse raw).anchor).result := by
  rw [follow_eq]
  generalize l.target raw st.file = p at hentered hread ⊢
  rw [LoadState.enter_ok_iff.mpr ⟨hentered, rfl⟩, ofExcept_ok, pure_bind, result_bind, result_note]
  change Traced.result (l.read p >>= _) = _
  rw [result_bind, read_ok_iff.mpr hread]
  rfl

/-- A reference to an anchor that stands in the text of its target, from a state that may enter the target. -/
structure Extracts (l : Loader) (st : LoadState) (raw anchor text : String) : Prop where
  anchored : (Reference.parse raw).anchor = some anchor
  entered : st.chain.any (·.same (l.target raw st.file)) = false
  read : l.source.read (l.target raw st.file) = .ok text
  defined : Anchor.isDefined text anchor = true

theorem Extracts.follow_result (h : l.Extracts st raw anchor text) :
    (l.follow load raw st).result =
      (load (Anchor.splice text anchor) ⟨st.chain, l.target raw st.file⟩).result >>=
        takeEntry anchor (l.target raw st.file) := by
  rw [follow_result_of_read h.entered h.read]
  generalize l.target raw st.file = p
  rw [h.anchored]
  exact anchored_result h.defined

/-- What a reference to an anchor gives is what the spliced text gives on its own, unless the files around
it or the bound on levels make it fail. -/
theorem Extracts.follows (hl : l.tags = .empty) (h : l.Extracts st raw anchor text) (hn : n ≤ l.source.extent + 1) :
    (l.follow (l.loadWithin n) raw st).result =
      ((l.loadText (Anchor.splice text anchor) (.root (l.target raw st.file))).result >>=
        takeEntry anchor (l.target raw st.file)) ∨
    ∃ e, (l.follow (l.loadWithin n) raw st).result = .error e ∧ e.isOfContext = true := by
  rw [h.follow_result]
  generalize l.target raw st.file = c
  obtain hload | ⟨e, he, hcontext⟩ :=
    loadWithin_follows hl (st.within_root c) hn (Anchor.splice text anchor)
  · exact Or.inl (by rw [loadText, hload])
  · exact Or.inr ⟨e, by rw [he]; rfl, hcontext⟩

/-- Whether the splice adds one entry to the mapping that a text is read as: the value that stands at a
position of that mapping, which no merge key leads to. -/
def AddsEntry (text anchor : String) (p : List Value.Step) : Prop :=
  ∃ es v, values text = [.ok (.mapping es)] ∧
    values (Anchor.splice text anchor) = [.ok (.mapping (es ++ [(.string Anchor.sentinel, v)]))] ∧
    (Value.mapping es).At p v ∧ Value.Step.unmerged p ∧ (Value.mapping es).untaggedKeys = true

/-- The added entry of a text that loads has the value that stands at its position when the text is loaded. -/
theorem AddsEntry.taken {p : List Value.Step} {m : Value} (h : AddsEntry text anchor p)
    (hm : (l.loadWithin (n + 1) text s).result = .ok [m]) :
    ∃ d w, (l.loadWithin (n + 1) (Anchor.splice text anchor) s).result = .ok [d] ∧
      entryOf anchor s.file d = .ok w ∧ m.At p w := by
  obtain ⟨es, v, hes, hspliced, hat, hp, hkeys⟩ := h
  obtain ⟨r, hr, hm⟩ := (loadWithin_single_iff hes).mp hm
  obtain ⟨r', out, w, rest, hr', hout, hremove, hw⟩ := resolve_oneMore (s := Anchor.sentinel) (by decide +kernel) hp
    hat hkeys (values_distinctKeys hspliced) hr hm
  refine ⟨.mapping out, w, (loadWithin_single_iff hspliced).mpr ⟨r', hr', hout⟩, ?_, hw⟩
  simp only [entryOf, hremove]

end Loader

open Loader

/-- An include of an anchored node has a value, or reports that the node cannot be taken out, exactly if
its file, with the entry that takes out the node, loads on its own as at most one document; besides that
only the files around it can make it fail. So it is where the splice adds just that entry to the mapping of
a file that loads, and the value is the node's own one then. -/
theorem extraction_ends_well_iff {l : Loader} (hl : l.tags = .empty) {st : LoadState}
    {raw anchor text : String} {n : Nat} (h : l.Extracts st raw anchor text) (hn : n ≤ l.source.extent + 1) :
    let file := l.target raw st.file
    let included := (l.follow (l.loadWithin n) raw st).result
    let endsWell := (∃ v, included = .ok v) ∨ included = .error (.anchorNotExtractable anchor file)
    let failsAround := ∃ e, included = .error e ∧ e.isOfContext = true
    let loads := ∃ ds, (l.loadText (Anchor.splice text anchor) (.root file)).result = .ok ds ∧ ds.length ≤ 1
    (endsWell → loads) ∧ (loads → endsWell ∨ failsAround) ∧
      ∀ p m, AddsEntry text anchor p → (l.loadText text (.root file)).result = .ok [m] →
        ∃ w, m.At p w ∧ (included = .ok w ∨ failsAround) := by
  dsimp only
  have hfollows := h.follows hl hn
  generalize (l.follow (l.loadWithin n) raw st).result = included at hfollows ⊢
  generalize l.target raw st.file = file at hfollows ⊢
  have hoff : (l.loadText (Anchor.splice text anchor) (.root file)).result ≠
      .error (.anchorNotExtractable anchor file) := fun he =>
    not_anchorFault_file (Or.inr rfl) (loadWithin_anchorFault hl rfl he)
  have hiff := takeEntry_bind_iff hoff
  refine ⟨?_, fun hloads => ?_, fun p m hadds hm => ?_⟩
  · rintro (⟨v, hv⟩ | hunfit)
    · obtain heq | ⟨e, he, -⟩ := hfollows
      · exact hiff.mp (Or.inl ⟨v, heq.symm.trans hv⟩)
      · cases hv.symm.trans he
    · obtain heq | ⟨e, he, hcontext⟩ := hfollows
      · exact hiff.mp (Or.inr (heq.symm.trans hunfit))
      · rw [← Except.error.inj (hunfit.symm.trans he)] at hcontext
        cases hcontext
  · refine hfollows.imp_left fun heq => ?_
    rw [heq]
    exact hiff.mpr hloads
  · obtain ⟨d, w, hd, hw, hat⟩ := hadds.taken hm
    refine ⟨w, hat, hfollows.imp_left fun heq => ?_⟩
    rw [heq, loadText, hd]
    exact hw

/-- The splice adds an entry to a block mapping, and the anchored node is taken out. -/
theorem extraction_from_mapping :
    let text := "n: &x 1\nm: [*x]\n"
    let one := Value.number (.int ⟨1, by decide, by decide⟩)
    let m := Value.mapping [(.string "n", one), (.string "m", .sequence [one])]
    let l := (FileSet.pair "p: !include b.yml *x\n" text).loader true none ⟨"/"⟩
    let st := LoadState.root ⟨"/a.yml"⟩
    let file := l.target "b.yml *x" st.file
    l.Extracts st "b.yml *x" "x" text ∧ AddsEntry text "x" [.field (.string "n")] ∧
      (l.loadText text (.root file)).result = .ok [m] ∧
      (l.follow (l.loadWithin 1) "b.yml *x" st).result = .ok one ∧
      (∃ ds, (l.loadText (Anchor.splice text "x") (.root file)).result = .ok ds ∧ ds.length ≤ 1) ∧
      ∃ w, m.At [.field (.string "n")] w ∧ ((l.follow (l.loadWithin 1) "b.yml *x" st).result = .ok w ∨
        ∃ e, (l.follow (l.loadWithin 1) "b.yml *x" st).result = .error e ∧ e.isOfContext = true) := by
  intro text one m l st file
  have hextracts : l.Extracts st "b.yml *x" "x" text :=
    ⟨by decide +kernel, by decide +kernel, by decide +kernel, by decide +kernel⟩
  have hadds : AddsEntry text "x" [.field (.string "n")] := by
    refine ⟨[(.string "n", one), (.string "m", .sequence [one])], one, by decide +kernel, by decide +kernel,
      .field (by simp) (.here _), ?_, by decide +kernel⟩
    rintro k hk
    obtain rfl : k = .string "n" := by simpa using hk
    decide +kernel
  have hm : (l.loadText text (.root file)).result = .ok [m] := by decide +kernel
  have hvalue : (l.follow (l.loadWithin 1) "b.yml *x" st).result = .ok one := by decide +kernel
  have hends := extraction_ends_well_iff rfl hextracts (n := 1) (by decide +kernel)
  exact ⟨hextracts, hadds, hm, hvalue, hends.1 (Or.inl ⟨one, hvalue⟩), hends.2.2 _ m hadds hm⟩

/-- A comment after a document marker keeps the marker in the text, and a list takes in no entry: both files
load on their own, and the include finds fault with their syntax. -/
theorem extraction_breaks_syntax :
    let marked := "n: &x 1\n...\n# end\n"
    let list := "- &x 1\n- 2\n"
    let load (text path : String) :=
      (((FileSet.pair "p: !include b.yml *x\n" text).loader true none ⟨"/"⟩).loadFile ⟨path⟩).result
    let one := Value.number (.int ⟨1, by decide, by decide⟩)
    let two := Value.number (.int ⟨2, by decide, by decide⟩)
    Anchor.isDefined marked "x" = true ∧ Anchor.isDefined list "x" = true ∧
      load marked "/b.yml" = .ok [.mapping [(.string "n", one)]] ∧ load list "/b.yml" = .ok [.sequence [one, two]] ∧
      load marked "/a.yml" =
        .error (.parse ⟨"/b.yml"⟩ (.syntaxError ⟨.noDocumentStart, ⟨18, 3, 0⟩, none, 0⟩)) ∧
      load list "/a.yml" =
        .error (.parse ⟨"/b.yml"⟩ (.syntaxError ⟨.noDash, ⟨11, 2, 0⟩, some (.blockCollection, .start), 0⟩)) := by
  intro marked list load one two
  refine ⟨?_, ?_, ?_, ?_, ?_, ?_⟩ <;> decide +kernel

end YamlInclude
