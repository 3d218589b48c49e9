import YamlInclude.Proofs.Consulted
import YamlInclude.Proofs.Equality
import YamlInclude.Proofs.Invariant

/-! # Origins of load errors

An error of a load names one file: the one that the load starts with, or one that a reference on the way names.
What the error says is true of that file, and of the text that was parsed for it.
-/

namespace YamlInclude

open Yaml Traced

/-- The values that no reference is made of. -/
inductive Yaml.Value.Unnaming : Value → Prop
  | null : Unnaming .null
  | sequence (vs : List Value) : Unnaming (.sequence vs)
  | mapping (es : Entries) : Unnaming (.mapping es)
  | tagged (t : String) (v : Value) : Unnaming (.tagged t v)

namespace Loader

def ComesTo (l : Loader) (first : Path) (a : Visit) : Prop :=
  ∃ text, l.source.read first = .ok text ∧ Relation.ReflTransGen l.Leads ⟨first, text⟩ a

/-- Whether a reference in a document that the load of a file comes to names another file, with an anchor or
without one. -/
def Names (l : Loader) (first : Path) (anchor : Option String) (p : Path) : Prop :=
  ∃ a raw, l.ComesTo first a ∧ raw ∈ references a ∧ (Reference.parse raw).anchor = anchor ∧ l.target raw a.file = p

/-- Whether a path is the one that a load starts with or one that a reference names. -/
def Involves (l : Loader) (first p : Path) : Prop := p = first ∨ ∃ anchor, l.Names first anchor p

/-- The errors that are true of a file of the load of another one. -/
inductive TrueOf (l : Loader) (first p : Path) : LoadError → Prop
  | read {fault : ReadFault} (hp : l.Involves first p) (hread : l.source.read p = .error fault) :
      TrueOf l first p (.read p fault)
  | parse {text : String} (cause : Yaml.Error) (hp : l.ComesTo first ⟨p, text⟩) : TrueOf l first p (.parse p cause)
  | anchorNotFound {a text : String} (hstrict : l.strictAnchors = true) (hp : l.Names first (some a) p)
      (hread : l.source.read p = .ok text) (hdef : Anchor.isDefined text a = false) :
      TrueOf l first p (.anchorNotFound a p)
  | anchorNotExtractable {a text : String} (hp : l.Names first (some a) p) (hread : l.source.read p = .ok text)
      (hdef : Anchor.isDefined text a = true) : TrueOf l first p (.anchorNotExtractable a p)
  | cyclicInclude {anchor : Option String} {chain : List Path} (hp : l.Names first anchor p)
      (hlast : chain.getLast? = some p) : TrueOf l first p (.cyclicInclude chain)
  | invalidReference {text t : String} {d : Document} {v u : Value} (hp : l.ComesTo first ⟨p, text⟩)
      (hd : d ∈ documents text) (hv : d.value = .ok v) (hnode : (t, u) ∈ v.taggedNodes)
      (ht : tagName (Value.tagText t) = includeTag) (hu : u.Unnaming) : TrueOf l first p (.invalidReference p)
  | unknownTag {text t : String} {d : Document} {v u : Value} (hp : l.ComesTo first ⟨p, text⟩)
      (hd : d ∈ documents text) (hv : d.value = .ok v) (hnode : (t, u) ∈ v.taggedNodes)
      (ht : tagName (Value.tagText t) ≠ includeTag) : TrueOf l first p (.unknownTag (tagName (Value.tagText t)) p)
  | multipleDocuments {text : String} {anchor : Option String} (hp : l.Names first anchor p)
      (hread : l.source.read p = .ok text) (hmany : 2 ≤ (documents (askedText text anchor)).length) :
      TrueOf l first p (.multipleDocuments (documents (askedText text anchor)).length p)

variable {l : Loader} {load : LoadText} {s : LoadState} {first p : Path} {text raw t : String} {a b : Visit}
  {u v : Value} {n : Nat} {e : LoadError} {anchor : Option String}

theorem unnaming_of_referenceText? (h : referenceText? u = none) : u.Unnaming := by
  cases u with
  | null => exact .null
  | sequence vs => exact .sequence vs
  | mapping es => exact .mapping es
  | tagged t v => exact .tagged t v
  | _ => exact nomatch h

theorem ComesTo.step (h : l.ComesTo first a) (hstep : l.Leads a b) : l.ComesTo first b := by
  obtain ⟨text, hread, hsteps⟩ := h
  exact ⟨text, hread, hsteps.tail hstep⟩

/-- What a step leads to is the text that a reference asks for, in the file that it names. -/
theorem Leads.exists_reference (h : l.Leads a b) : ∃ raw whole, raw ∈ references a ∧ l.target raw a.file = b.file ∧
    l.source.read b.file = .ok whole ∧ b.text = askedText whole (Reference.parse raw).anchor := by
  cases h with
  | @follow d v u t raw whole hd hv hu hr hwhole =>
    dsimp only
    exact ⟨raw, whole, mem_references hd hv hu hr, rfl, hwhole, rfl⟩

/-- The text of a visit is that of the first file, or what a reference asks for of the file that it names. -/
theorem ComesTo.text_eq (h : l.ComesTo first a) : ∃ text, l.source.read a.file = .ok text ∧
    (a.file = first ∧ a.text = text ∨ ∃ anchor, l.Names first anchor a.file ∧ a.text = askedText text anchor) := by
  obtain ⟨text, hread, hsteps⟩ := h
  rcases hsteps.cases_tail with rfl | ⟨b, hb, hstep⟩
  · exact ⟨text, hread, Or.inl ⟨rfl, rfl⟩⟩
  · obtain ⟨raw, whole, hraw, htarget, hwhole, hasked⟩ := hstep.exists_reference
    exact ⟨whole, hwhole, Or.inr ⟨_, ⟨b, raw, ⟨text, hread, hb⟩, hraw, rfl, htarget⟩, hasked⟩⟩

theorem ComesTo.involves (h : l.ComesTo first ⟨p, text⟩) : l.Involves first p := by
  obtain ⟨_, -, ⟨heq, -⟩ | ⟨anchor, hname, -⟩⟩ := h.text_eq
  · exact Or.inl heq
  · exact Or.inr ⟨anchor, hname⟩

theorem TrueOf.path?_eq (h : l.TrueOf first p e) : e.path? = some p := by
  cases h with
  | cyclicInclude _ hlast => exact hlast
  | _ => rfl

theorem TrueOf.involves (h : l.TrueOf first p e) : l.Involves first p := by
  cases h with
  | read hp => exact hp
  | parse _ hp => exact hp.involves
  | anchorNotFound _ hp => exact Or.inr ⟨_, hp⟩
  | anchorNotExtractable hp => exact Or.inr ⟨_, hp⟩
  | cyclicInclude hp => exact Or.inr ⟨_, hp⟩
  | invalidReference hp => exact hp.involves
  | unknownTag hp => exact hp.involves
  | multipleDocuments hp => exact Or.inr ⟨_, hp⟩

/-- The error of a tagged node that makes no reference is true of the file that holds it. -/
theorem trueOf_nodeError {d : Document} (hs : l.ComesTo first ⟨s.file, text⟩) (hd : d ∈ documents text)
    (hv : d.value = .ok v) (hnode : (t, u) ∈ v.taggedNodes) (hraw : includeText? t u = none) :
    l.TrueOf first s.file (nodeError t s) := by
  unfold includeText? at hraw
  unfold nodeError
  split at hraw
  next ht =>
    rw [if_pos ht]
    exact .invalidReference hs hd hv hnode ht (unnaming_of_referenceText? hraw)
  next ht =>
    rw [if_neg ht]
    exact .unknownTag hs hd hv hnode ht

theorem length_of_loadWithin_ok {vs : List Value} (h : (l.loadWithin n text s).result = .ok vs) :
    (documents text).length = vs.length := by
  cases n with
  | zero => cases h
  | succ n => exact (loadWithin_ok_iff.mp h).length_eq

/-- The error of what a reference asks for is one of the text that it asks for, or true of the file that it names. -/
theorem asked_error (hp : l.Names first anchor s.file) (hread : l.source.read s.file = .ok text)
    (h : (l.asked (l.loadWithin n) text s anchor).result = .error e) :
    (l.loadWithin n (askedText text anchor) s).result = .error e ∨ l.TrueOf first s.file e := by
  have hsingle (h : (single (l.loadWithin n) (askedText text anchor) s).result = .error e) :
      (l.loadWithin n (askedText text anchor) s).result = .error e ∨ l.TrueOf first s.file e := by
    obtain h | ⟨vs, rfl, hvs, hmany⟩ := single_error h
    · exact Or.inl h
    · rw [← length_of_loadWithin_ok hvs] at hmany ⊢
      exact Or.inr (.multipleDocuments hp hread hmany)
  cases anchor with
  | none => exact hsingle h
  | some a =>
    obtain h | ⟨hdef, rfl⟩ | ⟨hdef, hstrict, rfl⟩ := anchored_error h
    · exact hsingle h
    · exact Or.inr (.anchorNotExtractable hp hread hdef)
    · exact Or.inr (.anchorNotFound hstrict hp hread hdef)

/-- An error of a load that is not cut off is true of some file. -/
theorem loadWithin_trueOf (hl : l.tags = .empty) (hs : l.ComesTo first ⟨s.file, text⟩)
    (h : (l.loadWithin n text s).result = .error e) : (∃ p, e = .nestedTooDeep p) ∨ ∃ p, l.TrueOf first p e := by
  induction n generalizing s text with
  | zero => exact Or.inl ⟨s.file, (Except.error.inj h).symm⟩
  | succ n ih =>
    obtain h | ⟨m, hm, d, hd, h⟩ := loadWithin_error h
    · exact Or.inl ⟨_, h⟩
    obtain rfl : n = m := by omega
    obtain ⟨cause, rfl⟩ | ⟨v, hv, h⟩ := loadDocument_error h
    · exact Or.inr ⟨_, .parse cause hs⟩
    obtain ⟨t, u, r, hnode, h⟩ := onTag_error_of_resolveValue h
    cases hraw : includeText? t u with
    | none =>
      rw [onTag_of_empty hl hraw] at h
      obtain rfl := Except.error.inj h
      exact Or.inr ⟨_, trueOf_nodeError hs hd hv hnode hraw⟩
    | some raw =>
      rw [onTag_of_includeText? hraw] at h
      have hp : l.Names first (Reference.parse raw).anchor (l.target raw s.file) :=
        ⟨_, raw, hs, mem_references hd hv hnode hraw, rfl, rfl⟩
      have hstep (whole : String) (hread : l.source.read (l.target raw s.file) = .ok whole) :
          l.Leads ⟨s.file, text⟩ ⟨l.target raw s.file, askedText whole (Reference.parse raw).anchor⟩ :=
        .follow hd hv hnode hraw hread
      obtain h | ⟨fault, rfl, hread⟩ | ⟨inner, whole, hi, hread, h⟩ := follow_error h
      · obtain ⟨-, rfl⟩ := LoadState.enter_error_iff.mp h
        exact Or.inr ⟨_, .cyclicInclude hp List.getLast?_concat⟩
      · exact Or.inr ⟨_, .read (Or.inr ⟨_, hp⟩) hread⟩
      · obtain ⟨-, rfl⟩ := LoadState.enter_ok_iff.mp hi
        have hasked := hs.step (hstep whole hread)
        generalize l.target raw s.file = file at hp hread h hasked
        obtain h | h := @asked_error l ⟨s.chain, file⟩ first whole n e _ hp hread h
        · generalize askedText whole (Reference.parse raw).anchor = asked at h hasked
          exact @ih ⟨s.chain, file⟩ asked hasked h
        · exact Or.inr ⟨_, h⟩

theorem ne_nestedTooDeep_of_loadFile {fs : FileSet} {strict : Bool} {rootDir : Option Path} {cwd : Path}
    (h : ((fs.loader strict rootDir cwd).loadFile p).result = .error e) (q : Path) : e ≠ .nestedTooDeep q := by
  rintro rfl
  obtain h | ⟨text, -, h⟩ := result_bind_error_iff.mp h
  · obtain ⟨_, he, -⟩ := read_error_iff.mp h
    cases he
  · have hunseen : (fs.unseen (.root (p.absolutize cwd))).length < fs.files.length + 1 :=
      Nat.lt_succ_of_le (List.length_filter_le _ _)
    have huncut := loadWithin_uncut (readsAmong_fileSet fs strict rootDir cwd) rfl trivial
      (LoadState.underway_root fs (p.absolutize cwd)) hunseen hunseen text
    exact huncut.bounded q h

/-- An error of the load of a file that is not cut off is true of some file. -/
theorem loadFile_trueOf (hl : l.tags = .empty) (h : (l.loadFile p).result = .error e) :
    (∃ q, e = .nestedTooDeep q) ∨ ∃ q, l.TrueOf (p.absolutize l.cwd) q e := by
  obtain h | ⟨text, htext, h⟩ := result_bind_error_iff.mp h
  · obtain ⟨fault, rfl, hread⟩ := read_error_iff.mp h
    exact Or.inr ⟨_, .read (Or.inl rfl) hread⟩
  · exact loadWithin_trueOf hl ⟨text, read_ok_iff.mp htext, .refl⟩ h

end Loader

/-- What an error of a load says is true of the file that it names, which the load starts with or a reference on the
way names: a file that cannot be read is missing, and whatever else is said is true of the text that is parsed for the
file, its own or the one with an entry for an anchor. -/
theorem load_error_true_of_file (fs : FileSet) (strict : Bool) (rootDir : Option Path) (cwd path : Path)
    {e : LoadError} (h : ((fs.loader strict rootDir cwd).loadFile path).result = .error e) :
    let l := fs.loader strict rootDir cwd
    let first := path.absolutize cwd
    ∃ p, e.path? = some p ∧ l.Involves first p ∧ l.TrueOf first p e ∧
      (∀ fault, e = .read p fault → fs.find? p = none) ∧
      ∀ text, l.ComesTo first ⟨p, text⟩ →
        ∃ whole anchor, fs.find? p = some whole ∧ text = Loader.askedText whole anchor := by
  intro l first
  have hcut : ¬∃ q, e = .nestedTooDeep q := fun ⟨q, he⟩ => Loader.ne_nestedTooDeep_of_loadFile h q he
  obtain ⟨p, htrue⟩ := (Loader.loadFile_trueOf rfl h).resolve_left hcut
  refine ⟨p, htrue.path?_eq, htrue.involves, htrue, ?_, ?_⟩
  · rintro fault rfl
    cases htrue with
    | read hp hread =>
      cases hfind : fs.find? p with
      | none => rfl
      | some text => exact nomatch hread.symm.trans (FileSet.read_source_iff.mpr hfind)
  · intro text hcomes
    obtain ⟨whole, hread, ⟨-, htext⟩ | ⟨anchor, -, htext⟩⟩ := hcomes.text_eq
    · exact ⟨whole, none, FileSet.read_source_iff.mp hread, htext⟩
    · exact ⟨whole, anchor, FileSet.read_source_iff.mp hread, htext⟩

theorem many_documents_true_of_included :
    let l := FileSet.loader ⟨[(⟨"/a.yml"⟩, "k: !include b.yml\n"), (⟨"/b.yml"⟩, "1\n---\n2\n")]⟩ true none ⟨"/"⟩
    let e : LoadError := .multipleDocuments 2 ⟨"/b.yml"⟩
    (l.loadFile ⟨"/a.yml"⟩).result = .error e ∧ l.TrueOf ⟨"/a.yml"⟩ ⟨"/b.yml"⟩ e := by
  intro l e
  have h : (l.loadFile ⟨"/a.yml"⟩).result = .error e := by decide +kernel
  obtain ⟨p, hp, -, htrue, -⟩ := load_error_true_of_file _ _ _ _ _ h
  obtain rfl : ⟨"/b.yml"⟩ = p := Option.some.inj hp
  exact ⟨h, htrue⟩

end YamlInclude
