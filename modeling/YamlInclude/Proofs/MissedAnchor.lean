import YamlInclude.Proofs.Context

/-! # Missing anchors

A load that is strict about anchors and a lenient one go the same way until an anchor is missing from the text of
a file. There the strict one fails, with an error that no lenient load has.
-/

namespace YamlInclude

open Yaml Traced

namespace LoadError

def isOfAnchor : LoadError → Bool
  | .anchorNotFound .. | .anchorNotExtractable .. => true
  | _ => false

def isMissedAnchor : LoadError → Bool
  | .anchorNotFound .. => true
  | _ => false

theorem isMissedAnchor_iff {e : LoadError} : e.isMissedAnchor = true ↔ ∃ a p, e = .anchorNotFound a p := by
  cases e <;> simp [isMissedAnchor]

end LoadError

namespace Loader

variable {l l₁ l₂ : Loader} {load load₁ load₂ : LoadText} {s : LoadState} {text anchor : String} {n : Nat}

/-- The errors about anchors that a load from a state may have: the file is none of those around it, and its text
lacks the anchor where the load is strict, or has it. -/
inductive AnchorFault (l : Loader) (s : LoadState) : LoadError → Prop
  | missing {a text : String} {p : Path} (hstrict : l.strictAnchors = true)
      (hoff : s.chain.any (·.same p) = false) (hread : l.source.read p = .ok text)
      (hdef : Anchor.isDefined text a = false) : AnchorFault l s (.anchorNotFound a p)
  | unfit {a text : String} {p : Path} (hoff : s.chain.any (·.same p) = false)
      (hread : l.source.read p = .ok text) (hdef : Anchor.isDefined text a = true) :
      AnchorFault l s (.anchorNotExtractable a p)

theorem AnchorFault.of_entered {p : Path} {e : LoadError} (h : l.AnchorFault ⟨s.chain, p⟩ e) : l.AnchorFault s e := by
  have houter {q : Path} (hq : (⟨s.chain, p⟩ : LoadState).chain.any (·.same q) = false) :
      s.chain.any (·.same q) = false := by
    rw [LoadState.chain_entered, List.any_append, Bool.or_eq_false_iff] at hq
    exact hq.1
  cases h with
  | missing hstrict hoff hread hdef => exact .missing hstrict (houter hoff) hread hdef
  | unfit hoff hread hdef => exact .unfit (houter hoff) hread hdef

/-- No error of a load is about an anchor of its own file. -/
theorem not_anchorFault_file {a : String} {e : LoadError}
    (he : e = .anchorNotFound a s.file ∨ e = .anchorNotExtractable a s.file) : ¬l.AnchorFault s e := by
  have hon : s.chain.any (·.same s.file) = true := by simp [LoadState.chain]
  intro h
  obtain rfl | rfl := he
  · cases h with
    | missing _ hoff => exact Bool.false_ne_true (hoff.symm.trans hon)
  · cases h with
    | unfit hoff => exact Bool.false_ne_true (hoff.symm.trans hon)

theorem not_isOfAnchor_nodeError (t : String) (s : LoadState) : (nodeError t s).isOfAnchor = false := by
  unfold nodeError
  split <;> rfl

theorem loadWithin_anchorFault (hl : l.tags = .empty) {e : LoadError} (he : e.isOfAnchor = true)
    (h : (l.loadWithin n text s).result = .error e) : l.AnchorFault s e := by
  induction n generalizing text s with
  | zero =>
    obtain rfl := Except.error.inj h
    cases he
  | succ n ih =>
    obtain rfl | ⟨m, hm, d, -, h⟩ := loadWithin_error h
    · cases he
    obtain rfl : n = m := by omega
    obtain ⟨_, rfl⟩ | ⟨v, -, h⟩ := loadDocument_error h
    · cases he
    obtain ⟨t, u, r, -, h⟩ := onTag_error_of_resolveValue h
    cases hraw : includeText? t u with
    | none =>
      rw [onTag_of_empty hl hraw] at h
      obtain rfl := Except.error.inj h
      rw [not_isOfAnchor_nodeError] at he
      cases he
    | some raw =>
      rw [onTag_of_includeText? hraw] at h
      have h := follow_error h
      generalize l.target raw s.file = p at h
      generalize (Reference.parse raw).anchor = anchor at h
      obtain h | ⟨_, rfl, -⟩ | ⟨inner, whole, hi, hread, h⟩ := h
      · obtain ⟨-, rfl⟩ := LoadState.enter_error_iff.mp h
        cases he
      · cases he
      obtain ⟨hoff, rfl⟩ := LoadState.enter_ok_iff.mp hi
      have hinside {text : String} (h : (single (l.loadWithin n) text ⟨s.chain, p⟩).result = .error e) :
          l.AnchorFault s e := by
        obtain h | ⟨_, rfl, -⟩ := single_error h
        · exact (ih h).of_entered
        · cases he
      cases anchor with
      | none => exact hinside h
      | some a =>
        obtain h | ⟨hdef, rfl⟩ | ⟨hdef, hstrict, rfl⟩ := anchored_error h
        · exact hinside h
        · exact .unfit hoff hread hdef
        · exact .missing hstrict hoff hread hdef

theorem anchored_of_isDefined (h : Anchor.isDefined text anchor = true) :
    l₁.anchored load text anchor s = l₂.anchored load text anchor s := by
  unfold anchored
  rw [if_pos h, if_pos h]

theorem anchored_of_strict (hstrict : l.strictAnchors = true) (h : Anchor.isDefined text anchor = false) :
    l.anchored load text anchor s = .fail (.anchorNotFound anchor s.file) := by
  simp [anchored, h, hstrict]

theorem anchored_of_lenient (hlenient : l.strictAnchors = false) (h : Anchor.isDefined text anchor = false) :
    (l.anchored load text anchor s).result = .ok .null := by
  simp [anchored, h, hlenient, result_bind]
  rfl

variable {src : Source} {rootDir : Option Path} {cwd : Path}

/-- What a reference asks for of a text is the same for a strict loader and a lenient one, unless its anchor is
missing. -/
theorem asked_lenient {load₁ load₂ : LoadText} {s : LoadState} {text : String}
    (h : ∀ text, Follows LoadError.isMissedAnchor (load₁ text s) (load₂ text s)) (anchor : Option String) :
    Follows LoadError.isMissedAnchor ((src.loader true rootDir cwd).asked load₁ text s anchor)
      ((src.loader false rootDir cwd).asked load₂ text s anchor) := by
  cases anchor with
  | none => exact single_congr (follows_congruence _) rfl (h text)
  | some a =>
    simp only [asked]
    cases hdef : Anchor.isDefined text a with
    | true =>
      have hsame : (src.loader true rootDir cwd).anchored load₁ text a s =
          (src.loader false rootDir cwd).anchored load₁ text a s := anchored_of_isDefined hdef
      rw [hsame]
      exact anchored_congr (follows_congruence _) rfl rfl (h _)
    | false => exact Or.inr ⟨_, by rw [anchored_of_strict rfl hdef]; rfl, rfl⟩

/-- A lenient load has the result of a strict one, unless that fails for a missing anchor. -/
theorem loadWithin_lenient (n : Nat) (text : String) (s : LoadState) :
    Follows LoadError.isMissedAnchor ((src.loader true rootDir cwd).loadWithin n text s)
      ((src.loader false rootDir cwd).loadWithin n text s) := by
  have hR := follows_congruence LoadError.isMissedAnchor
  induction n generalizing text s with
  | zero => exact Or.inl rfl
  | succ n ih =>
    refine Follows.bind (Or.inl rfl) fun _ => loadEach_congr hR _ fun d _ => ?_
    refine loadDocument_congr hR rfl d fun v _ t u _ r₁ r₂ _ => ?_
    cases hu : includeText? t u with
    | none =>
      rw [onTag_of_empty rfl hu, onTag_of_empty rfl hu]
      exact Or.inl rfl
    | some raw =>
      rw [onTag_of_includeText? hu, onTag_of_includeText? hu, follow_eq, follow_eq]
      refine Follows.bind (Or.inl rfl) fun inner => ?_
      refine Follows.bind (Or.inl rfl) fun _ => Follows.bind (Or.inl rfl) fun whole => ?_
      exact asked_lenient (fun text => ih text inner) _

end Loader

/-- Strict and lenient loads agree but for missing anchors: a value of the strict one is the value of the lenient
one, another error than a missing anchor is its error, and no anchor is missing for the lenient one. -/
theorem lenient_load_agrees (src : Source) (rootDir : Option Path) (cwd path : Path) (text : String) :
    let agree (load : Loader → Traced (List Value)) : Prop :=
      let strict := (load (src.loader true rootDir cwd)).result
      let lenient := (load (src.loader false rootDir cwd)).result
      (∀ ds, strict = .ok ds → lenient = .ok ds) ∧
      (∀ e, strict = .error e → (∀ a p, e ≠ .anchorNotFound a p) → lenient = .error e) ∧
      ∀ a p, lenient ≠ .error (.anchorNotFound a p)
    agree (·.loadFile path) ∧ agree (·.loadString text path) ∧
      ∀ n s, agree (·.loadWithin n text s) := by
  intro agree
  have hagree (load : Loader → Traced (List Value))
      (hfollows : Follows LoadError.isMissedAnchor (load (src.loader true rootDir cwd))
        (load (src.loader false rootDir cwd)))
      (hnever : ∀ a p, (load (src.loader false rootDir cwd)).result ≠ .error (.anchorNotFound a p)) :
      agree load := by
    refine ⟨fun ds hds => hfollows.eq_of_ok hds, fun e he hne => hfollows.eq_of_error he ?_, hnever⟩
    refine Bool.eq_false_iff.mpr fun hmissed => ?_
    obtain ⟨a, p, rfl⟩ := LoadError.isMissedAnchor_iff.mp hmissed
    exact hne a p rfl
  have hnever (n : Nat) (text : String) (s : LoadState) (a : String) (p : Path) :
      ((src.loader false rootDir cwd).loadWithin n text s).result ≠ .error (.anchorNotFound a p) := by
    intro h
    cases Loader.loadWithin_anchorFault rfl rfl h with
    | missing hstrict => cases hstrict
  refine ⟨hagree (·.loadFile path) ?_ fun a p h => ?_,
    hagree (·.loadString text path) (Loader.loadWithin_lenient _ _ _) (hnever _ _ _),
    fun n s => hagree (·.loadWithin n text s) (Loader.loadWithin_lenient _ _ _) (hnever _ _ _)⟩
  · exact Follows.bind (Or.inl rfl) fun text => Loader.loadWithin_lenient _ text _
  · obtain h | ⟨text, -, h⟩ := result_bind_error_iff.mp h
    · obtain ⟨_, h⟩ := Loader.read_error h
      cases h
    · exact hnever _ _ _ _ _ h

end YamlInclude
