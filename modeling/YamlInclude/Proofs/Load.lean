import YamlInclude.Proofs.Resolve

/-! # Steps of a load

Each function of the loader keeps every relation between loads that its single steps satisfy. A loader
that knows no other tags follows its include nodes and fails at any other tagged node.
-/

namespace YamlInclude

open Yaml Traced

namespace Loader

/-- The reference that a tagged node makes, if it is an include node of a scalar. -/
def includeText? (t : String) (u : Value) : Option String :=
  if tagName (Value.tagText t) = includeTag then referenceText? u else none

def target (l : Loader) (raw : String) (from_ : Path) : Path :=
  Target.resolve (Reference.parse raw).path from_ l.root l.source.isFile

/-- The error of a tagged node that makes no reference and has no constructor. -/
def nodeError (t : String) (s : LoadState) : LoadError :=
  if tagName (Value.tagText t) = includeTag then .invalidReference s.file
  else .unknownTag (tagName (Value.tagText t)) s.file

variable {l l₁ l₂ : Loader} {load load₁ load₂ : LoadText} {s s₁ s₂ : LoadState} {t raw text : String}
  {u : Value} {r : Unit → Traced Value}

theorem taggedNodes_of_referenceText? (h : referenceText? u = some raw) : u.taggedNodes = [] := by
  cases u <;> simp_all [referenceText?, Value.taggedNodes]

theorem taggedNodes_of_includeText? (h : includeText? t u = some raw) : u.taggedNodes = [] := by
  unfold includeText? at h
  split at h
  · exact taggedNodes_of_referenceText? h
  · cases h

theorem onTag_of_includeText? (h : includeText? t u = some raw) :
    l.onTag load s t u r = l.follow load raw s := by
  unfold includeText? at h
  split at h
  next hn => simp only [onTag, if_pos hn, h]
  · cases h

theorem onTag_of_empty (hl : l.tags = .empty) (h : includeText? t u = none) :
    l.onTag load s t u r = .fail (nodeError t s) := by
  unfold includeText? at h
  unfold onTag nodeError
  split at h
  next hn => simp only [if_pos hn, h]
  next hn => simp only [if_neg hn, hl, TagRegistry.get?, TagRegistry.empty, List.lookup]

theorem onTag_ok {w : Value} (h : (l.onTag load s t u r).result = .ok w) :
    (∃ raw, includeText? t u = some raw ∧ (l.follow load raw s).result = .ok w) ∨
    ∃ construct, l.tags.get? (tagName (Value.tagText t)) = some construct ∧
      (construct ⟨tagName (Value.tagText t), s.file, t, u, r, fun raw => l.follow load raw s⟩).result = .ok w := by
  by_cases hn : tagName (Value.tagText t) = includeTag
  · cases hraw : referenceText? u with
    | some raw =>
      have hu : includeText? t u = some raw := by rw [includeText?, if_pos hn, hraw]
      exact Or.inl ⟨raw, hu, by rwa [onTag_of_includeText? hu] at h⟩
    | none => simp only [onTag, if_pos hn, hraw] at h; cases h
  · cases hget : l.tags.get? (tagName (Value.tagText t)) with
    | none => simp only [onTag, if_neg hn, hget] at h; cases h
    | some construct => exact Or.inr ⟨construct, rfl, by simpa only [onTag, if_neg hn, hget] using h⟩

theorem includeText?_of_onTag_ok (hl : l.tags = .empty) {w : Value}
    (h : (l.onTag load s t u r).result = .ok w) : ∃ raw, includeText? t u = some raw := by
  cases hu : includeText? t u with
  | none => rw [onTag_of_empty hl hu] at h; cases h
  | some raw => exact ⟨raw, rfl⟩

theorem taggedNodes_of_onTag_ok (hl : l.tags = .empty) {w : Value}
    (h : (l.onTag load s t u r).result = .ok w) : u.taggedNodes = [] := by
  obtain ⟨raw, hraw⟩ := includeText?_of_onTag_ok hl h
  exact taggedNodes_of_includeText? hraw

theorem nodeError_ne_nestedTooDeep (p : Path) : nodeError t s ≠ .nestedTooDeep p := by
  unfold nodeError
  split <;> exact nofun

theorem nodeError_ne_cyclicInclude (ps : List Path) : nodeError t s ≠ .cyclicInclude ps := by
  unfold nodeError
  split <;> exact nofun

section Congruence

variable {R : ∀ {α : Type}, Traced α → Traced α → Prop}

theorem single_congr (hR : Congruence R) (hfile : s₁.file = s₂.file)
    (h : R (load₁ text s₁) (load₂ text s₂)) : R (single load₁ text s₁) (single load₂ text s₂) := by
  refine hR.bind h fun vs => ?_
  match vs with
  | [] => exact hR.pure _
  | [v] => exact hR.pure _
  | v :: w :: vs =>
    rw [hfile]
    exact hR.fail _ fun _ => nofun

theorem anchored_congr (hR : Congruence R) (hfile : s₁.file = s₂.file)
    (hstrict : l₁.strictAnchors = l₂.strictAnchors) {anchor : String}
    (h : R (load₁ (Anchor.splice text anchor) s₁) (load₂ (Anchor.splice text anchor) s₂)) :
    R (l₁.anchored load₁ text anchor s₁) (l₂.anchored load₂ text anchor s₂) := by
  unfold anchored
  rw [hfile, hstrict]
  split
  · refine hR.bind (single_congr hR hfile h) fun v => ?_
    cases v with
    | mapping es =>
      simp only
      split
      · exact hR.pure _
      · exact hR.fail _ fun _ => nofun
    | _ => exact hR.fail _ fun _ => nofun
  · split
    · exact hR.fail _ fun _ => nofun
    · exact hR.bind (hR.note _ fun _ => nofun) fun _ => hR.pure _

theorem loadEach_congr (hR : Congruence R) {one₁ one₂ : Document → Traced Value} (ds : List Document)
    (h : ∀ d ∈ ds, R (one₁ d) (one₂ d)) : R (loadEach one₁ ds) (loadEach one₂ ds) := by
  induction ds with
  | nil => exact hR.pure _
  | cons d ds ih =>
    have hds := ih fun d' hd => h d' (List.mem_cons_of_mem _ hd)
    exact hR.bind (h d List.mem_cons_self) fun _ => hR.bind hds fun _ => hR.pure _

theorem loadDocument_congr (hR : Congruence R) (hfile : s₁.file = s₂.file) (d : Document)
    (h : ∀ v, d.value = .ok v → AgreeOn R (l₁.onTag load₁ s₁) (l₂.onTag load₂ s₂) v.taggedNodes) :
    R (l₁.loadDocument load₁ s₁ d) (l₂.loadDocument load₂ s₂ d) := by
  unfold loadDocument
  rw [hfile]
  cases hd : d.value with
  | error e => exact hR.fail _ fun _ => nofun
  | ok v =>
    simp only [Except.mapError, ofExcept_ok, pure_bind]
    refine hR.bind (resolveValue_congr hR v (h v hd)) fun w => ?_
    cases w.expandMerges with
    | error f => exact hR.fail _ fun _ => nofun
    | ok w => exact hR.pure _

end Congruence

theorem loadEach_ok {one : Document → Traced Value} {ds : List Document} {vs : List Value}
    (h : (loadEach one ds).result = .ok vs) {d : Document} (hd : d ∈ ds) :
    ∃ v ∈ vs, (one d).result = .ok v := by
  induction ds generalizing vs with
  | nil => cases hd
  | cons d' ds ih =>
    obtain ⟨v, hv, h⟩ := result_bind_ok_iff.mp h
    obtain ⟨ws, hws, h⟩ := result_bind_ok_iff.mp h
    obtain rfl : v :: ws = vs := by injection h
    rcases List.mem_cons.mp hd with rfl | hd
    · exact ⟨v, List.mem_cons_self, hv⟩
    · obtain ⟨w, hw, ho⟩ := ih hws hd
      exact ⟨w, List.mem_cons_of_mem _ hw, ho⟩

theorem loadEach_error {one : Document → Traced Value} {ds : List Document} {e : LoadError}
    (h : (loadEach one ds).result = .error e) : ∃ d ∈ ds, (one d).result = .error e := by
  induction ds with
  | nil => cases h
  | cons d ds ih =>
    obtain h | ⟨v, -, h⟩ := result_bind_error_iff.mp h
    · exact ⟨d, List.mem_cons_self, h⟩
    · obtain h | ⟨_, -, h⟩ := result_bind_error_iff.mp h
      · obtain ⟨d', hd, he⟩ := ih h
        exact ⟨d', List.mem_cons_of_mem _ hd, he⟩
      · cases h

theorem single_ok {w : Value} (h : (single load text s).result = .ok w) :
    ∃ vs, (load text s).result = .ok vs ∧ (vs = [] ∧ w = .null ∨ vs = [w]) := by
  obtain ⟨vs, hvs, h⟩ := result_bind_ok_iff.mp h
  refine ⟨vs, hvs, ?_⟩
  match vs with
  | [] => exact Or.inl ⟨rfl, by injection h with h; exact h.symm⟩
  | [v] => exact Or.inr (by injection h with h; rw [h])
  | _ :: _ :: _ => cases h

theorem single_error {e : LoadError} (h : (single load text s).result = .error e) :
    (load text s).result = .error e ∨ ∃ vs, e = .multipleDocuments vs.length s.file ∧
      (load text s).result = .ok vs ∧ 2 ≤ vs.length := by
  obtain h | ⟨vs, hvs, h⟩ := result_bind_error_iff.mp h
  · exact Or.inl h
  · match vs with
    | [] => cases h
    | [_] => cases h
    | _ :: _ :: vs => exact Or.inr ⟨_, by injection h with h; exact h.symm, hvs, Nat.le_add_left 2 vs.length⟩

theorem anchored_ok {anchor : String} {w : Value} (h : (l.anchored load text anchor s).result = .ok w) :
    (∃ es rest, (single load (Anchor.splice text anchor) s).result = .ok (.mapping es) ∧
      Entries.swapRemove (.string Anchor.sentinel) es = some (w, rest)) ∨
    l.strictAnchors = false ∧ Anchor.isDefined text anchor = false ∧ w = .null := by
  unfold anchored at h
  split at h
  · obtain ⟨v, hv, h⟩ := result_bind_ok_iff.mp h
    cases v with
    | mapping es =>
      cases hrem : Entries.swapRemove (.string Anchor.sentinel) es with
      | none => simp [hrem] at h
      | some found =>
        obtain ⟨v, rest⟩ := found
        obtain rfl : v = w := by simpa [hrem] using h
        exact Or.inl ⟨es, rest, hv, hrem⟩
    | _ => cases h
  next hdef =>
    split at h
    · cases h
    next hstrict =>
      obtain ⟨_, -, h⟩ := result_bind_ok_iff.mp h
      exact Or.inr ⟨by simpa using hstrict, by simpa using hdef, by injection h with h; exact h.symm⟩

theorem anchored_error {anchor : String} {e : LoadError}
    (h : (l.anchored load text anchor s).result = .error e) :
    (single load (Anchor.splice text anchor) s).result = .error e ∨
      (Anchor.isDefined text anchor = true ∧ e = .anchorNotExtractable anchor s.file) ∨
      Anchor.isDefined text anchor = false ∧ l.strictAnchors = true ∧ e = .anchorNotFound anchor s.file := by
  unfold anchored at h
  split at h
  next hdef =>
    obtain h | ⟨v, -, h⟩ := result_bind_error_iff.mp h
    · exact Or.inl h
    · refine Or.inr (Or.inl ⟨hdef, ?_⟩)
      cases v with
      | mapping es =>
        cases hrem : Entries.swapRemove (.string Anchor.sentinel) es <;> simp [hrem] at h
        exact h.symm
      | _ => injection h with h; exact h.symm
  next hdef =>
    split at h
    next hstrict => exact Or.inr (Or.inr ⟨by simpa using hdef, hstrict, by injection h with h; exact h.symm⟩)
    · cases h

/-- The value of a text that a reference asks for: the whole of it, or one anchored node. -/
def asked (l : Loader) (load : LoadText) (text : String) (s : LoadState) : Option String → Traced Value
  | none => single load text s
  | some a => l.anchored load text a s

theorem follow_eq (l : Loader) (load : LoadText) (raw : String) (s : LoadState) :
    l.follow load raw s = (do
      let inner ← .ofExcept (s.enter (l.target raw s.file))
      Traced.note (.followed s.file (l.target raw s.file) (Reference.parse raw).anchor inner.depth)
      let text ← l.read (l.target raw s.file)
      l.asked load text inner (Reference.parse raw).anchor) := rfl

theorem read_ok_iff {p : Path} : (l.read p).result = .ok text ↔ l.source.read p = .ok text := by
  unfold read
  cases l.source.read p <;> simp [Except.mapError]

theorem read_error_iff {p : Path} {e : LoadError} :
    (l.read p).result = .error e ↔ ∃ fault, e = .read p fault ∧ l.source.read p = .error fault := by
  unfold read
  cases l.source.read p <;> simp [Except.mapError, eq_comm]

theorem read_error {p : Path} {e : LoadError} (h : (l.read p).result = .error e) :
    ∃ fault, e = .read p fault := by
  obtain ⟨fault, he, -⟩ := read_error_iff.mp h
  exact ⟨fault, he⟩

theorem follow_ok {w : Value} (h : (l.follow load raw s).result = .ok w) :
    ∃ inner text, s.enter (l.target raw s.file) = .ok inner ∧
      l.source.read (l.target raw s.file) = .ok text ∧
      (l.asked load text inner (Reference.parse raw).anchor).result = .ok w := by
  rw [follow_eq] at h
  obtain ⟨inner, hi, h⟩ := result_bind_ok_iff.mp h
  obtain ⟨_, -, h⟩ := result_bind_ok_iff.mp h
  obtain ⟨text, ht, h⟩ := result_bind_ok_iff.mp h
  exact ⟨inner, text, hi, read_ok_iff.mp ht, h⟩

theorem follow_error {e : LoadError} (h : (l.follow load raw s).result = .error e) :
    s.enter (l.target raw s.file) = .error e ∨
    (∃ fault, e = .read (l.target raw s.file) fault ∧ l.source.read (l.target raw s.file) = .error fault) ∨
    ∃ inner text, s.enter (l.target raw s.file) = .ok inner ∧
      l.source.read (l.target raw s.file) = .ok text ∧
      (l.asked load text inner (Reference.parse raw).anchor).result = .error e := by
  rw [follow_eq] at h
  obtain h | ⟨inner, hi, h⟩ := result_bind_error_iff.mp h
  · exact Or.inl h
  obtain h | ⟨_, -, h⟩ := result_bind_error_iff.mp h
  · cases h
  obtain h | ⟨text, ht, h⟩ := result_bind_error_iff.mp h
  · exact Or.inr (Or.inl (read_error_iff.mp h))
  · exact Or.inr (Or.inr ⟨inner, text, hi, read_ok_iff.mp ht, h⟩)

theorem loadDocument_ok {d : Document} {w : Value} (h : (l.loadDocument load s d).result = .ok w) :
    ∃ raw v, d.value = .ok raw ∧ (resolveValue (l.onTag load s) raw).result = .ok v ∧
      v.expandMerges = .ok w := by
  unfold loadDocument at h
  obtain ⟨raw, hraw, h⟩ := result_bind_ok_iff.mp h
  obtain ⟨v, hv, h⟩ := result_bind_ok_iff.mp h
  refine ⟨raw, v, ?_, hv, ?_⟩
  · cases hd : d.value <;> rw [hd] at hraw <;> cases hraw
    rfl
  · cases hm : v.expandMerges <;> rw [hm] at h <;> cases h
    rfl

theorem loadDocument_ok_iff {d : Document} {v w : Value} (hv : d.value = .ok v) :
    (l.loadDocument load s d).result = .ok w ↔
      ∃ r, (resolveValue (l.onTag load s) v).result = .ok r ∧ r.expandMerges = .ok w := by
  constructor
  · intro h
    obtain ⟨v', r, hv', hr, hw⟩ := loadDocument_ok h
    obtain rfl := Except.ok.inj (hv'.symm.trans hv)
    exact ⟨r, hr, hw⟩
  · rintro ⟨r, hr, hw⟩
    unfold loadDocument
    rw [hv]
    exact result_bind_ok_iff.mpr ⟨v, rfl, result_bind_ok_iff.mpr ⟨r, hr, by rw [hw]; rfl⟩⟩

theorem loadDocument_error {d : Document} {e : LoadError}
    (h : (l.loadDocument load s d).result = .error e) :
    (∃ cause, e = .parse s.file cause) ∨
      ∃ raw, d.value = .ok raw ∧ (resolveValue (l.onTag load s) raw).result = .error e := by
  unfold loadDocument at h
  cases hd : d.value with
  | error cause =>
    rw [hd] at h
    exact Or.inl ⟨cause, by injection h with h; exact h.symm⟩
  | ok raw =>
    simp only [hd, Except.mapError, ofExcept_ok, pure_bind] at h
    obtain h | ⟨v, -, h⟩ := result_bind_error_iff.mp h
    · exact Or.inr ⟨raw, rfl, h⟩
    · cases hm : v.expandMerges with
      | error f =>
        rw [hm] at h
        exact Or.inl ⟨.merge f, by injection h with h; exact h.symm⟩
      | ok w => rw [hm] at h; cases h

theorem loadWithin_ok {n : Nat} {ds : List Value} (h : (l.loadWithin n text s).result = .ok ds)
    {d : Document} (hd : d ∈ documents text) :
    ∃ m w, n = m + 1 ∧ w ∈ ds ∧ (l.loadDocument (l.loadWithin m) s d).result = .ok w := by
  cases n with
  | zero => cases h
  | succ m =>
    obtain ⟨_, -, h⟩ := result_bind_ok_iff.mp h
    obtain ⟨w, hw, ho⟩ := loadEach_ok h hd
    exact ⟨m, w, rfl, hw, ho⟩

theorem loadWithin_error {n : Nat} {e : LoadError} (h : (l.loadWithin n text s).result = .error e) :
    e = .nestedTooDeep s.file ∨
      ∃ m, n = m + 1 ∧ ∃ d ∈ documents text, (l.loadDocument (l.loadWithin m) s d).result = .error e := by
  cases n with
  | zero => exact Or.inl (by injection h with h; exact h.symm)
  | succ m =>
    obtain h | ⟨_, -, h⟩ := result_bind_error_iff.mp h
    · cases h
    · exact Or.inr ⟨m, rfl, loadEach_error h⟩

theorem loadFile_ok {p : Path} {vs : List Value} (h : (l.loadFile p).result = .ok vs) :
    ∃ text, l.source.read (p.absolutize l.cwd) = .ok text ∧
      (l.loadText text (.root (p.absolutize l.cwd))).result = .ok vs := by
  obtain ⟨text, ht, h⟩ := result_bind_ok_iff.mp h
  exact ⟨text, read_ok_iff.mp ht, h⟩

end Loader

end YamlInclude
