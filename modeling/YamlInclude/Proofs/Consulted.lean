import YamlInclude.Proofs.Walk

/-! # What a load asks for

A load asks its source for the file that it starts with, for the targets of the references that it comes to, and
before that for files that decide these targets. Two sources with the same answers to these questions give the
same values.
-/

namespace YamlInclude

open Yaml Traced

def SameValues {α : Type} (x y : Traced α) : Prop := ∀ a, x.result = .ok a ↔ y.result = .ok a

theorem SameValues.bind {α β : Type} {x y : Traced α} {f g : α → Traced β} (h : SameValues x y)
    (hf : ∀ a, x.result = .ok a → SameValues (f a) (g a)) : SameValues (x >>= f) (y >>= g) := by
  intro b
  rw [result_bind_ok_iff, result_bind_ok_iff]
  constructor
  · rintro ⟨a, ha, hb⟩
    exact ⟨a, (h a).mp ha, (hf a ha b).mp hb⟩
  · rintro ⟨a, ha, hb⟩
    exact ⟨a, (h a).mpr ha, (hf a ((h a).mpr ha) b).mpr hb⟩

theorem sameValues_congruence : Congruence SameValues where
  pure _ _ := Iff.rfl
  fail _ _ _ := Iff.rfl
  note _ _ _ := Iff.rfl
  bind h hf := h.bind fun a _ => hf a

/-- Whether two sources answer alike about a path. -/
structure Source.Agree (src src' : Source) (p : Path) : Prop where
  isFile : src.isFile p = src'.isFile p
  read : ∀ text, src.read p = .ok text ↔ src'.read p = .ok text

namespace Loader

variable {l : Loader} {src : Source} {load load' : LoadText} {s : LoadState} {first : Path} {raw text : String}

/-- The paths that a reference asks for as seen from a file: what it names with `.yml`, if that has no extension,
and its target. -/
def asks (l : Loader) (raw : String) (from_ : Path) : List Path :=
  let p := (Target.located (Reference.parse raw).path from_ l.root).normalize
  (if p.hasYamlExtension then [] else [p.append ['.', 'y', 'm', 'l']]) ++ [l.target raw from_]

inductive Consults (l : Loader) (first : Path) : Path → Prop
  | first : Consults l first first
  | reference {a : Visit} {d : Document} {v u : Value} {text t raw : String} {q : Path}
      (hfirst : l.source.read first = .ok text) (ha : Relation.ReflTransGen (Leads l) ⟨first, text⟩ a)
      (hd : d ∈ documents a.text) (hv : d.value = .ok v) (hu : (t, u) ∈ v.taggedNodes)
      (hr : includeText? t u = some raw) (hq : q ∈ l.asks raw a.file) : Consults l first q

def references (a : Visit) : List String :=
  (documents a.text).flatMap fun d =>
    match d.value with
    | .ok v => v.taggedNodes.filterMap fun (t, u) => includeText? t u
    | .error _ => []

theorem mem_references {a : Visit} {d : Document} {v u : Value} {t : String} (hd : d ∈ documents a.text)
    (hv : d.value = .ok v) (hu : (t, u) ∈ v.taggedNodes) (hr : includeText? t u = some raw) : raw ∈ references a := by
  refine List.mem_flatMap.mpr ⟨d, hd, ?_⟩
  rw [hv]
  exact List.mem_filterMap.mpr ⟨(t, u), hu, hr⟩

/-- The paths that the references of visits ask for. -/
def asksFrom (l : Loader) (visits : List Visit) : List Path :=
  visits.flatMap fun a => (references a).flatMap fun raw => l.asks raw a.file

/-- Whether visits lead to none but themselves. -/
def isClosed (l : Loader) (visits : List Visit) : Bool :=
  visits.all fun a => (references a).all fun raw =>
    match l.source.read (l.target raw a.file) with
    | .ok text => visits.any fun b =>
      b.file == l.target raw a.file && b.text == askedText text (Reference.parse raw).anchor
    | .error _ => true

theorem mem_of_leads {visits : List Visit} {a b : Visit} (hclosed : l.isClosed visits = true) (ha : a ∈ visits)
    (h : Relation.ReflTransGen (Leads l) a b) : b ∈ visits := by
  induction h with
  | refl => exact ha
  | @tail a' b _ hstep ih =>
    cases hstep with
    | @follow d v u t raw text hd hv hu hr ht =>
      have hall := List.all_eq_true.mp (List.all_eq_true.mp hclosed a' ih) raw (mem_references hd hv hu hr)
      rw [ht] at hall
      obtain ⟨b, hb, heq⟩ := List.any_eq_true.mp hall
      obtain ⟨hfile, htext⟩ := Bool.and_eq_true_iff.mp heq
      rwa [← beq_iff_eq.mp hfile, ← beq_iff_eq.mp htext]

theorem Consults.mem_of_isClosed {visits : List Visit} {q : Path} (hclosed : l.isClosed visits = true)
    (hfirst : ∀ text, l.source.read first = .ok text → ⟨first, text⟩ ∈ visits) (h : l.Consults first q) :
    q ∈ first :: l.asksFrom visits := by
  cases h with
  | first => exact List.mem_cons_self
  | @reference a _ _ _ _ _ raw _ hread hreach hd hv hu hr hq =>
    refine List.mem_cons_of_mem _ (List.mem_flatMap.mpr ⟨a, mem_of_leads hclosed (hfirst _ hread) hreach, ?_⟩)
    exact List.mem_flatMap.mpr ⟨raw, mem_references hd hv hu hr, hq⟩

def withSource (l : Loader) (src : Source) : Loader := { l with source := src }

theorem target_withSource (h : ∀ q ∈ l.asks raw first, l.source.Agree src q) :
    (l.withSource src).target raw first = l.target raw first := by
  have hroot : (l.withSource src).root = l.root := rfl
  unfold target Target.resolve
  rw [hroot]
  generalize hp : (Target.located (Reference.parse raw).path first l.root).normalize = p
  dsimp only
  split
  · rfl
  next hext =>
    have hask : p.append ['.', 'y', 'm', 'l'] ∈ l.asks raw first := by
      rw [asks, hp]
      simp [hext]
    rw [(h _ hask).isFile]
    rfl

theorem asked_congr {R : ∀ {α : Type}, Traced α → Traced α → Prop} (hR : Congruence R) {l' : Loader}
    (hstrict : l.strictAnchors = l'.strictAnchors) {anchor : Option String}
    (h : R (load (askedText text anchor) s) (load' (askedText text anchor) s)) :
    R (l.asked load text s anchor) (l'.asked load' text s anchor) := by
  cases anchor with
  | none => exact single_congr hR rfl h
  | some a => exact anchored_congr hR rfl hstrict h

theorem follow_withSource (hasks : ∀ q ∈ l.asks raw s.file, l.source.Agree src q)
    (h : ∀ inner text, s.enter (l.target raw s.file) = .ok inner → l.source.read (l.target raw s.file) = .ok text →
      SameValues (load (askedText text (Reference.parse raw).anchor) inner)
        (load' (askedText text (Reference.parse raw).anchor) inner)) :
    SameValues (l.follow load raw s) ((l.withSource src).follow load' raw s) := by
  rw [follow_eq, follow_eq, target_withSource hasks]
  have htarget : l.target raw s.file ∈ l.asks raw s.file := by simp [asks]
  have hagree := hasks _ htarget
  refine SameValues.bind (fun _ => Iff.rfl) fun inner hinner => ?_
  refine SameValues.bind (fun _ => Iff.rfl) fun _ _ => ?_
  refine SameValues.bind ?_ fun text htext => ?_
  · intro text
    rw [read_ok_iff, read_ok_iff]
    exact hagree.read text
  · refine asked_congr sameValues_congruence rfl ?_
    cases he : s.enter (l.target raw s.file) with
    | error e =>
      rw [he] at hinner
      exact nomatch hinner
    | ok inner' =>
      rw [he] at hinner
      obtain rfl := Except.ok.inj hinner
      exact h inner' text he (read_ok_iff.mp htext)

/-- Where two sources agree on all that a load asks for, its texts load to the same values. -/
theorem loadWithin_withSource (hl : l.tags = .empty) (hagree : ∀ q, l.Consults first q → l.source.Agree src q)
    {whole : String} (hwhole : l.source.read first = .ok whole) (n : Nat)
    (hreach : Relation.ReflTransGen (Leads l) ⟨first, whole⟩ ⟨s.file, text⟩) :
    SameValues (l.loadWithin n text s) ((l.withSource src).loadWithin n text s) := by
  induction n generalizing s text with
  | zero => exact fun _ => Iff.rfl
  | succ n ih =>
    refine SameValues.bind (fun _ => Iff.rfl) fun _ _ => loadEach_congr sameValues_congruence _ fun d hd => ?_
    refine loadDocument_congr sameValues_congruence rfl d fun v hv t u hu r₁ r₂ _ => ?_
    cases hr : includeText? t u with
    | none =>
      have hl' : (l.withSource src).tags = .empty := hl
      rw [onTag_of_empty hl hr, onTag_of_empty hl' hr]
      exact fun _ => Iff.rfl
    | some raw =>
      rw [onTag_of_includeText? hr, onTag_of_includeText? hr]
      refine follow_withSource (fun q hq => hagree q (.reference hwhole hreach hd hv hu hr hq)) ?_
      intro inner inside hinner hinside
      obtain ⟨-, rfl⟩ := LoadState.enter_ok_iff.mp hinner
      have hstep : Leads l ⟨s.file, text⟩ ⟨l.target raw s.file, askedText inside (Reference.parse raw).anchor⟩ :=
        .follow hd hv hu hr hinside
      have hall := hreach.tail hstep
      generalize l.target raw s.file = file at hall ⊢
      generalize askedText inside (Reference.parse raw).anchor = asked at hall ⊢
      exact @ih ⟨s.chain, file⟩ asked hall

end Loader

end YamlInclude
