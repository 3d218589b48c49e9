import YamlInclude.Proofs.Chain

/-! # Reference walks

A walk goes from a text along an include node to the text that the node asks for. A load that succeeds
has no walk that comes back to a file, and one that reports a cycle reports the files of such a walk.
-/

namespace YamlInclude

open Yaml Traced

structure Visit where
  file : Path
  text : String

namespace Loader

/-- The text that a reference asks for, with an entry for its anchor if it has one. -/
def askedText (text : String) : Option String → String
  | none => text
  | some a => Anchor.splice text a

/-- An include node of a document of one visit leads to the next visit. -/
inductive Leads (l : Loader) (a : Visit) : Visit → Prop
  | follow {d : Document} {v u : Value} {t raw text : String} (hd : d ∈ documents a.text)
      (hv : d.value = .ok v) (hu : (t, u) ∈ v.taggedNodes) (hr : includeText? t u = some raw)
      (ht : l.source.read (l.target raw a.file) = .ok text) :
      Leads l a ⟨l.target raw a.file, askedText text (Reference.parse raw).anchor⟩

/-- A walk from a file whose text can be read. -/
structure IsWalk (l : Loader) (first : Path) (visits : List Visit) : Prop where
  start : ∃ text, l.source.read first = .ok text ∧ visits.head? = some ⟨first, text⟩
  steps : visits.IsChain (Leads l)

end Loader

/-- Different files and then one that is the same as exactly one of them. -/
def ClosesOnce (chain : List Path) : Prop :=
  ∃ (files : List Path) (last : Path), chain = files ++ [last] ∧
    files.Pairwise (fun p q => p.same q = false) ∧ files.countP (·.same last) = 1

theorem countP_same_eq_one {files : List Path} {p : Path}
    (hd : files.Pairwise fun p q => p.same q = false) (hp : files.any (·.same p) = true) :
    files.countP (·.same p) = 1 := by
  induction files with
  | nil => cases hp
  | cons q files ih =>
    obtain ⟨hq, hd⟩ := List.pairwise_cons.mp hd
    cases hqp : q.same p with
    | true =>
      have hnone : files.countP (·.same p) = 0 := by
        refine List.countP_eq_zero.mpr fun q' hq' h => ?_
        rw [Path.same_comm, ← Path.same_congr_left hqp, hq q' hq'] at h
        cases h
      simp [hqp, hnone]
    | false =>
      rw [List.countP_cons_of_neg (by simp [hqp])]
      exact ih hd (by simpa [hqp] using hp)

namespace Loader

variable {l : Loader} {load : LoadText} {s inner : LoadState} {text : String} {n : Nat}

theorem asked_ok (hstrict : l.strictAnchors = true) {anchor : Option String} {w : Value}
    (h : (l.asked load text s anchor).result = .ok w) :
    ∃ vs, (load (askedText text anchor) s).result = .ok vs := by
  cases anchor with
  | none =>
    obtain ⟨vs, hvs, -⟩ := single_ok h
    exact ⟨vs, hvs⟩
  | some a =>
    obtain ⟨es, rest, h, -⟩ | ⟨h, -⟩ := anchored_ok h
    · obtain ⟨vs, hvs, -⟩ := single_ok h
      exact ⟨vs, hvs⟩
    · rw [hstrict] at h; cases h

theorem asked_cyclic {anchor : Option String} {chain : List Path}
    (h : (l.asked load text s anchor).result = .error (.cyclicInclude chain)) :
    (load (askedText text anchor) s).result = .error (.cyclicInclude chain) := by
  have hsingle (text : String) (h : (single load text s).result = .error (.cyclicInclude chain)) :
      (load text s).result = .error (.cyclicInclude chain) := by
    obtain h | ⟨_, h, -⟩ := single_error h
    · exact h
    · cases h
  cases anchor with
  | none => exact hsingle text h
  | some a =>
    obtain h | ⟨-, h⟩ | ⟨-, -, h⟩ := anchored_error h
    · exact hsingle _ h
    · cases h
    · cases h

/-- A load that succeeds has loaded the next text of each step, in a state that enters its file. -/
theorem Leads.loaded (hl : l.tags = .empty) (hstrict : l.strictAnchors = true) {ds : List Value}
    (h : (l.loadWithin n text s).result = .ok ds) {b : Visit} (hb : Leads l ⟨s.file, text⟩ b) :
    ∃ m ds, s.chain.any (·.same b.file) = false ∧
      (l.loadWithin m b.text ⟨s.chain, b.file⟩).result = .ok ds := by
  cases hb with
  | follow hd hv hu hr ht =>
    obtain ⟨m, w, rfl, -, hw⟩ := loadWithin_ok h hd
    obtain ⟨v', w', hv', hres, -⟩ := loadDocument_ok hw
    rw [hv] at hv'
    obtain rfl := Except.ok.inj hv'
    obtain ⟨r, x, hx⟩ := onTag_ok_of_resolveValue hres hu fun _ _ _ _ => taggedNodes_of_onTag_ok hl
    rw [onTag_of_includeText? hr] at hx
    obtain ⟨inner, text', hi, ht', hasked⟩ := follow_ok hx
    rw [ht] at ht'
    obtain rfl := Except.ok.inj ht'
    obtain ⟨hnew, rfl⟩ := LoadState.enter_ok_iff.mp hi
    obtain ⟨vs, hvs⟩ := asked_ok hstrict hasked
    exact ⟨m, vs, by simpa only using hnew, by simpa only using hvs⟩

/-- On each walk from a text that loads, the files are different from each other and from those that
wait for it. -/
theorem pairwise_of_loaded (hl : l.tags = .empty) (hstrict : l.strictAnchors = true)
    {visits : List Visit} {ds : List Value} (h : (l.loadWithin n text s).result = .ok ds)
    (hs : s.chain.Pairwise fun p q => p.same q = false)
    (hw : (⟨s.file, text⟩ :: visits).IsChain (Leads l)) :
    (s.chain ++ visits.map Visit.file).Pairwise fun p q => p.same q = false := by
  induction visits generalizing n s text ds with
  | nil => simpa using hs
  | cons b visits ih =>
    obtain ⟨hb, hw⟩ := List.isChain_cons_cons.mp hw
    obtain ⟨m, ds', hnew, hload⟩ := hb.loaded hl hstrict h
    have hinner : (⟨s.chain, b.file⟩ : LoadState).chain.Pairwise fun p q => p.same q = false := by
      refine List.pairwise_append.mpr ⟨hs, by simp, fun q hq p hp => ?_⟩
      obtain rfl := List.mem_singleton.mp hp
      simpa using List.any_eq_false.mp hnew q hq
    have := ih hload hinner hw
    rwa [LoadState.chain_entered, List.append_assoc] at this

end Loader

namespace Loader

variable {fs : FileSet} {rootDir : Option Path} {cwd : Path} {s : LoadState} {text : String} {n : Nat}
  {chain : List Path}

/-- A reported cycle is the chain of the load, then the files of a walk from its text. -/
theorem walk_of_cyclic (hs : s.chain.Pairwise fun p q => p.same q = false)
    (hread : ∀ p ∈ s.chain, (fs.find? p).isSome)
    (h : ((fs.loader true rootDir cwd).loadWithin n text s).result = .error (.cyclicInclude chain)) :
    ClosesOnce chain ∧
      ∃ visits, (⟨s.file, text⟩ :: visits).IsChain (Leads (fs.loader true rootDir cwd)) ∧
        chain = s.chain ++ visits.map Visit.file := by
  induction n generalizing s text with
  | zero => cases h
  | succ n ih =>
    -- The error comes from an include node of one of the documents.
    obtain h | ⟨m, hm, d, hd, h⟩ := loadWithin_error h
    · cases h
    obtain rfl : n = m := by omega
    obtain ⟨_, h⟩ | ⟨v, hv, h⟩ := loadDocument_error h
    · cases h
    obtain ⟨t, u, r, hu, h⟩ := onTag_error_of_resolveValue h
    cases hraw : includeText? t u with
    | none =>
      rw [onTag_of_empty rfl hraw] at h
      exact absurd (Except.error.inj h) (nodeError_ne_cyclicInclude chain)
    | some raw =>
      rw [onTag_of_includeText? hraw] at h
      have h := follow_error h
      have hstep (whole : String) (ht : (fs.loader true rootDir cwd).source.read _ = .ok whole) :=
        Leads.follow (a := ⟨s.file, text⟩) hd hv hu hraw ht
      generalize (fs.loader true rootDir cwd).target raw s.file = p at h hstep
      generalize (Reference.parse raw).anchor = anchor at h hstep
      obtain h | ⟨_, h, -⟩ | ⟨inner, whole, hi, ht, h⟩ := h
      · obtain ⟨hold, he⟩ := LoadState.enter_error_iff.mp h
        obtain rfl := LoadError.cyclicInclude.inj he
        obtain ⟨q, hq, hqp⟩ := List.any_eq_true.mp hold
        obtain ⟨whole, ht⟩ := Option.isSome_iff_exists.mp (hread q hq)
        have ht := FileSet.read_source_iff.mpr ((FileSet.find?_congr hqp).symm.trans ht)
        exact ⟨⟨s.chain, p, rfl, hs, countP_same_eq_one hs hold⟩, [_],
          .cons_cons (hstep whole ht) (.singleton _), rfl⟩
      · cases h
      · have hinner : inner.chain = s.chain ++ [p] ∧ inner.file = p := by
          obtain ⟨-, rfl⟩ := LoadState.enter_ok_iff.mp hi
          exact ⟨rfl, rfl⟩
        have hread' : ∀ q ∈ inner.chain, (fs.find? q).isSome := by
          intro q hq
          rw [hinner.1] at hq
          rcases List.mem_append.mp hq with hq | hq
          · exact hread q hq
          · rw [List.mem_singleton.mp hq, FileSet.read_source_iff.mp ht]; rfl
        obtain ⟨hc, visits, hw, rfl⟩ := ih (LoadState.distinct_enter hs hi) hread' (asked_cyclic h)
        rw [hinner.2] at hw
        exact ⟨hc, _ :: visits, .cons_cons (hstep whole ht) hw, by simp [hinner.1]⟩

end Loader

/-- Cycle reports are exact: a reported cycle is a walk along include nodes that comes back to exactly
one of its files, and no walk from a file that loads comes back to any. -/
theorem cycle_reports_exact (fs : FileSet) (rootDir : Option Path) (cwd path : Path) :
    let l := fs.loader true rootDir cwd
    (∀ chain, (l.loadFile path).result = .error (.cyclicInclude chain) →
      ClosesOnce chain ∧ ∃ visits, l.IsWalk (path.absolutize cwd) visits ∧ visits.map Visit.file = chain) ∧
    ∀ ds, (l.loadFile path).result = .ok ds → ∀ visits, l.IsWalk (path.absolutize cwd) visits →
      (visits.map Visit.file).Pairwise fun p q => p.same q = false := by
  intro l
  have hroot : (LoadState.root (path.absolutize cwd)).chain.Pairwise fun p q => p.same q = false := by
    simp [LoadState.chain, LoadState.root]
  constructor
  · intro chain h
    obtain h | ⟨text, ht, h⟩ := result_bind_error_iff.mp h
    · obtain ⟨_, h⟩ := Loader.read_error h
      cases h
    · have ht := Loader.read_ok_iff.mp ht
      have hread : ∀ p ∈ (LoadState.root (path.absolutize cwd)).chain, (fs.find? p).isSome := by
        intro p hp
        obtain rfl := List.mem_singleton.mp hp
        exact Option.isSome_iff_exists.mpr ⟨text, FileSet.read_source_iff.mp ht⟩
      obtain ⟨hc, visits, hw, rfl⟩ := Loader.walk_of_cyclic hroot hread h
      exact ⟨hc, _, ⟨⟨text, ht, rfl⟩, hw⟩, rfl⟩
  · rintro ds h visits ⟨⟨text, ht, hhead⟩, hsteps⟩
    obtain ⟨text', ht', h⟩ := result_bind_ok_iff.mp h
    cases visits with
    | nil => cases hhead
    | cons b visits =>
      obtain rfl := Option.some.inj hhead
      obtain rfl := Except.ok.inj (ht.symm.trans (Loader.read_ok_iff.mp ht'))
      exact Loader.pairwise_of_loaded rfl rfl h hroot hsteps

end YamlInclude
