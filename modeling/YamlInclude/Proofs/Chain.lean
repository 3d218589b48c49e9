import YamlInclude.Proofs.Load

/-! # Chains of a load

Each include adds a file to the chain that was not on it before, so over a finite set of files every
load ends, and no level bound above the number of files makes a difference.
-/

namespace YamlInclude

open Yaml Traced

namespace Path

variable {p q r : Path}

theorem same_iff : p.same q = true ↔ p.components = q.components := beq_iff_eq

@[simp] theorem same_self (p : Path) : p.same p = true := same_iff.mpr rfl

theorem same_comm (p q : Path) : p.same q = q.same p :=
  Bool.eq_iff_iff.mpr (by rw [same_iff, same_iff]; exact eq_comm)

theorem same_congr_left (h : p.same q = true) (r : Path) : p.same r = q.same r := by
  unfold same; rw [same_iff.mp h]

theorem same_congr_right (h : p.same q = true) (r : Path) : r.same p = r.same q := by
  unfold same; rw [same_iff.mp h]

end Path

def Source.loader (src : Source) (strictAnchors : Bool) (rootDir : Option Path) (cwd : Path) : Loader :=
  ⟨src, .empty, strictAnchors, rootDir, cwd⟩

namespace FileSet

theorem find?_congr {fs : FileSet} {p q : Path} (h : p.same q = true) : fs.find? p = fs.find? q := by
  unfold find?
  simp only [Path.same_congr_right h]

theorem read_source_iff {fs : FileSet} {p : Path} {text : String} :
    fs.source.read p = .ok text ↔ fs.find? p = some text := by
  unfold source
  simp only
  split <;> simp_all

def loader (fs : FileSet) (strictAnchors : Bool) (rootDir : Option Path) (cwd : Path) : Loader :=
  ⟨fs.source, .empty, strictAnchors, rootDir, cwd⟩

def unseen (fs : FileSet) (s : LoadState) : List (Path × String) :=
  fs.files.filter fun f => !s.chain.any (·.same f.1)

end FileSet

namespace LoadState

variable {fs : FileSet} {root p : Path} {s inner : LoadState} {n : Nat}

theorem enter_ok_iff :
    s.enter p = .ok inner ↔ s.chain.any (·.same p) = false ∧ inner = ⟨s.chain, p⟩ := by
  unfold enter
  cases s.chain.any (·.same p) <;> simp [eq_comm]

theorem enter_error_iff {e : LoadError} :
    s.enter p = .error e ↔ s.chain.any (·.same p) = true ∧ e = .cyclicInclude (s.chain ++ [p]) := by
  unfold enter
  cases s.chain.any (·.same p) <;> simp [eq_comm]

/-- A state whose chain holds at most `n` files below `root`, each of them once. -/
structure Reached (root : Path) (n : Nat) (s : LoadState) : Prop where
  distinct : s.chain.Pairwise fun p q => p.same q = false
  head : s.chain.head? = some root
  last : s.chain.getLast? = some s.file
  depth_le : s.depth ≤ n

/-- A chain of different files from `root`, with room for each file that is not on it. -/
structure Underway (fs : FileSet) (root : Path) (s : LoadState) : Prop where
  distinct : s.chain.Pairwise fun p q => p.same q = false
  head : s.chain.head? = some root
  room : s.depth + (fs.unseen s).length ≤ fs.files.length

theorem chain_entered (s : LoadState) (p : Path) :
    (⟨s.chain, p⟩ : LoadState).chain = s.chain ++ [p] := rfl

theorem getLast?_chain (s : LoadState) : s.chain.getLast? = some s.file := by simp [chain]

theorem Underway.reached (h : Underway fs root s) : Reached root fs.files.length s :=
  ⟨h.distinct, h.head, s.getLast?_chain, by have := h.room; omega⟩

theorem underway_root (fs : FileSet) (p : Path) : Underway fs p (.root p) where
  distinct := by simp [chain, LoadState.root]
  head := rfl
  room := by
    have := List.length_filter_le (fun f : Path × String => !(LoadState.root p).chain.any (·.same f.1)) fs.files
    simpa [depth, LoadState.root, FileSet.unseen] using this

theorem unseen_enter (h : s.enter p = .ok inner) :
    fs.unseen inner = (fs.unseen s).filter fun f => !p.same f.1 := by
  obtain ⟨-, rfl⟩ := enter_ok_iff.mp h
  unfold FileSet.unseen
  rw [List.filter_filter]
  refine List.filter_congr fun f _ => ?_
  rw [chain_entered, List.any_append, Bool.not_or, Bool.and_comm]
  simp

theorem distinct_enter (hs : s.chain.Pairwise fun p q => p.same q = false)
    (h : s.enter p = .ok inner) : inner.chain.Pairwise fun p q => p.same q = false := by
  obtain ⟨hnew, rfl⟩ := enter_ok_iff.mp h
  refine List.pairwise_append.mpr ⟨hs, by simp, fun q hq p' hp' => ?_⟩
  obtain rfl := List.mem_singleton.mp hp'
  simpa using List.any_eq_false.mp hnew q hq

/-- A file that is entered and can be read was not on the chain. -/
theorem length_unseen_lt (h : s.enter p = .ok inner) (hr : (fs.find? p).isSome) :
    (fs.unseen inner).length < (fs.unseen s).length := by
  obtain ⟨f, hf⟩ : ∃ f, fs.files.find? (fun f => f.1.same p) = some f := by
    simpa [FileSet.find?, Option.isSome_iff_exists] using hr
  have hp : f.1.same p = true := by simpa using List.find?_some hf
  have hnew := (enter_ok_iff.mp h).1
  rw [unseen_enter h]
  refine List.length_filter_lt_length_iff_exists.mpr ⟨f, ?_, ?_⟩
  · refine List.mem_filter.mpr ⟨List.mem_of_find?_eq_some hf, ?_⟩
    simp only [Path.same_congr_right hp, hnew, Bool.not_false]
  · simp [Path.same_comm p, hp]

theorem Underway.enter (hs : Underway fs root s) (h : s.enter p = .ok inner)
    (hr : (fs.find? p).isSome) : Underway fs root inner := by
  have hlt := length_unseen_lt h hr
  refine ⟨distinct_enter hs.distinct h, ?_, ?_⟩ <;> obtain ⟨-, rfl⟩ := enter_ok_iff.mp h
  · rw [chain_entered, List.head?_append, hs.head]
    rfl
  · have := hs.room
    have hd : (⟨s.chain, p⟩ : LoadState).depth = s.depth + 1 := by simp [depth, chain]
    omega

end LoadState

/-- Equal results whose parsed states satisfy `P`, not cut off by a level bound. -/
structure Uncut (P : LoadState → Prop) {α : Type} (x y : Traced α) : Prop where
  eq : x = y
  parsed : ∀ s, .parsed s ∈ x.events → P s
  bounded : ∀ p, x.result ≠ .error (.nestedTooDeep p)

theorem uncut_congruence (P : LoadState → Prop) : Congruence (Uncut P) where
  pure a := ⟨rfl, nofun, nofun⟩
  fail e he := ⟨rfl, nofun, fun p h => he p (by injection h)⟩
  note e he := ⟨rfl, fun s h => absurd (List.mem_singleton.mp h).symm (he s), nofun⟩
  bind {α β x y f g} hx hf := by
    obtain rfl : f = g := funext fun a => (hf a).eq
    obtain rfl := hx.eq
    refine ⟨rfl, fun s h => ?_, fun p h => ?_⟩
    · obtain h | ⟨a, -, h⟩ := mem_events_bind.mp h
      · exact hx.parsed s h
      · exact (hf a).parsed s h
    · obtain h | ⟨a, -, h⟩ := result_bind_error_iff.mp h
      · exact hx.bounded p h
      · exact (hf a).bounded p h

namespace Loader

open LoadState

variable {l : Loader} {fs : FileSet} {fit : Path → Prop} {root : Path} {s : LoadState} {n m : Nat}

/-- Whether the fit paths that a loader can read are among a set of files, and its targets from them are fit. -/
structure ReadsAmong (l : Loader) (fs : FileSet) (fit : Path → Prop) : Prop where
  found : ∀ {p text}, fit p → l.source.read p = .ok text → (fs.find? p).isSome
  target : ∀ raw {p}, fit p → fit (l.target raw p)

theorem readsAmong_fileSet (fs : FileSet) (strict : Bool) (rootDir : Option Path) (cwd : Path) :
    (fs.loader strict rootDir cwd).ReadsAmong fs fun _ => True where
  found _ hread := by rw [FileSet.read_source_iff.mp hread]; rfl
  target _ _ _ := trivial

theorem follow_uncut (hl : l.ReadsAmong fs fit) (hs : fit s.file) {load₁ load₂ : LoadText}
    (h : ∀ p inner text, fit p → s.enter p = .ok inner → (fs.find? p).isSome →
      Uncut (Reached root fs.files.length) (load₁ text inner) (load₂ text inner)) (raw : String) :
    Uncut (Reached root fs.files.length) (l.follow load₁ raw s) (l.follow load₂ raw s) := by
  have hR := uncut_congruence (Reached root fs.files.length)
  have hfit := hl.target raw hs
  rw [follow_eq, follow_eq]
  generalize l.target raw s.file = p at hfit
  cases hi : s.enter p with
  | error e =>
    obtain ⟨-, rfl⟩ := enter_error_iff.mp hi
    exact hR.fail _ fun _ => nofun
  | ok inner =>
    simp only [ofExcept_ok, pure_bind]
    refine hR.bind (hR.note _ fun _ => nofun) fun _ => ?_
    cases hr : l.source.read p with
    | error fault =>
      simp only [read, hr]
      exact hR.fail _ fun _ => nofun
    | ok text =>
      have hload := fun text => h p inner text hfit hi (hl.found hfit hr)
      simp only [read, hr, Except.mapError, ofExcept_ok, pure_bind]
      cases (Reference.parse raw).anchor with
      | none => exact single_congr hR rfl (hload text)
      | some a => exact anchored_congr hR rfl rfl (hload _)

theorem loadWithin_uncut (hl : l.ReadsAmong fs fit) (htags : l.tags = .empty) (hfile : fit s.file)
    (hs : Underway fs root s) (hn : (fs.unseen s).length < n) (hm : (fs.unseen s).length < m)
    (text : String) :
    Uncut (Reached root fs.files.length) (l.loadWithin n text s) (l.loadWithin m text s) := by
  have hR := uncut_congruence (Reached root fs.files.length)
  induction n generalizing m s text with
  | zero => omega
  | succ n ih =>
    obtain ⟨m, rfl⟩ : ∃ k, m = k + 1 := ⟨m - 1, by omega⟩
    have hparsed : Uncut (Reached root fs.files.length) (note (.parsed s)) (note (.parsed s)) := by
      refine ⟨rfl, fun s' h => ?_, nofun⟩
      obtain rfl : s' = s := by simpa using h
      exact hs.reached
    refine hR.bind hparsed fun _ => loadEach_congr hR _ fun d _ => ?_
    refine loadDocument_congr hR rfl d fun v _ t u _ r₁ r₂ _ => ?_
    cases hu : includeText? t u with
    | none =>
      rw [onTag_of_empty htags hu, onTag_of_empty htags hu]
      exact hR.fail _ fun p => nodeError_ne_nestedTooDeep p
    | some raw =>
      rw [onTag_of_includeText? hu, onTag_of_includeText? hu]
      refine follow_uncut hl hfile (fun p inner text hfit hi hf => ?_) raw
      have hlt := length_unseen_lt hi hf
      have hinner : inner.file = p := by
        obtain ⟨-, rfl⟩ := enter_ok_iff.mp hi
        rfl
      exact ih (hinner ▸ hfit) (hs.enter hi hf) (by omega) (by omega) text

end Loader

/-- Over a finite set of files every load comes to its end: no level bound above the number of the
files makes a difference or is the reason of a failure, and each text is parsed under a chain of
different files, from the first file to its own. -/
theorem load_ends_with_distinct_chains (fs : FileSet) (strict : Bool) (rootDir : Option Path)
    (cwd path : Path) (text : String) :
    let l := fs.loader strict rootDir cwd
    let root := path.absolutize cwd
    let count := fs.files.length
    (∀ n, count < n →
      l.loadWithin n text (.root root) = l.loadString text path ∧
      (l.read root >>= fun text => l.loadWithin n text (.root root)) = l.loadFile path) ∧
    (∀ p, (l.loadString text path).result ≠ .error (.nestedTooDeep p) ∧
      (l.loadFile path).result ≠ .error (.nestedTooDeep p)) ∧
    ∀ s, .parsed s ∈ (l.loadString text path).events ++ (l.loadFile path).events →
      s.Reached root count := by
  intro l root count
  have hR := uncut_congruence (LoadState.Reached root count)
  have hroot := LoadState.underway_root fs root
  have hunseen : (fs.unseen (.root root)).length ≤ count := List.length_filter_le _ _
  have htext (n : Nat) (hn : count < n) (text : String) :
      Uncut (LoadState.Reached root count) (l.loadWithin n text (.root root))
        (l.loadText text (.root root)) :=
    Loader.loadWithin_uncut (Loader.readsAmong_fileSet fs strict rootDir cwd) rfl trivial hroot (by omega)
      (show _ < count + 1 by omega) text
  have hfile (n : Nat) (hn : count < n) :
      Uncut (LoadState.Reached root count)
        (l.read root >>= fun text => l.loadWithin n text (.root root)) (l.loadFile path) := by
    refine hR.bind (hR.ofExcept _ fun e p he => ?_) fun text => htext n hn text
    rintro rfl
    cases h : l.source.read root <;> rw [h] at he <;> cases he
  have hs : Uncut (LoadState.Reached root count) (l.loadString text path) (l.loadString text path) :=
    htext (count + 1) (by omega) text
  have hf : Uncut (LoadState.Reached root count) (l.loadFile path) (l.loadFile path) :=
    hfile (count + 1) (by omega)
  refine ⟨fun n hn => ⟨(htext n hn text).eq, (hfile n hn).eq⟩,
    fun p => ⟨hs.bounded p, hf.bounded p⟩, fun s h => ?_⟩
  obtain h | h := List.mem_append.mp h
  · exact hs.parsed s h
  · exact hf.parsed s h

end YamlInclude
