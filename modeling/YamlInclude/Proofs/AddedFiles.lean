import YamlInclude.Proofs.Below
import YamlInclude.Proofs.Consulted
import YamlInclude.Proofs.Context

/-! # Loads over growing sets of files

A file that is added to a source can change what a reference names in one way only: where its name is that of a
`.yaml` file but for the extension, and there was no `.yml` file. Without such files a load keeps its value.
-/

namespace YamlInclude

open Yaml Traced LoadState

/-- Whether a source holds a set of files with their texts, and shadows none of them: it has no `.yml` file for a
`.yaml` file of the set, unless the set has it too. -/
structure FileSet.GrowsInto (fs : FileSet) (src : Source) : Prop where
  read : ∀ {p : Path} {text : String}, fs.find? p = some text → src.read p = .ok text
  isFile : ∀ {p : Path}, (fs.find? p).isSome → src.isFile p = true
  unshadowed : ∀ {q : Path}, (fs.find? (q.append ['.', 'y', 'a', 'm', 'l'])).isSome →
    fs.find? (q.append ['.', 'y', 'm', 'l']) = none → src.isFile (q.append ['.', 'y', 'm', 'l']) = false

theorem LoadState.Within.refl (s : LoadState) : s.Within s :=
  ⟨rfl, fun q hq => List.any_eq_true.mpr ⟨q, hq, Path.same_self q⟩⟩

namespace Loader

variable {fs : FileSet} {src : Source} {strict : Bool} {rootDir : Option Path} {cwd from_ : Path} {raw : String}

theorem target_grown (h : fs.GrowsInto src)
    (hread : (fs.find? ((fs.loader strict rootDir cwd).target raw from_)).isSome) :
    (src.loader strict rootDir cwd).target raw from_ = (fs.loader strict rootDir cwd).target raw from_ := by
  unfold target Target.resolve at hread ⊢
  have hroot : (src.loader strict rootDir cwd).root = (fs.loader strict rootDir cwd).root := rfl
  rw [hroot]
  generalize (Target.located (Reference.parse raw).path from_ (fs.loader strict rootDir cwd).root).normalize = q
    at hread ⊢
  dsimp only at hread ⊢
  split
  · rfl
  next hext =>
    rw [if_neg hext] at hread
    change (fs.find? (if (fs.find? (q.append ['.', 'y', 'm', 'l'])).isSome then _ else _)).isSome at hread
    change (if src.isFile _ then _ else _) = (if (fs.find? (q.append ['.', 'y', 'm', 'l'])).isSome then _ else _)
    cases hyml : fs.find? (q.append ['.', 'y', 'm', 'l']) with
    | some text => simp [h.isFile (Option.isSome_of_eq_some hyml)]
    | none =>
      rw [hyml] at hread
      simp [h.unshadowed (by simpa using hread) hyml]

theorem follow_grown (h : fs.GrowsInto src) {load load' : LoadText} {s : LoadState}
    (hload : ∀ text s, Follows (fun _ => true) (load text s) (load' text s)) (raw : String) :
    Follows (fun _ => true) ((fs.loader strict rootDir cwd).follow load raw s)
      ((src.loader strict rootDir cwd).follow load' raw s) := by
  cases hx : ((fs.loader strict rootDir cwd).follow load raw s).result with
  | error e => exact Or.inr ⟨e, hx, rfl⟩
  | ok v =>
    obtain ⟨inner, text, -, hread, -⟩ := follow_ok hx
    have hfound := FileSet.read_source_iff.mp hread
    rw [follow_eq, follow_eq, target_grown h (Option.isSome_of_eq_some hfound)]
    refine Follows.bind (Or.inl rfl) fun inner => Follows.bind (Or.inl rfl) fun _ => Follows.bind ?_ fun text => ?_
    · exact Or.inl (by rw [read_ok_iff.mpr (h.read hfound), read_ok_iff.mpr hread])
    · exact asked_congr (follows_congruence _) rfl (hload _ _)

/-- The values of a text stay when files are added. -/
theorem loadWithin_grown (h : fs.GrowsInto src) (n : Nat) (text : String) (s : LoadState) :
    Follows (fun _ => true) ((fs.loader strict rootDir cwd).loadWithin n text s)
      ((src.loader strict rootDir cwd).loadWithin n text s) := by
  have hR := follows_congruence fun _ => true
  induction n generalizing text s with
  | zero => exact Or.inl rfl
  | succ n ih =>
    refine Follows.bind (Or.inl rfl) fun _ => loadEach_congr hR _ fun d _ => ?_
    refine loadDocument_congr hR rfl d fun v _ t u _ r₁ r₂ _ => ?_
    cases hu : includeText? t u with
    | none =>
      rw [onTag_of_empty rfl hu, onTag_of_empty rfl hu]
      exact Or.inl rfl
    | some raw =>
      rw [onTag_of_includeText? hu, onTag_of_includeText? hu]
      exact follow_grown h ih raw

end Loader

namespace Path

/-- A path with text added at its end has what follows the last slash, with that text, as its file name. -/
theorem exists_fileName?_append (q : Path) : ∃ n : List Char, ∀ suffix : List Char, '/' ∉ suffix →
    (∃ c ∈ suffix, c ≠ '.') → (q.append suffix).fileName? = some (n ++ suffix) := by
  have hcut (cs : List Char) : ∃ n, '/' ∉ n ∧ (cs = n ∨ ∃ lead, cs = lead ++ '/' :: n) := by
    induction cs with
    | nil => exact ⟨[], by simp, Or.inl rfl⟩
    | cons c cs ih =>
      obtain ⟨n, hn, rfl | ⟨lead, rfl⟩⟩ := ih
      · by_cases hc : c = '/'
        · exact ⟨cs, hn, Or.inr ⟨[], by rw [hc]; rfl⟩⟩
        · exact ⟨c :: cs, by simp [Ne.symm hc, hn], Or.inl rfl⟩
      · exact ⟨n, hn, Or.inr ⟨c :: lead, rfl⟩⟩
  obtain ⟨n, hn, h⟩ := hcut q.chars
  refine ⟨n, fun suffix hslash hletter => EndsIn.fileName? ?_ (isName_append hn hslash hletter)⟩
  rw [EndsIn, append, chars_ofChars]
  rcases h with h | ⟨lead, h⟩
  · exact Or.inl (by rw [h])
  · exact Or.inr ⟨lead, by rw [h, List.append_assoc, List.cons_append]⟩

end Path

theorem Path.fileName?_congr {p q : Path} (h : p.same q = true) : p.fileName? = q.fileName? := by
  rw [fileName?, fileName?, same_iff.mp h]

namespace FileSet

variable {fs : FileSet} {more : List (Path × String)} {p : Path} {text : String}

theorem find?_append : (FileSet.mk (fs.files ++ more)).find? p = (fs.find? p).or ((FileSet.mk more).find? p) := by
  rw [find?, find?, find?, List.find?_append]
  cases fs.files.find? fun f => f.1.same p <;> rfl

theorem exists_of_find? (h : (fs.find? p).isSome) : ∃ f ∈ fs.files, f.1.same p = true := by
  rw [find?, Option.isSome_map, List.find?_isSome] at h
  exact h

theorem growsInto_of_names (h : ∀ f ∈ more, ∀ g ∈ fs.files, ∀ n : List Char,
    f.1.fileName? = some (n ++ ['.', 'y', 'm', 'l']) → g.1.fileName? ≠ some (n ++ ['.', 'y', 'a', 'm', 'l'])) :
    fs.GrowsInto (FileSet.mk (fs.files ++ more)).source where
  read hfound := read_source_iff.mpr (by rw [find?_append, hfound]; rfl)
  isFile hfound := by
    change (find? _ _).isSome = true
    rw [find?_append, Option.isSome_or, hfound, Bool.true_or]
  unshadowed {q} hyaml hyml := by
    change (find? _ _).isSome = false
    rw [find?_append, hyml, Option.none_or]
    refine Bool.eq_false_iff.mpr fun hmore => ?_
    obtain ⟨f, hf, hfq⟩ := exists_of_find? hmore
    obtain ⟨g, hg, hgq⟩ := exists_of_find? hyaml
    obtain ⟨n, hn⟩ := q.exists_fileName?_append
    refine h f hf g hg n ?_ ?_
    · rw [Path.fileName?_congr hfq, hn _ (by decide) ⟨'y', by decide, by decide⟩]
    · rw [Path.fileName?_congr hgq, hn _ (by decide) ⟨'y', by decide, by decide⟩]

end FileSet

/-- A load that succeeds has the same documents when files are added that shadow none of those there: over a larger
set of files, and over any source that holds the files, under each bound on levels above their number. -/
theorem added_files_keep_load {fs : FileSet} {strict : Bool} {rootDir : Option Path} {cwd path : Path}
    {ds : List Value} (h : ((fs.loader strict rootDir cwd).loadFile path).result = .ok ds) :
    (∀ fs' : FileSet, fs.GrowsInto fs'.source → ((fs'.loader strict rootDir cwd).loadFile path).result = .ok ds) ∧
    ∀ src : Source, fs.GrowsInto src → ∀ n, fs.files.length < n →
      let l := src.loader strict rootDir cwd
      (l.read (path.absolutize cwd) >>= fun text => l.loadWithin n text (.root (path.absolutize cwd))).result =
        .ok ds := by
  obtain ⟨text, hread, hload⟩ := Loader.loadFile_ok h
  have hgrown (src : Source) (hsrc : fs.GrowsInto src) (n : Nat) (hn : fs.files.length < n) :
      ((src.loader strict rootDir cwd).read (path.absolutize cwd)).result = .ok text ∧
        ((src.loader strict rootDir cwd).loadWithin n text (.root (path.absolutize cwd))).result = .ok ds := by
    have hsame := (Loader.loadWithin_grown hsrc _ _ _).eq_of_ok hload
    refine ⟨Loader.read_ok_iff.mpr (hsrc.read (FileSet.read_source_iff.mp hread)), ?_⟩
    exact (Loader.loadWithin_follows rfl (.refl _) hn text).eq_of_ok hsame
  refine ⟨fun fs' hfs => ?_, fun src hsrc n hn => ?_⟩
  · -- Above the number of its files, no bound on levels makes a difference to the larger set.
    let levels := max fs.files.length fs'.files.length + 1
    obtain ⟨hread', hload'⟩ := hgrown _ hfs levels (by omega)
    have hunseen : (fs'.unseen (.root (path.absolutize cwd))).length < fs'.files.length + 1 :=
      Nat.lt_succ_of_le (List.length_filter_le _ _)
    have huncut := Loader.loadWithin_uncut (Loader.readsAmong_fileSet fs' strict rootDir cwd) rfl trivial
      (underway_root fs' (path.absolutize cwd)) hunseen (show _ < levels by omega) text
    exact result_bind_ok_iff.mpr ⟨text, hread', (congrArg Traced.result huncut.eq).trans hload'⟩
  · obtain ⟨hread', hload'⟩ := hgrown src hsrc n hn
    exact result_bind_ok_iff.mpr ⟨text, hread', hload'⟩

/-- A reference without extension keeps its `.yaml` file when other files come in. -/
theorem added_file_beside_included :
    let fs := FileSet.mk [(⟨"/a.yml"⟩, "i: !include b\n"), (⟨"/b.yaml"⟩, "k: [v]\n")]
    let more := [((⟨"/c.yml"⟩ : Path), "k: w\n")]
    let load (fs : FileSet) := ((fs.loader true none ⟨"/"⟩).loadFile ⟨"/a.yml"⟩).result
    let ds := [Value.mapping [(.string "i", .mapping [(.string "k", .sequence [.string "v"])])]]
    fs.GrowsInto (FileSet.mk (fs.files ++ more)).source ∧ load fs = .ok ds ∧
      load (FileSet.mk (fs.files ++ more)) = .ok ds := by
  intro fs more load ds
  have hgrows : fs.GrowsInto (FileSet.mk (fs.files ++ more)).source := by
    refine FileSet.growsInto_of_names fun f hf g hg n hn => ?_
    obtain rfl : f = (⟨"/c.yml"⟩, "k: w\n") := by simpa [more] using hf
    have hname : (⟨"/c.yml"⟩ : Path).fileName? = some (['c'] ++ ['.', 'y', 'm', 'l']) := by decide +kernel
    obtain rfl : ['c'] = n := List.append_cancel_right (Option.some.inj (hname.symm.trans hn))
    obtain rfl | rfl : g = (⟨"/a.yml"⟩, "i: !include b\n") ∨ g = (⟨"/b.yaml"⟩, "k: [v]\n") := by
      simpa [fs] using hg
    · decide +kernel
    · decide +kernel
  have hload : load fs = .ok ds := by decide +kernel
  exact ⟨hgrows, hload, (added_files_keep_load hload).1 _ hgrows⟩

end YamlInclude
