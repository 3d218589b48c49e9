import YamlInclude.Proofs.Frame

/-! # What a failed compilation leaves

A compilation that fails before its text is moved to the destination leaves all files as they are. Where the move
itself fails, the text stays at the temporary path.
-/

namespace YamlInclude

def CompileError.isRename : CompileError → Bool
  | .rename _ _ _ => true
  | _ => false

namespace FileTree

variable {t : FileTree} {cwd l : Location} {p : Path} {text : String} {e : CompileError}

theorem contentOf?_of_walk (h : t.walk true cwd p = .ok l) : t.contentOf? cwd p = t.contentAt? l := by
  apply Option.ext
  intro c
  rw [contentOf?_eq_some_iff, contentAt?_eq_some_iff]
  constructor
  · rintro ⟨k, x, hfind⟩
    obtain ⟨hk, hat⟩ := find_ok_iff.mp hfind
    obtain rfl := Except.ok.inj (h.symm.trans hk)
    exact ⟨x, node?_eq_file_iff.mpr hat⟩
  · rintro ⟨x, hnode⟩
    exact ⟨l, x, find_ok_iff.mpr ⟨h, node?_eq_file_iff.mp hnode⟩⟩

theorem contentAt?_makeDirectory {t' : FileTree} (h : t.WellFormed) (hmake : t.makeDirectory cwd p = .ok t')
    (l : Location) : t'.contentAt? l = t.contentAt? l := by
  obtain ⟨k, hnone, -, hnode⟩ := makeDirectory_ok h hmake
  rw [contentAt?_eq_node, contentAt?_eq_node, hnode]
  by_cases hl : l = k
  · rw [if_pos hl, hl, hnone]
  · rw [if_neg hl]

theorem contentAt?_prepare (h : t.WellFormed) (cwd : Location) (p : Path) (l : Location) :
    (t.prepare cwd p).1.contentAt? l = t.contentAt? l := by
  refine (prepare_invariant (P := fun t' => t'.WellFormed ∧ t'.contentAt? l = t.contentAt? l) ?_ ⟨h, rfl⟩ p).2
  rintro t₁ t₂ q ⟨hwf, hsame⟩ hmake
  have hsame' := contentAt?_makeDirectory hwf hmake l
  obtain ⟨-, -, hwf', -⟩ := makeDirectory_ok hwf hmake
  exact ⟨hwf', hsame'.trans hsame⟩

theorem prepare_error {t₁ : FileTree} (h : t.prepare cwd p = (t₁, .error e)) : ∃ dir fault, e = .makeDirectory dir fault := by
  unfold prepare at h
  split at h
  · cases h
  · split at h
    · cases h
    · cases h
      exact ⟨_, _, rfl⟩

/-- A text that does not come to the place of a file changes nothing, or it is left where the temporary path leads. -/
theorem replace_error (h : t.WellFormed) (herror : (t.replace cwd p text).2 = .error e) :
    (e.isRename = false ∧ ∀ k, (t.replace cwd p text).1.contentAt? k = t.contentAt? k) ∨
      ∃ fault l, e = .rename (temporary p) p fault ∧ (t.prepare cwd p).1.walk true cwd (temporary p) = .ok l ∧
        ∀ k, (t.replace cwd p text).1.contentAt? k = if k = l then some (.text text) else t.contentAt? k := by
  have hwf := wellFormed_prepare h cwd p
  have hsame := contentAt?_prepare h cwd p
  unfold replace at herror ⊢
  rcases t.writeSteps_cons cwd p text .prepare [.writeTemporary, .rename] with
    ⟨t₁, e₁, hprepare, hstop⟩ | ⟨t₁, hprepare, hon⟩
  · rw [hstop] at herror ⊢
    cases herror
    obtain ⟨dir, fault, rfl⟩ := prepare_error hprepare
    exact Or.inl ⟨rfl, fun k => (congrArg (contentAt? ·.1 k) hprepare).symm.trans (hsame k)⟩
  rw [show t.prepare cwd p = (t₁, .ok ()) from hprepare] at hwf hsame ⊢
  rw [hon] at herror ⊢
  rcases t₁.writeSteps_cons cwd p text .writeTemporary [.rename] with
    ⟨t₂, e₂, hwrite, hstop⟩ | ⟨t₂, hwrite, hon⟩
  · rw [hstop] at herror ⊢
    cases herror
    obtain ⟨rfl, cause, -, rfl⟩ := attempt_eq_error_iff.mp hwrite
    exact Or.inl ⟨rfl, hsame⟩
  rw [hon] at herror ⊢
  obtain ⟨l, x, hl, -, -, hput⟩ := write_ok hwf (attempt_eq_ok_iff.mp hwrite)
  rcases t₂.writeSteps_cons cwd p text .rename [] with ⟨t₃, e₃, hrename, hstop⟩ | ⟨t₃, hrename, hon⟩
  · rw [hstop] at herror ⊢
    cases herror
    obtain ⟨rfl, fault, -, rfl⟩ := attempt_eq_error_iff.mp hrename
    refine Or.inr ⟨fault, l, rfl, hl, fun k => ?_⟩
    rw [contentAt?_eq_node, hput, ← hsame k, contentAt?_eq_node t₁]
    by_cases hk : k = l
    · rw [if_pos hk, if_pos hk]
    · rw [if_neg hk, if_neg hk]
  · rw [hon] at herror
    exact nomatch herror

end FileTree

namespace Compiler

open FileTree

variable {c : Compiler} {t : FileTree} {p : FilePair} {f : CompiledFile} {e : CompileError}

theorem Finishes.unique {g : CompiledFile} (hf : c.Finishes t p f) (hg : c.Finishes t p g) : f = g := by
  obtain ⟨-, ds, hload, hf⟩ := hf
  obtain ⟨-, ds', hload', hg⟩ := hg
  obtain rfl := Except.ok.inj (hload.symm.trans hload')
  exact Except.ok.inj (hf.symm.trans hg)

theorem finish_error {ds : List Yaml.Value} (h : c.finish p ds = .error e) :
    ∃ message, e = .middleware p.source message := by
  unfold finish at h
  dsimp only at h
  split at h
  · cases h
  next m _ =>
    cases hm : m (c.compiled p ds) with
    | error message =>
      rw [hm] at h
      exact ⟨message, (Except.error.inj h).symm⟩
    | ok f =>
      rw [hm] at h
      cases h

theorem compileFile_error (h : (c.compileFile p t).result = .error e) :
    (c.compileFile p t).tree = t ∧ e.isRename = false ∨
      ∃ f, c.Finishes t p f ∧ (t.replace c.cwd f.dest f.json).2 = .error e ∧
        (c.compileFile p t).tree = (t.replace c.cwd f.dest f.json).1 := by
  cases hskip : c.shouldSkip t p.source with
  | true =>
    rw [compileFile_of_skip hskip] at h
    cases h
  | false =>
    simp only [compileFile, hskip, Bool.false_eq_true, if_false] at h ⊢
    cases hload : ((c.loader t).loadFile p.source).result with
    | error fault =>
      rw [hload] at h
      cases h
      exact Or.inl ⟨rfl, rfl⟩
    | ok ds =>
      rw [hload] at h
      dsimp only at h ⊢
      cases hfinish : c.finish p ds with
      | error fault =>
        rw [hfinish] at h
        cases h
        obtain ⟨message, rfl⟩ := finish_error hfinish
        exact Or.inl ⟨rfl, rfl⟩
      | ok f =>
        rw [hfinish] at h
        dsimp only at h ⊢
        refine Or.inr ⟨f, ⟨hskip, ds, hload, hfinish⟩, ?_⟩
        unfold emit at h ⊢
        split at h
        · cases h
        next hwrites =>
          rw [if_neg hwrites]
          rcases hreplace : t.replace c.cwd f.dest f.json with ⟨t', fault | _⟩
          · rw [hreplace] at h
            cases h
            exact ⟨rfl, rfl⟩
          · rw [hreplace] at h
            cases h

/-- A compilation that fails changes no content, or the move of its text to the destination fails, and the text is left
where the temporary path leads. -/
theorem contentAt?_of_error (h : t.WellFormed) (hfail : (c.compileFile p t).result = .error e) :
    (e.isRename = false ∧ ∀ k, (c.compileFile p t).tree.contentAt? k = t.contentAt? k) ∨
      ∃ f fault l, c.Finishes t p f ∧ e = .rename (temporary f.dest) f.dest fault ∧
        (t.prepare c.cwd f.dest).1.walk true c.cwd (temporary f.dest) = .ok l ∧
        ∀ k, (c.compileFile p t).tree.contentAt? k = if k = l then some (.text f.json) else t.contentAt? k := by
  obtain ⟨htree, hmove⟩ | ⟨f, hf, hreplace, htree⟩ := compileFile_error hfail
  · rw [htree]
    exact Or.inl ⟨hmove, fun _ => rfl⟩
  · rw [htree]
    obtain hkept | ⟨fault, l, he, hl, hleft⟩ := replace_error h hreplace
    · exact Or.inl hkept
    · exact Or.inr ⟨f, fault, l, hf, he, hl, hleft⟩

/-- A compilation that fails leaves all files as they were, exactly if what failed is not the move of its text to the
destination, or the temporary path led to that same text before. Where the move fails, the file that the temporary
path leads to is left with the text, and all others are as they were. -/
theorem failed_compilation_keeps_files_iff (h : t.WellFormed) (hfail : (c.compileFile p t).result = .error e) :
    let after := (c.compileFile p t).tree
    ((∀ l, after.contentAt? l = t.contentAt? l) ↔
      ∀ f fault, c.Finishes t p f → e = .rename (temporary f.dest) f.dest fault →
        (t.prepare c.cwd f.dest).1.contentOf? c.cwd (temporary f.dest) = some (.text f.json)) ∧
    ∀ f fault, c.Finishes t p f → e = .rename (temporary f.dest) f.dest fault →
      ∃ l, (t.prepare c.cwd f.dest).1.walk true c.cwd (temporary f.dest) = .ok l ∧
        ∀ k, after.contentAt? k = if k = l then some (.text f.json) else t.contentAt? k := by
  intro after
  obtain ⟨hmove, hsame⟩ | ⟨f, fault, l, hf, rfl, hl, hleft⟩ := contentAt?_of_error h hfail
  · have hne (source target : Path) (fault : SystemError) : e ≠ .rename source target fault := by
      rintro rfl
      cases hmove
    exact ⟨iff_of_true hsame fun f fault _ heq => absurd heq (hne _ _ _), fun f fault _ heq => absurd heq (hne _ _ _)⟩
  have hheld : (t.prepare c.cwd f.dest).1.contentOf? c.cwd (temporary f.dest) = t.contentAt? l := by
    rw [contentOf?_of_walk hl, contentAt?_prepare h]
  refine ⟨⟨fun hsame g _ hg _ => ?_, fun hheld' k => ?_⟩, fun g _ hg _ => ?_⟩
  · obtain rfl := hf.unique hg
    rw [hheld, ← hsame l, hleft, if_pos rfl]
  · rw [hleft]
    split
    next hk => rw [hk, ← hheld, hheld' f fault hf rfl]
    · rfl
  · obtain rfl := hf.unique hg
    exact ⟨l, hl, hleft⟩

/-- A file stands where the directory of the destination would be made. -/
theorem file_in_the_way_keeps_files :
    let c := onTree { CompileOptions.initial with space := 0 } []
    let t := rootOf [("a.yml", "k: 1\n"), ("out", "mine\n")]
    let p : FilePair := ⟨⟨"a.yml"⟩, ⟨"out/a.yml"⟩⟩
    t.WellFormed ∧ (∃ e, (c.compileFile p t).result = .error e ∧ e.isRename = false) ∧
      ∀ l, (c.compileFile p t).tree.contentAt? l = t.contentAt? l := by
  intro c t p
  have ht : t.Plain := plain_rootOf (by decide) (by decide +kernel) rfl
  have hfault : (fault? (c.compileFile p t).result).map CompileError.isRename = some false := by decide +kernel
  obtain ⟨e, he, hmove⟩ := Option.map_eq_some_iff.mp hfault
  have hfail := eq_error_of_fault? he
  refine ⟨ht.wellFormed, ⟨e, hfail, hmove⟩, ?_⟩
  refine (failed_compilation_keeps_files_iff ht.wellFormed hfail).1.mpr fun f fault _ heq => ?_
  rw [heq] at hmove
  cases hmove

/-- A directory stands at the destination. -/
theorem failed_move_leaves_text :
    let c := onTree { CompileOptions.initial with space := 0 } []
    let t : FileTree := ⟨[("a.json".toList, .directory []), ("a.yml".toList, .file (.text "k: 1\n") false)]⟩
    let after := (c.compileFile (ownPair "a.yml") t).tree
    t.WellFormed ∧ (∃ e, (c.compileFile (ownPair "a.yml") t).result = .error e) ∧
      ∃ l, t.contentAt? l = none ∧ after.contentAt? l = some (.text "\x7b\"k\":1\x7d") := by
  intro c t after
  have ht : t.WellFormed :=
    .directory (by decide) (by decide) (List.forall_mem_cons.mpr ⟨.directory (by simp) .nil (by simp),
      List.forall_mem_cons.mpr ⟨.file _ _, by simp⟩⟩)
  have hsome : (fault? (c.compileFile (ownPair "a.yml") t).result).isSome = true := by decide +kernel
  obtain ⟨e, he⟩ := Option.isSome_iff_exists.mp hsome
  exact ⟨ht, ⟨e, eq_error_of_fault? he⟩, ["a.json.tmp".toList], by decide +kernel, by decide +kernel⟩

end Compiler

end YamlInclude
