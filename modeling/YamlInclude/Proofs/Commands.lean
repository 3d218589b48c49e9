import YamlInclude.Proofs.Override

/-! # Commands that write nothing

Checks, single files and compilations without output look at the same sources in the same way, so they agree on what
they report.
-/

namespace YamlInclude

/-- What a report says of sources: how many documents those have that were compiled, and which were skipped. -/
def BatchReport.outline (r : BatchReport) : List (Path × Nat) × List Path :=
  (r.compiled.map fun e => (e.source, e.documents), r.skipped)

theorem BatchReport.outline_append (r r' : BatchReport) :
    (r.append r').outline = (r.outline.1 ++ r'.outline.1, r.outline.2 ++ r'.outline.2) := by
  simp [outline, append]

theorem FilePair.source_forSource (source : Path) (out : Option (Path × Path)) :
    (forSource source out).source = source := by
  cases out <;> rfl

theorem map_mapError {ε ε' α β : Type} (f : α → β) (g : ε → ε') (x : Except ε α) :
    (x.mapError g).map f = (x.map f).mapError g := by
  cases x <;> rfl

namespace FileTree

variable {t : FileTree} {cwd : Location} {input : Path}

theorem sources_pairsOf (t : FileTree) (cwd : Location) (input : Path) (out out' : Option Path) :
    (t.pairsOf cwd input out).map (List.map FilePair.source) =
      (t.pairsOf cwd input out').map (List.map FilePair.source) := by
  unfold pairsOf
  split
  next l es hfind =>
    cases t.yamlFilesOf cwd input input es with
    | error e => rfl
    | ok sources => simp [bind, Except.bind, Except.map, Function.comp_def, FilePair.source_forSource]
  · simp [Except.map, FilePair.source_forSource]
  · rfl

theorem sources_collectPairs (t : FileTree) (cwd : Location) (inputs : List Path) (out out' : Option Path) :
    (t.collectPairs cwd out inputs).map (List.map FilePair.source) =
      (t.collectPairs cwd out' inputs).map (List.map FilePair.source) := by
  induction inputs with
  | nil => rfl
  | cons input inputs ih =>
    have hone := t.sources_pairsOf cwd input out out'
    unfold collectPairs
    generalize t.pairsOf cwd input out = x at hone ⊢
    generalize t.pairsOf cwd input out' = x' at hone ⊢
    generalize t.collectPairs cwd out inputs = y at ih ⊢
    generalize t.collectPairs cwd out' inputs = y' at ih ⊢
    cases x <;> cases x' <;> cases y <;> cases y' <;> simp_all [Except.map, bind, Except.bind]

theorem pairsOf_of_isFile (h : t.isFile cwd input = true) (out : Option Path) :
    ∃ base, t.pairsOf cwd input out = .ok [.forSource input (out.map fun o => (base, o))] := by
  unfold isFile at h
  split at h
  next l c x hfind => exact ⟨input.parent?.getD ⟨""⟩, by rw [pairsOf, hfind]⟩
  · exact nomatch h

theorem collectPairs_of_isFile (h : t.isFile cwd input = true) (out : Option Path) :
    ∃ p : FilePair, p.source = input ∧ t.collectPairs cwd out [input] = .ok [p] := by
  obtain ⟨base, hpairs⟩ := pairsOf_of_isFile h out
  refine ⟨.forSource input (out.map fun o => (base, o)), FilePair.source_forSource _ _, ?_⟩
  rw [collectPairs, hpairs]
  rfl

end FileTree

namespace Compiler

variable {c c' : Compiler} {t : FileTree} {p : FilePair} {ps : List FilePair} {o : Option CompiledFile}

/-- What a source compiles to where nothing is written. -/
def dryResult (c : Compiler) (t : FileTree) (p : FilePair) : Except CompileError (Option CompiledFile) :=
  if c.shouldSkip t p.source then .ok none
  else (((c.loader t).loadFile p.source).result.mapError (.load p.source)).map fun ds => some (c.compiled p ds)

structure Dry (c : Compiler) : Prop where
  unchanged : c.options.middleware = none
  unwritten : c.options.disableDest = true

theorem Dry.compileFile (h : c.Dry) (t : FileTree) (p : FilePair) :
    (c.compileFile p t).tree = t ∧ (c.compileFile p t).result = c.dryResult t p := by
  unfold dryResult
  cases hskip : c.shouldSkip t p.source with
  | true => simp [compileFile_of_skip hskip]
  | false =>
    cases hload : ((c.loader t).loadFile p.source).result with
    | error e => simp [Compiler.compileFile, hskip, hload, Except.map, Except.mapError]
    | ok ds =>
      obtain ⟨events, heq⟩ := compileFile_of_load h.unchanged hskip hload
      simp [heq, emit, h.unwritten, Except.map, Except.mapError]

structure LooksAlike (c c' : Compiler) : Prop where
  skip : ∀ t p, c.shouldSkip t p = c'.shouldSkip t p
  loader : ∀ t, c.loader t = c'.loader t

theorem LooksAlike.symm (h : c.LooksAlike c') : c'.LooksAlike c :=
  ⟨fun t p => (h.skip t p).symm, fun t => (h.loader t).symm⟩

theorem LooksAlike.dryResult (h : c.LooksAlike c') (t : FileTree) {p p' : FilePair} (hp : p.source = p'.source) :
    (c.dryResult t p).map (fun o => (c.account p o).outline) =
      (c'.dryResult t p').map fun o => (c'.account p' o).outline := by
  unfold Compiler.dryResult
  rw [← h.skip, ← h.loader, ← hp]
  split
  · simp [Except.map, account, BatchReport.outline, hp]
  · cases ((c.loader t).loadFile p.source).result with
    | error e => rfl
    | ok ds => simp [Except.map, Except.mapError, account, BatchReport.outline, compiled, hp]

theorem LooksAlike.compileAll (h : c.LooksAlike c') (hc : c.Dry) (hc' : c'.Dry) {ps ps' : List FilePair}
    (hps : ps.map FilePair.source = ps'.map FilePair.source) : (c.compileAll ps t).tree = t ∧
      (c.compileAll ps t).result.map BatchReport.outline = (c'.compileAll ps' t).result.map BatchReport.outline := by
  induction ps generalizing ps' with
  | nil =>
    obtain rfl := List.map_eq_nil_iff.mp hps.symm
    exact ⟨rfl, rfl⟩
  | cons p ps ih =>
    obtain ⟨p', ps', rfl, hp, hps'⟩ := List.map_eq_cons_iff.mp hps.symm
    obtain ⟨htree, hresult⟩ := hc.compileFile t p
    obtain ⟨htree', hresult'⟩ := hc'.compileFile t p'
    obtain ⟨hrest, houtline⟩ := ih hps'.symm
    have hone := h.dryResult t hp.symm
    cases ho : c.dryResult t p <;> cases ho' : c'.dryResult t p' <;> rw [ho, ho'] at hone
    case error.error =>
      obtain rfl := Except.error.inj hone
      simp [Compiler.compileAll, hresult, hresult', ho, ho', htree, Except.map]
    case error.ok => cases hone
    case ok.error => cases hone
    case ok.ok o o' =>
      have hone := Except.ok.inj hone
      rw [compileAll_cons (hresult.trans ho), compileAll_cons (hresult'.trans ho'), htree, htree']
      refine ⟨hrest, ?_⟩
      cases hr : (c.compileAll ps t).result <;> cases hr' : (c'.compileAll ps' t).result <;>
        simp_all [Except.map, BatchReport.outline_append]

end Compiler

def Settings.Ignores (s : Settings) (p : Path) : Prop := ∃ pattern name, s.ignoredPattern = .ok (some pattern) ∧
  p.fileName? = some name ∧ pattern.isMatch (String.ofList name) = true

namespace Command

open FileTree

variable {s : Settings} {cwd : Location} {flags : LoadFlags} {ignored : Option String} {t : FileTree}
  {o o' : CompileOptions} {file : Path}

theorem optionsFor_ok (h : optionsFor s cwd flags ignored = .ok o) :
    o.middleware = none ∧ (ignored = none → s.ignoredPattern = .ok o.ignored) := by
  rw [optionsFor_eq] at h
  cases ho : s.options (tagPrograms cwd) with
  | error f =>
    rw [ho] at h
    cases h
  | ok o₁ =>
    obtain ⟨tags, p, -, hp, rfl⟩ := Settings.options_ok ho
    rw [ho] at h
    obtain ⟨o₁, ho₁, h⟩ := bind_ok h
    obtain rfl := Except.ok.inj ho₁
    obtain ⟨pattern, hpattern, h⟩ := bind_ok h
    obtain rfl := Except.ok.inj h
    refine ⟨rfl, ?_⟩
    rintro rfl
    obtain rfl : p = pattern := Except.ok.inj hpattern
    exact hp

theorem shouldSkip_of_isFile (ho : s.ignoredPattern = .ok o.ignored) (hfile : t.isFile cwd file = true)
    (hkeep : ¬s.Ignores file) : (Compiler.onTree o cwd).shouldSkip t file = false := by
  have hdir : t.isDirectory cwd file = false := by
    unfold isFile at hfile
    split at hfile
    next hfind => rw [isDirectory, hfind]
    · exact nomatch hfile
  refine Bool.or_eq_false_iff.mpr ⟨hdir, ?_⟩
  split
  next pattern name hpattern hname =>
    by_contra hmatch
    exact hkeep ⟨pattern, name, by rw [ho]; exact congrArg _ hpattern, hname, by simpa using hmatch⟩
  · rfl

theorem outline_runCheck (s : Settings) (cwd : Location) (sources : List Path) (ignored : Option String)
    (flags : LoadFlags) (outDir : Option Path) (space : Option Nat) (t : FileTree) :
    let check := runCheck s cwd ⟨sources, ignored, flags⟩ t
    let compile := runCompile s cwd ⟨sources, outDir, space, ignored, true, flags⟩ t
    check.result.map BatchReport.outline = compile.result.map BatchReport.outline ∧ check.tree = t ∧
      compile.tree = t := by
  intro check compile
  unfold check compile runCheck runCompile
  dsimp only
  cases ho : optionsFor s cwd flags ignored with
  | error e => exact ⟨rfl, rfl, rfl⟩
  | ok o =>
    obtain ⟨hm, -⟩ := optionsFor_ok ho
    have hsources := t.sources_collectPairs cwd sources none (outDir <|> s.outDir)
    dsimp only [Bool.true_or]
    generalize t.collectPairs cwd (outDir <|> s.outDir) sources = pairs' at hsources
    generalize t.collectPairs cwd none sources = pairs at hsources
    unfold compilePairs
    cases pairs <;> cases pairs' <;> simp only [Except.map] at hsources
    case error.error =>
      obtain rfl := Except.error.inj hsources
      exact ⟨rfl, rfl, rfl⟩
    case error.ok => cases hsources
    case ok.error => cases hsources
    case ok.ok ps ps' =>
      let c := Compiler.onTree { o with disableDest := true } cwd
      let c' := Compiler.onTree { o with space := space.getD o.space, disableDest := true } cwd
      have halike : c.LooksAlike c' := ⟨fun _ _ => rfl, fun _ => rfl⟩
      have hps := Except.ok.inj hsources
      obtain ⟨htree, houtline⟩ := halike.compileAll (t := t) ⟨hm, rfl⟩ ⟨hm, rfl⟩ hps
      obtain ⟨htree', -⟩ := halike.symm.compileAll (t := t) ⟨hm, rfl⟩ ⟨hm, rfl⟩ hps.symm
      refine ⟨?_, htree, htree'⟩
      dsimp only
      rw [map_mapError, map_mapError]
      exact congrArg (Except.mapError CommandError.compile) houtline

/-! ## Single files -/

/-- The options with which one file is looked at. -/
def looking (o : CompileOptions) (space : Option Nat) : CompileOptions :=
  { o with space := space.getD o.space, disableDest := true }

def loaded (o : CompileOptions) (cwd : Location) (t : FileTree) (file : Path) :
    Except CommandError (List Yaml.Value) :=
  (((Compiler.onTree o cwd).loader t).loadFile file).result.mapError fun e => .compile (.load file e)

theorem tree_runResolve (s : Settings) (cwd : Location) (a : ResolveArgs) (t : FileTree) :
    (runResolve s cwd a t).tree = t := by
  unfold runResolve
  cases ho : optionsFor s cwd a.load none with
  | error e => rfl
  | ok o =>
    obtain ⟨hm, -⟩ := optionsFor_ok ho
    have hdry : (Compiler.onTree (looking o a.space) cwd).Dry := ⟨hm, rfl⟩
    exact (hdry.compileFile t _).1

variable {space : Option Nat} {outDir : Option Path}

theorem runResolve_of_options (ho : optionsFor s cwd flags none = .ok o)
    (hskip : (Compiler.onTree o cwd).shouldSkip t file = false) :
    (runResolve s cwd ⟨file, space, flags⟩ t).result =
      (loaded o cwd t file).map (Compiler.onTree (looking o space) cwd).render := by
  obtain ⟨hm, -⟩ := optionsFor_ok ho
  have hdry : (Compiler.onTree (looking o space) cwd).Dry := ⟨hm, rfl⟩
  obtain ⟨-, hresult⟩ := hdry.compileFile t (.forSource file none)
  have hskip' : (Compiler.onTree (looking o space) cwd).shouldSkip t (FilePair.forSource file none).source = false :=
    hskip
  have hload : (Compiler.onTree (looking o space) cwd).loader t = (Compiler.onTree o cwd).loader t := rfl
  have hsource : (FilePair.forSource file none).source = file := rfl
  rw [Compiler.dryResult, hskip', hload, hsource] at hresult
  unfold runResolve loaded
  rw [ho]
  dsimp only
  unfold looking at hresult
  rw [hresult]
  cases (((Compiler.onTree o cwd).loader t).loadFile file).result <;> rfl

theorem runCompile_of_options (ho : optionsFor s cwd flags none = .ok o) (hfile : t.isFile cwd file = true)
    (hskip : (Compiler.onTree o cwd).shouldSkip t file = false) :
    (runCompile s cwd ⟨[file], outDir, space, none, true, flags⟩ t).result.map (fun _ => ()) =
      (loaded o cwd t file).map fun _ => () := by
  obtain ⟨hm, -⟩ := optionsFor_ok ho
  let c := Compiler.onTree (looking o space) cwd
  have hdry : c.Dry := ⟨hm, rfl⟩
  obtain ⟨p, rfl, hpairs⟩ := collectPairs_of_isFile hfile (outDir <|> s.outDir)
  obtain ⟨-, hresult⟩ := hdry.compileFile t p
  have hskip' : c.shouldSkip t p.source = false := hskip
  rw [Compiler.dryResult, hskip'] at hresult
  unfold runCompile
  rw [ho]
  dsimp only
  rw [hpairs]
  change ((c.compileAll [p] t).result.mapError CommandError.compile).map _ = _
  unfold loaded
  change _ = (Except.mapError _ ((c.loader t).loadFile p.source).result).map _
  cases hload : ((c.loader t).loadFile p.source).result <;> rw [hload] at hresult <;>
    simp [Compiler.compileAll, hresult, Except.map, Except.mapError]

/-- What a compilation of a single file writes is the JSON of what the file loads to. -/
theorem written_of_runCompile (ho : optionsFor s cwd flags none = .ok o) (hfile : t.isFile cwd file = true)
    (hskip : (Compiler.onTree o cwd).shouldSkip t file = false) {r : BatchReport}
    (hr : (runCompile s cwd ⟨[file], outDir, space, none, false, flags⟩ t).result = .ok r) :
    ∃ ds e, loaded o cwd t file = .ok ds ∧ r.compiled = [e] ∧ (e.written = true →
      let json := (Compiler.onTree (looking o space) cwd).render ds
      (t.replace cwd e.dest json).2 = .ok () ∧
        (runCompile s cwd ⟨[file], outDir, space, none, false, flags⟩ t).tree = (t.replace cwd e.dest json).1) := by
  obtain ⟨hm, -⟩ := optionsFor_ok ho
  let c := Compiler.onTree { o with space := space.getD o.space, disableDest := false || o.disableDest } cwd
  obtain ⟨p, rfl, hpairs⟩ := collectPairs_of_isFile hfile (outDir <|> s.outDir)
  have htree : (runCompile s cwd ⟨[p.source], outDir, space, none, false, flags⟩ t).tree =
      (c.compileAll [p] t).tree := by
    rw [runCompile, ho]
    dsimp only
    rw [hpairs]
    rfl
  have hresult : (runCompile s cwd ⟨[p.source], outDir, space, none, false, flags⟩ t).result =
      (c.compileAll [p] t).result.mapError .compile := by
    rw [runCompile, ho]
    dsimp only
    rw [hpairs]
    rfl
  rw [hresult] at hr
  rw [htree]
  cases hall : (c.compileAll [p] t).result with
  | error e =>
    rw [hall] at hr
    cases hr
  | ok r' =>
    rw [hall] at hr
    obtain rfl := Except.ok.inj hr
    obtain ⟨f, r₂, hf, hr₂, rfl⟩ := Compiler.compileAll_cons_ok hall
    obtain rfl := Except.ok.inj hr₂
    rw [Compiler.compileAll_cons hf]
    obtain ⟨hskip', -, -⟩ | ⟨ds, -, hload, rfl, hemit, hafter⟩ := Compiler.compileFile_ok (c := c) hm hf
    · exact nomatch hskip.symm.trans hskip'
    · refine ⟨ds, ⟨p.source, p.written, ds.length, !c.options.disableDest⟩, ?_, rfl, fun hwritten => ?_⟩
      · unfold loaded
        change Except.mapError _ ((c.loader t).loadFile p.source).result = _
        rw [hload]
        rfl
      · obtain ⟨hd, -⟩ | ⟨-, hreplace, hemitted⟩ := Compiler.emit_ok hemit
        · simp [hd] at hwritten
        · exact ⟨hreplace, hafter.trans hemitted⟩

/-- Checks, single files and compilations without output agree, and none of them changes a file. A check reports of the
same sources what a compilation without output does, or the same error. A file that is not ignored has a JSON text
exactly if it compiles without output, and the errors are the same. What its compilation writes is that text, exactly
if no link is at the temporary path of the destination once the directories are made. -/
theorem commands_agree (s : Settings) (cwd : Location) (flags : LoadFlags) {t : FileTree} (h : t.WellFormed) :
    (∀ sources ignored outDir space,
      let check := runCheck s cwd ⟨sources, ignored, flags⟩ t
      let compile := runCompile s cwd ⟨sources, outDir, space, ignored, true, flags⟩ t
      check.result.map BatchReport.outline = compile.result.map BatchReport.outline ∧ check.tree = t ∧
        compile.tree = t) ∧
    ∀ file space outDir,
      let resolve := runResolve s cwd ⟨file, space, flags⟩ t
      let dry := runCompile s cwd ⟨[file], outDir, space, none, true, flags⟩ t
      let compile := runCompile s cwd ⟨[file], outDir, space, none, false, flags⟩ t
      resolve.tree = t ∧ (t.isFile cwd file = true → ¬s.Ignores file →
        resolve.result.map (fun _ => ()) = dry.result.map (fun _ => ()) ∧
        ∀ r, compile.result = .ok r → ∃ json e, resolve.result = .ok json ∧
          (∀ style, (run s cwd style (.resolve ⟨file, space, flags⟩) t).result = .ok (json ++ "\n")) ∧
          r.compiled = [e] ∧ (e.written = true →
            let made := (t.prepare cwd e.dest).1
            ∃ m, made.walk false cwd e.dest = .ok m ∧
              (compile.tree.contentAt? m = some (.text json) ↔ ¬made.HoldsLink cwd (temporary e.dest)))) := by
  refine ⟨fun sources ignored outDir space => outline_runCheck s cwd sources ignored flags outDir space t, ?_⟩
  intro file space outDir resolve dry compile
  refine ⟨tree_runResolve s cwd _ t, fun hfile hkeep => ?_⟩
  cases ho : optionsFor s cwd flags none with
  | error e =>
    have hresolve : resolve.result = .error e := by
      unfold resolve runResolve
      rw [ho]
    have hcompile (noWrite : Bool) :
        (runCompile s cwd ⟨[file], outDir, space, none, noWrite, flags⟩ t).result = .error e := by
      rw [runCompile, ho]
    refine ⟨?_, fun r hr => nomatch (hcompile false).symm.trans hr⟩
    rw [hresolve]
    exact (congrArg (Except.map fun _ => ()) (hcompile true)).symm
  | ok o =>
    have hskip := shouldSkip_of_isFile ((optionsFor_ok ho).2 rfl) hfile hkeep
    have hresolve : resolve.result = _ := runResolve_of_options ho hskip
    refine ⟨?_, fun r hr => ?_⟩
    · refine Eq.trans ?_ (runCompile_of_options ho hfile hskip).symm
      rw [hresolve]
      cases loaded o cwd t file <;> rfl
    · obtain ⟨ds, e, hload, hr, hwritten⟩ := written_of_runCompile ho hfile hskip hr
      rw [hload] at hresolve
      refine ⟨_, e, hresolve, fun style => congrArg (Except.map (· ++ "\n")) hresolve, hr, fun he => ?_⟩
      obtain ⟨hreplace, htree⟩ := hwritten he
      obtain ⟨m, hm, hcontent⟩ := replace_content_iff h hreplace
      refine ⟨m, hm, ?_⟩
      rw [← hcontent]
      exact iff_of_eq (congrArg (fun t => t.contentAt? m = some _) htree)

theorem resolved_text_is_written :
    let t := Compiler.rootOf [("a.yml", "k: 1\n")]
    let compile := runCompile .empty [] ⟨[⟨"a.yml"⟩], none, some 0, none, false, ⟨false, none⟩⟩ t
    t.WellFormed ∧ ∃ json, (runResolve .empty [] ⟨⟨"a.yml"⟩, some 0, ⟨false, none⟩⟩ t).result = .ok json ∧
      compile.tree.contentAt? ["a.json".toList] = some (.text json) := by
  intro t compile
  have ht : t.Plain := Compiler.plain_rootOf (by decide) (by decide +kernel) rfl
  have hfile : t.isFile [] ⟨"a.yml"⟩ = true := by decide +kernel
  have hkeep : ¬Settings.empty.Ignores ⟨"a.yml"⟩ := fun ⟨_, _, hpattern, _⟩ => nomatch hpattern
  let entry : CompiledEntry := ⟨⟨"a.yml"⟩, ⟨"a.json"⟩, 1, true⟩
  have hr : compile.result = .ok ⟨[entry], []⟩ := Compiler.eq_ok_of_toOption (by decide +kernel)
  obtain ⟨-, hsingle⟩ := commands_agree .empty [] ⟨false, none⟩ ht.wellFormed
  obtain ⟨json, e, hresolve, -, he, hwritten⟩ := ((hsingle ⟨"a.yml"⟩ (some 0) none).2 hfile hkeep).2 _ hr
  obtain rfl : entry = e := List.singleton_inj.mp he
  obtain ⟨m, hm, hcontent⟩ := hwritten rfl
  have hmade := (keepsBut_prepare [] ht ⟨"a.json"⟩).plain.linkFree
  obtain rfl : m = ["a.json".toList] := by
    have hplace : (Path.mk "a.json").place [] = ["a.json".toList] := by decide +kernel
    rw [walk_ok hmade hm, hplace]
  exact ⟨ht.wellFormed, json, hresolve, hcontent.mpr fun ⟨l, target, _, hlink⟩ => hmade l target hlink⟩

/-- A link at the temporary path that leads to the destination takes its place, and the text is lost. -/
theorem linked_temporary_path_loses_text :
    let t : FileTree :=
      ⟨[("a.json.tmp".toList, .link ⟨"a.json"⟩), ("a.yml".toList, .file (.text "k: 1\n") false)]⟩
    let compile := runCompile .empty [] ⟨[⟨"a.yml"⟩], none, none, none, false, ⟨false, none⟩⟩ t
    let entry : CompiledEntry := ⟨⟨"a.yml"⟩, ⟨"a.json"⟩, 1, true⟩
    t.WellFormed ∧ t.isFile [] ⟨"a.yml"⟩ = true ∧ compile.result = .ok ⟨[entry], []⟩ ∧
      (∃ json, (runResolve .empty [] ⟨⟨"a.yml"⟩, none, ⟨false, none⟩⟩ t).result = .ok json) ∧
      compile.tree.contentAt? ["a.json".toList] = none ∧
      compile.tree.readText [] ⟨"a.json"⟩ = .error (.refused .tooManyLinks) := by
  intro t compile entry
  refine ⟨?_, by decide +kernel, Compiler.eq_ok_of_toOption (by decide +kernel), ?_, by decide +kernel,
    by decide +kernel⟩
  · have hentries : ∀ e ∈ t.entries, Path.IsName e.1 ∧ e.2.WellFormed := by
      intro e he
      rcases List.mem_cons.mp he with rfl | he
      · exact ⟨by decide, .link _⟩
      · obtain rfl := List.mem_singleton.mp he
        exact ⟨by decide, .file _ _⟩
    exact .directory (fun e he => (hentries e he).1) (by decide +kernel) fun e he => (hentries e he).2
  · have hsome : (runResolve .empty [] ⟨⟨"a.yml"⟩, none, ⟨false, none⟩⟩ t).result.toOption.isSome = true := by
      decide +kernel
    obtain ⟨json, hjson⟩ := Option.isSome_iff_exists.mp hsome
    exact ⟨json, Compiler.eq_ok_of_toOption hjson⟩

end Command

end YamlInclude
