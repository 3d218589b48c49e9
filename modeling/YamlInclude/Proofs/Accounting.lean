import YamlInclude.Proofs.Turns

/-! # The account of a batch

A batch of two parts does what the first one does, and then, if that succeeds, what the second one does from the files
that it left. The report of a batch that succeeds names each pair once, in the list of those that were skipped at their
turns or in the other one.
-/

namespace YamlInclude

namespace Compiler

variable {c : Compiler} {t : FileTree} {p : FilePair} {ps qs : List FilePair} {f : CompiledFile}
  {o : Option CompiledFile} {r : BatchReport}

/-- Whether the middleware, if there is one, leaves the sources of files as they are. -/
def KeepsSource (c : Compiler) : Prop :=
  ∀ m, c.options.middleware = some m → ∀ f g, m f = .ok g → g.source = f.source

theorem Finishes.source (hsource : c.KeepsSource) (h : c.Finishes t p f) : f.source = p.source := by
  obtain ⟨-, ds, -, hfinish⟩ := h
  unfold finish at hfinish
  dsimp only at hfinish
  split at hfinish
  · obtain rfl := Except.ok.inj hfinish
    rfl
  next m hm =>
    cases hg : m (c.compiled p ds) with
    | error e =>
      rw [hg] at hfinish
      exact nomatch hfinish
    | ok g =>
      rw [hg] at hfinish
      obtain rfl := Except.ok.inj hfinish
      exact hsource m hm _ _ hg

/-- The pairs of a batch with the trees that there are at their turns. -/
def turns (c : Compiler) (ps : List FilePair) (t : FileTree) : List (FilePair × FileTree) :=
  ps.mapIdx fun i p => (p, (c.compileAll (ps.take i) t).tree)

theorem turns_cons (ho : (c.compileFile p t).result = .ok o) :
    c.turns (p :: ps) t = (p, t) :: c.turns ps (c.compileFile p t).tree := by
  simp [turns, List.mapIdx_cons, compileAll_cons ho, compileAll]

/-- Whether a pair is skipped at its turn. -/
def skipsTurn (c : Compiler) (turn : FilePair × FileTree) : Bool := c.shouldSkip turn.2 turn.1.source

theorem length_account (p : FilePair) (o : Option CompiledFile) :
    (c.account p o).compiled.length + (c.account p o).skipped.length = 1 := by
  cases o <;> rfl

theorem skipped_account (ho : (c.compileFile p t).result = .ok o) :
    (c.account p o).skipped = if c.skipsTurn (p, t) then [p.source] else [] := by
  obtain ⟨hskip, rfl, -⟩ | ⟨f, rfl, hf, -⟩ := skips_or_finishes ho
  · rw [skipsTurn, hskip]
    rfl
  · rw [skipsTurn, hf.skip]
    rfl

theorem compiled_account (hsource : c.KeepsSource) (ho : (c.compileFile p t).result = .ok o) :
    (c.account p o).compiled.map CompiledEntry.source = if !c.skipsTurn (p, t) then [p.source] else [] := by
  obtain ⟨hskip, rfl, -⟩ | ⟨f, rfl, hf, -⟩ := skips_or_finishes ho
  · rw [skipsTurn, hskip]
    rfl
  · rw [skipsTurn, hf.skip, ← hf.source hsource]
    rfl

/-- The report of a batch that succeeds has each pair in the list that its turn decides on. -/
theorem compileAll_accounts (h : (c.compileAll ps t).result = .ok r) :
    r.skipped = ((c.turns ps t).filter c.skipsTurn).map (·.1.source) ∧
      r.compiled.length + r.skipped.length = ps.length ∧
      (c.KeepsSource → r.compiled.map CompiledEntry.source =
        ((c.turns ps t).filter fun turn => !c.skipsTurn turn).map (·.1.source)) := by
  induction ps generalizing t r with
  | nil =>
    obtain rfl := Except.ok.inj h
    exact ⟨rfl, rfl, fun _ => rfl⟩
  | cons p ps ih =>
    obtain ⟨o, s, ho, hs, rfl⟩ := compileAll_cons_ok h
    obtain ⟨hskipped, hlength, hcompiled⟩ := ih hs
    rw [turns_cons ho, List.filter_cons, List.filter_cons]
    refine ⟨?_, ?_, fun hsource => ?_⟩
    · rw [BatchReport.append, hskipped, skipped_account ho]
      split <;> rfl
    · have hone := length_account (c := c) p o
      simp only [BatchReport.append, List.length_append, List.length_cons]
      omega
    · rw [BatchReport.append, List.map_append, hcompiled hsource, compiled_account hsource ho]
      split <;> rfl

/-- More pairs change nothing of a batch that fails. After one that succeeds they do what they do from the files that
it left, and its report, which goes before theirs, names each of its pairs once: it has the sources of the pairs that
were skipped at their turns in one list and, unless the middleware changes them, those of all others in the other. -/
theorem batch_composes_and_accounts (c : Compiler) (t : FileTree) (ps qs : List FilePair) :
    (∀ e, (c.compileAll ps t).result = .error e → c.compileAll (ps ++ qs) t = c.compileAll ps t) ∧
    ∀ r, (c.compileAll ps t).result = .ok r →
      let rest := c.compileAll qs (c.compileAll ps t).tree
      c.compileAll (ps ++ qs) t =
        ⟨rest.tree, (c.compileAll ps t).events ++ rest.events, rest.result.map r.append⟩ ∧
      r.skipped = ((c.turns ps t).filter c.skipsTurn).map (·.1.source) ∧
      r.compiled.length + r.skipped.length = ps.length ∧
      (c.KeepsSource → r.compiled.map CompiledEntry.source =
        ((c.turns ps t).filter fun turn => !c.skipsTurn turn).map (·.1.source)) := by
  refine ⟨fun e he => ?_, fun r hr => ⟨?_, compileAll_accounts hr⟩⟩
  · rw [compileAll_append, he]
    dsimp only
    rw [← he]
  · rw [compileAll_append, hr]

/-- The second part ends at a file that is not there, and the middleware changes the texts of files. -/
theorem batch_accounts_for_directory :
    let ends : Middleware := fun f => .ok { f with json := f.json ++ "\n" }
    let c := onTree { CompileOptions.initial with middleware := some ends } []
    let t : FileTree := ⟨[("a.yml".toList, .file (.text "k: 1\n") false), ("b.yml".toList, .file (.text "k: 2\n") false),
      ("d.yml".toList, .directory [])]⟩
    let ps := [ownPair "a.yml", ownPair "d.yml"]
    let qs := [ownPair "b.yml", ownPair "none.yml"]
    c.KeepsSource ∧
      (∃ r, (c.compileAll ps t).result = .ok r ∧ r.compiled.map CompiledEntry.source = [⟨"a.yml"⟩] ∧
        r.skipped = [⟨"d.yml"⟩] ∧ r.compiled.length + r.skipped.length = 2) ∧
      (c.compileAll (ps ++ qs) t).tree = (c.compileAll qs (c.compileAll ps t).tree).tree ∧
      (∃ e, (c.compileAll (ps ++ qs) t).result = .error e) ∧
      c.compileAll (ps ++ qs ++ ps) t = c.compileAll (ps ++ qs) t := by
  intro ends c t ps qs
  have hsource : c.KeepsSource := by
    rintro m hm f g hg
    cases hm
    cases hg
    rfl
  have hsome : (c.compileAll ps t).result.toOption.isSome = true := by decide +kernel
  obtain ⟨r, hr⟩ := Option.isSome_iff_exists.mp hsome
  have hr := eq_ok_of_toOption hr
  obtain ⟨happend, hskipped, hlength, hcompiled⟩ := (batch_composes_and_accounts c t ps qs).2 r hr
  have hfault : (fault? (c.compileAll (ps ++ qs) t).result).isSome = true := by decide +kernel
  obtain ⟨e, he⟩ := Option.isSome_iff_exists.mp hfault
  have he := eq_error_of_fault? he
  refine ⟨hsource, ⟨r, hr, ?_, ?_, hlength⟩, by rw [happend], ⟨e, he⟩,
    (batch_composes_and_accounts c t (ps ++ qs) ps).1 e he⟩
  · rw [hcompiled hsource]
    decide +kernel
  · rw [hskipped]
    decide +kernel

end Compiler

end YamlInclude
