import YamlInclude.Compile.Batch
import YamlInclude.Proofs.Context
import YamlInclude.Proofs.Extent

/-! # Batches

A batch compiles its pairs one after the other, each from the files that the ones before it left. A pair for
which these files are the ones of the start gives what it gives alone.
-/

namespace YamlInclude

open Yaml

namespace FileTree

variable {t t' : FileTree} {cwd : Location} {p : Path} {text : String}

theorem isFile_eq (t : FileTree) (cwd : Location) (p : Path) : t.isFile cwd p = (t.contentOf? cwd p).isSome := by
  unfold isFile contentOf?
  cases t.find cwd p with
  | error e => rfl
  | ok found =>
    obtain ⟨l, e⟩ := found
    cases e <;> rfl

theorem readText_ok_iff : t.readText cwd p = .ok text ↔ t.contentOf? cwd p = some (.text text) := by
  unfold readText contentOf?
  cases t.find cwd p with
  | error e => simp
  | ok found =>
    obtain ⟨l, e⟩ := found
    cases e with
    | file c x => cases c <;> simp
    | _ => simp

theorem agree_of_contentOf?_eq (h : t.contentOf? cwd p = t'.contentOf? cwd p) :
    (t.source cwd).Agree (t'.source cwd) p where
  isFile := by
    change t.isFile cwd p = t'.isFile cwd p
    rw [isFile_eq, isFile_eq, h]
  read text := by
    change t.readText cwd p = .ok text ↔ t'.readText cwd p = .ok text
    rw [readText_ok_iff, readText_ok_iff, h]

end FileTree

namespace Loader

variable {l : Loader} {t t' : FileTree} {cwd : Location} {p : Path} {ds : List Value}

theorem isBelowRoot_of_readText {text : String} (hp : p.IsNormal) (h : t.readText cwd p = .ok text) :
    p.IsBelowRoot := by
  obtain ⟨m, hm, rfl⟩ := hp
  refine ⟨m, ?_, hm, rfl⟩
  rintro rfl
  obtain ⟨k, x, hfind⟩ := FileTree.find_of_readText h
  obtain ⟨hwalk, hat⟩ := FileTree.find_ok_iff.mp hfind
  obtain ⟨-, hwalk⟩ := FileTree.walk_ok_iff.mp hwalk
  obtain ⟨follow, hfollow⟩ := t.exists_walkFrom true FileTree.maxLinks
  have hroot : (Location.path []).body = [[]] := rfl
  rw [hfollow, hroot, Path.isAbsolute_path, if_pos rfl] at hwalk
  have hk : k = [] := by
    simpa [FileTree.walkFrom, FileTree.at?, FileTree.root, Entry.at?, Path.isVoid, eq_comm] using hwalk
  simp [hk, FileTree.at?, FileTree.root, Entry.at?] at hat

/-- A file loads to the same documents from two trees that agree on all that its load asks for. -/
theorem loadFile_tree (hsource : l.source = t.source cwd) (htags : l.tags = .empty) (hcwd : l.cwd.isAbsolute = true)
    (h : ∀ q, l.Consults (p.absolutize l.cwd) q → t'.contentOf? cwd q = t.contentOf? cwd q)
    (hload : ((l.withSource (t'.source cwd)).loadFile p).result = .ok ds) : (l.loadFile p).result = .ok ds := by
  have hagree : ∀ q, l.Consults (p.absolutize l.cwd) q → l.source.Agree (t'.source cwd) q := by
    intro q hq
    rw [hsource]
    exact FileTree.agree_of_contentOf?_eq (h q hq).symm
  obtain ⟨text, hread, hload⟩ := loadFile_ok hload
  have hread : l.source.read (p.absolutize l.cwd) = .ok text := ((hagree _ .first).read text).mpr hread
  have hbelow : (p.absolutize l.cwd).IsBelowRoot := by
    rw [hsource] at hread
    exact isBelowRoot_of_readText (Path.isNormal_absolutize p hcwd) hread
  have hsame := (loadWithin_withSource htags hagree hread _ .refl ds).mpr hload
  have hcut : (l.loadText text (.root (p.absolutize l.cwd))).result = .ok ds := by
    by_cases hle : (t'.source cwd).extent ≤ l.source.extent
    · have hwithin : LoadState.Within (.root (p.absolutize l.cwd)) (.root (p.absolutize l.cwd)) :=
        ⟨rfl, fun q hq => List.any_eq_true.mpr ⟨q, hq, Path.same_self q⟩⟩
      exact (loadWithin_follows htags hwithin (Nat.succ_le_succ hle) text).eq_of_ok hsame
    · rw [loadText, loadWithin_tree hsource htags hcwd hbelow (Nat.lt_succ_self _)
        (Nat.lt_succ_of_lt (not_le.mp hle))]
      exact hsame
  exact Traced.result_bind_ok_iff.mpr ⟨text, read_ok_iff.mpr hread, hcut⟩

end Loader

theorem BatchReport.append_assoc (r₁ r₂ r₃ : BatchReport) :
    (r₁.append r₂).append r₃ = r₁.append (r₂.append r₃) := by
  simp [append]

namespace Compiler

variable {c : Compiler} {options : CompileOptions} {cwd : Location} {t t' : FileTree} {p : FilePair}
  {ps qs : List FilePair} {o : Option CompiledFile} {r : BatchReport}

/-- The compiler that writes nothing. -/
def dry (c : Compiler) : Compiler := { c with options := { c.options with disableDest := true } }

theorem compileFile_of_skip (h : c.shouldSkip t p.source = true) :
    c.compileFile p t = ⟨t, [.skipped p.source], .ok none⟩ := by
  rw [compileFile, if_pos h]

theorem compileFile_of_load (hm : c.options.middleware = none) (h : c.shouldSkip t p.source = false) {ds : List Value}
    (hload : ((c.loader t).loadFile p.source).result = .ok ds) :
    ∃ events, c.compileFile p t =
      ⟨(c.emit t (c.compiled p ds)).tree, events, (c.emit t (c.compiled p ds)).result.map some⟩ := by
  simp only [compileFile, h, Bool.false_eq_true, if_false, hload, finish, hm]
  exact ⟨_, rfl⟩

theorem compileFile_of_error (h : c.shouldSkip t p.source = false) {e : LoadError}
    (hload : ((c.loader t).loadFile p.source).result = .error e) :
    (c.compileFile p t).result = .error (.load p.source e) := by
  simp only [compileFile, h, Bool.false_eq_true, if_false, hload]

theorem eq_of_emit_ok {f f' : CompiledFile} (h : (c.emit t f).result = .ok f') : f' = f := by
  unfold emit at h
  split at h
  · exact (Except.ok.inj h).symm
  · split at h
    · exact nomatch h
    · exact (Except.ok.inj h).symm

/-- Whether a pair comes as far as the writing of a file: it is not skipped, its source loads, and the middleware
makes that file of the documents. -/
structure Finishes (c : Compiler) (t : FileTree) (p : FilePair) (f : CompiledFile) : Prop where
  skip : c.shouldSkip t p.source = false
  file : ∃ ds, ((c.loader t).loadFile p.source).result = .ok ds ∧ c.finish p ds = .ok f

theorem skips_or_finishes (h : (c.compileFile p t).result = .ok o) :
    (c.shouldSkip t p.source = true ∧ o = none ∧ (c.compileFile p t).tree = t) ∨
      ∃ f, o = some f ∧ c.Finishes t p f ∧ (c.emit t f).result = .ok f ∧
        (c.compileFile p t).tree = (c.emit t f).tree := by
  cases hskip : c.shouldSkip t p.source with
  | true =>
    rw [compileFile_of_skip hskip] at h ⊢
    exact Or.inl ⟨rfl, (Except.ok.inj h).symm, rfl⟩
  | false =>
    cases hload : ((c.loader t).loadFile p.source).result with
    | error e =>
      rw [compileFile_of_error hskip hload] at h
      exact nomatch h
    | ok ds =>
      simp only [compileFile, hskip, hload, Bool.false_eq_true, if_false] at h ⊢
      cases hfinish : c.finish p ds with
      | error e =>
        rw [hfinish] at h
        exact nomatch h
      | ok f =>
        rw [hfinish] at h
        dsimp only at h ⊢
        cases hemit : (c.emit t f).result with
        | error e =>
          rw [hemit] at h
          exact nomatch h
        | ok g =>
          obtain rfl := eq_of_emit_ok hemit
          rw [hemit] at h
          exact Or.inr ⟨g, (Except.ok.inj h).symm, ⟨hskip, ds, hload, hfinish⟩, hemit, rfl⟩

theorem compileFile_ok (hm : c.options.middleware = none) (h : (c.compileFile p t).result = .ok o) :
    (c.shouldSkip t p.source = true ∧ o = none ∧ (c.compileFile p t).tree = t) ∨
      ∃ ds, c.shouldSkip t p.source = false ∧ ((c.loader t).loadFile p.source).result = .ok ds ∧
        o = some (c.compiled p ds) ∧ (c.emit t (c.compiled p ds)).result = .ok (c.compiled p ds) ∧
        (c.compileFile p t).tree = (c.emit t (c.compiled p ds)).tree := by
  obtain hskip | ⟨f, rfl, ⟨hskip, ds, hload, hfinish⟩, hemit, htree⟩ := skips_or_finishes h
  · exact Or.inl hskip
  · simp only [finish, hm] at hfinish
    obtain rfl := Except.ok.inj hfinish
    exact Or.inr ⟨ds, hskip, hload, rfl, hemit, htree⟩

/-- Whether a pair finds in one tree what it finds in another: it is skipped in both or in none, and all paths
that the load of its source asks for lead to the same contents. -/
structure Undisturbed (c : Compiler) (t t' : FileTree) (p : FilePair) : Prop where
  skip : c.shouldSkip t' p.source = c.shouldSkip t p.source
  files : ∀ q, (c.loader t).Consults (p.source.absolutize c.cwd.path) q →
    t'.contentOf? c.cwd q = t.contentOf? c.cwd q

theorem loader_onTree (htags : options.tags = .empty) (t t' : FileTree) :
    (onTree options cwd).loader t' = ((onTree options cwd).loader t).withSource (t'.source cwd) := by
  simp [loader, onTree, htags, Loader.withSource, TagRegistry.map, TagRegistry.empty]

theorem dry_compileFile (hm : c.options.middleware = none)
    (h : c.shouldSkip t p.source = true ∧ o = none ∨ ∃ ds, c.shouldSkip t p.source = false ∧
      ((c.loader t).loadFile p.source).result = .ok ds ∧ o = some (c.compiled p ds)) :
    (c.dry.compileFile p t).result = .ok o := by
  rcases h with ⟨hskip, rfl⟩ | ⟨ds, hskip, hload, rfl⟩
  · have hskip' : c.dry.shouldSkip t p.source = true := hskip
    rw [compileFile_of_skip hskip']
  · obtain ⟨events, heq⟩ := compileFile_of_load (c := c.dry) hm hskip hload
    rw [heq]
    rfl

/-- A pair that is undisturbed in a tree compiles to what it compiles to, without writing, in the other one. -/
theorem Undisturbed.compileFile (htags : options.tags = .empty) (hm : options.middleware = none)
    (h : (onTree options cwd).Undisturbed t t' p) (ho : ((onTree options cwd).compileFile p t').result = .ok o) :
    ((onTree options cwd).dry.compileFile p t).result = .ok o := by
  apply dry_compileFile (c := onTree options cwd) hm
  rcases compileFile_ok (c := onTree options cwd) hm ho with ⟨hskip, rfl, -⟩ | ⟨ds, hskip, hload, rfl, -⟩
  · exact Or.inl ⟨h.skip.symm.trans hskip, rfl⟩
  · have htree : ((onTree options cwd).loader t).tags = .empty := by
      simp [loader, onTree, htags, TagRegistry.map, TagRegistry.empty]
    rw [loader_onTree htags t t'] at hload
    have hload' := Loader.loadFile_tree rfl htree (Path.isAbsolute_path cwd) h.files hload
    exact Or.inr ⟨ds, h.skip.symm.trans hskip, hload', rfl⟩

theorem compileAll_cons (ho : (c.compileFile p t).result = .ok o) :
    c.compileAll (p :: ps) t = ⟨(c.compileAll ps (c.compileFile p t).tree).tree,
      (c.compileFile p t).events ++ (c.compileAll ps (c.compileFile p t).tree).events,
      (c.compileAll ps (c.compileFile p t).tree).result.map (c.account p o).append⟩ := by
  simp only [compileAll, ho]

theorem compileAll_cons_ok (h : (c.compileAll (p :: ps) t).result = .ok r) : ∃ o r',
    (c.compileFile p t).result = .ok o ∧ (c.compileAll ps (c.compileFile p t).tree).result = .ok r' ∧
      r = (c.account p o).append r' := by
  cases ho : (c.compileFile p t).result with
  | error e => simp [compileAll, ho] at h
  | ok o =>
    rw [compileAll_cons ho] at h
    cases hr : (c.compileAll ps (c.compileFile p t).tree).result with
    | error e => simp [hr, Except.map] at h
    | ok r' =>
      simp only [hr, Except.map, Except.ok.injEq] at h
      exact ⟨o, r', rfl, rfl, h.symm⟩

/-- A batch of two parts does what the first part does, and then, if that succeeds, what the second one does from the
files that the first one left. -/
theorem compileAll_append (c : Compiler) (ps qs : List FilePair) (t : FileTree) : c.compileAll (ps ++ qs) t =
    match (c.compileAll ps t).result with
    | .error e => ⟨(c.compileAll ps t).tree, (c.compileAll ps t).events, .error e⟩
    | .ok r => ⟨(c.compileAll qs (c.compileAll ps t).tree).tree,
        (c.compileAll ps t).events ++ (c.compileAll qs (c.compileAll ps t).tree).events,
        (c.compileAll qs (c.compileAll ps t).tree).result.map r.append⟩ := by
  induction ps generalizing t with
  | nil =>
    dsimp only [List.nil_append, compileAll]
    rcases c.compileAll qs t with ⟨t', events, e | r⟩ <;> rfl
  | cons p ps ih =>
    rw [List.cons_append]
    cases ho : (c.compileFile p t).result with
    | error e => simp only [compileAll, ho]
    | ok o =>
      rw [compileAll_cons ho, compileAll_cons ho, ih]
      cases (c.compileAll ps (c.compileFile p t).tree).result with
      | error e => rfl
      | ok r =>
        dsimp only [Except.map]
        rw [List.append_assoc]
        cases (c.compileAll qs (c.compileAll ps (c.compileFile p t).tree).tree).result with
        | error e => rfl
        | ok s =>
          dsimp only
          rw [BatchReport.append_assoc]

theorem compileAll_append_ok (h : (c.compileAll (ps ++ qs) t).result = .ok r) : ∃ r₁ r₂,
    (c.compileAll ps t).result = .ok r₁ ∧ (c.compileAll qs (c.compileAll ps t).tree).result = .ok r₂ ∧
      (c.compileAll (ps ++ qs) t).tree = (c.compileAll qs (c.compileAll ps t).tree).tree ∧ r = r₁.append r₂ := by
  rw [compileAll_append] at h ⊢
  cases h₁ : (c.compileAll ps t).result with
  | error e =>
    rw [h₁] at h
    exact nomatch h
  | ok r₁ =>
    rw [h₁] at h
    dsimp only at h ⊢
    cases h₂ : (c.compileAll qs (c.compileAll ps t).tree).result with
    | error e =>
      rw [h₂] at h
      exact nomatch h
    | ok r₂ =>
      rw [h₂] at h
      exact ⟨r₁, r₂, rfl, rfl, rfl, (Except.ok.inj h).symm⟩

end Compiler

end YamlInclude
