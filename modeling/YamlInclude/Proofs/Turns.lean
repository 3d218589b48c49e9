import YamlInclude.Proofs.Batch
import YamlInclude.Proofs.Written

/-! # The turns of a batch

At the turn of a pair a tree has what it had at the start, but for the places that the pairs before it wrote to.
If the load of its source asks for none of them, the pair compiles to what it compiles to alone.
-/

namespace YamlInclude

open Yaml FileTree

namespace BatchReport

def places (r : BatchReport) (cwd : Location) : List Location :=
  (r.compiled.filter CompiledEntry.written).flatMap fun e => touched cwd e.dest

theorem places_append (r s : BatchReport) (cwd : Location) :
    (r.append s).places cwd = r.places cwd ++ s.places cwd := by
  simp [places, append]

end BatchReport

namespace Loader

variable {l : Loader} {t : FileTree} {cwd : Location} {first q : Path} {a b : Visit}

theorem isBelowRoot_of_leads (hcwd : l.cwd.isAbsolute = true) (ha : a.file.IsBelowRoot)
    (h : Relation.ReflTransGen (Leads l) a b) : b.file.IsBelowRoot := by
  induction h with
  | refl => exact ha
  | tail _ hstep ih =>
    cases hstep with
    | @follow _ _ _ _ raw _ _ _ _ _ _ =>
      dsimp only
      exact isBelowRoot_target hcwd ih raw

theorem Consults.isNormal (hsource : l.source = t.source cwd) (hcwd : l.cwd.isAbsolute = true)
    (hfirst : first.IsNormal) (h : l.Consults first q) : q.IsNormal := by
  cases h with
  | first => exact hfirst
  | reference hread hreach hd hv hu hr hq =>
    rw [hsource] at hread
    have hbelow := isBelowRoot_of_readText hfirst hread
    obtain ⟨m, -, hm, rfl⟩ := isBelowRoot_of_mem_asks hcwd (isBelowRoot_of_leads hcwd hbelow hreach) hq
    exact ⟨m, hm, rfl⟩

end Loader

namespace Compiler

variable {c : Compiler} {options : CompileOptions} {cwd : Location} {t t' : FileTree} {p : FilePair}
  {ps qs before after : List FilePair} {f f' : CompiledFile} {o : Option CompiledFile} {r report : BatchReport}

theorem emit_ok (h : (c.emit t f).result = .ok f') :
    c.options.disableDest = true ∧ (c.emit t f).tree = t ∨
      c.options.disableDest = false ∧ (t.replace c.cwd f.dest f.json).2 = .ok () ∧
        (c.emit t f).tree = (t.replace c.cwd f.dest f.json).1 := by
  unfold emit at h ⊢
  split
  next hd => exact Or.inl ⟨hd, rfl⟩
  next hd =>
    rw [if_neg hd] at h
    refine Or.inr ⟨Bool.eq_false_iff.mpr hd, ?_⟩
    split at h
    · exact nomatch h
    next heq => exact ⟨by rw [heq], by rw [heq]⟩

theorem replaced_of_compileFile (hm : c.options.middleware = none) (hd : c.options.disableDest = false)
    (ho : (c.compileFile p t).result = .ok (some f)) :
    f.dest = p.written ∧ (t.replace c.cwd f.dest f.json).2 = .ok () ∧
      (c.compileFile p t).tree = (t.replace c.cwd f.dest f.json).1 := by
  obtain ⟨-, hnone, -⟩ | ⟨ds, -, -, hsome, hemit, htree⟩ := compileFile_ok hm ho
  · exact nomatch hnone
  obtain rfl := Option.some.inj hsome
  obtain ⟨hd', -⟩ | ⟨-, hreplace, htree'⟩ := emit_ok hemit
  · exact nomatch hd.symm.trans hd'
  · exact ⟨rfl, hreplace, htree.trans htree'⟩

theorem keepsBut_compileFile (hm : c.options.middleware = none) (h : t.Plain)
    (ho : (c.compileFile p t).result = .ok o) :
    KeepsBut ((c.account p o).places c.cwd) t (c.compileFile p t).tree := by
  obtain ⟨-, rfl, htree⟩ | ⟨ds, -, -, rfl, hemit, htree⟩ := compileFile_ok hm ho
  · rw [htree]
    exact .refl h
  · rw [htree]
    obtain ⟨-, htree⟩ | ⟨hd, hreplace, htree⟩ := emit_ok hemit
    · rw [htree]
      exact .refl h
    · rw [htree]
      refine (keepsBut_replace h hreplace).1.mono ?_
      simp [account, BatchReport.places, hd]

theorem keepsBut_compileAll (hm : c.options.middleware = none) (h : t.Plain)
    (hr : (c.compileAll ps t).result = .ok r) : KeepsBut (r.places c.cwd) t (c.compileAll ps t).tree := by
  induction ps generalizing t r with
  | nil => exact .refl h
  | cons p ps ih =>
    obtain ⟨o, r', ho, hr', rfl⟩ := compileAll_cons_ok hr
    have hstep := keepsBut_compileFile hm h ho
    rw [compileAll_cons ho, BatchReport.places_append]
    exact hstep.trans (ih hstep.plain hr')

/-- Whether no path that the load of a pair asks for is that of a place that a batch wrote to. -/
def Clear (c : Compiler) (t : FileTree) (r : BatchReport) (p : FilePair) : Prop :=
  ∀ l : Location, (c.loader t).Consults (p.source.absolutize c.cwd.path) l.path → l ∉ r.places c.cwd

/-- A pair is clear of the places that closed visits of its load do not ask for. -/
theorem Clear.of_isClosed {visits : List Visit} (hclosed : (c.loader t).isClosed visits = true)
    (hfirst : ∀ text, (c.loader t).source.read (p.source.absolutize c.cwd.path) = .ok text →
      ⟨p.source.absolutize c.cwd.path, text⟩ ∈ visits)
    (haway : ∀ q ∈ p.source.absolutize c.cwd.path :: (c.loader t).asksFrom visits,
      q ∉ (r.places c.cwd).map Location.path) : c.Clear t r p := by
  intro l hl hmem
  exact haway _ (hl.mem_of_isClosed hclosed hfirst) (List.mem_map_of_mem hmem)

/-- A pair that is clear of the writes before its turn is undisturbed by them, if it is not skipped. -/
theorem Clear.undisturbed (hclear : (onTree options cwd).Clear t r p) (h : t.Plain)
    (hkeeps : KeepsBut (r.places cwd) t t') (hskip : (onTree options cwd).shouldSkip t' p.source = false) :
    (onTree options cwd).Undisturbed t t' p where
  skip := by
    rw [hskip]
    obtain ⟨hdir', hname⟩ := Bool.or_eq_false_iff.mp hskip
    have hdir : t.isDirectory cwd p.source = false := by
      by_contra htrue
      rw [Bool.not_eq_false] at htrue
      have htrue' := isDirectory_of_directory h.linkFree hkeeps.plain.linkFree hkeeps.directory htrue
      exact nomatch hdir'.symm.trans htrue'
    exact (Bool.or_eq_false_iff.mpr ⟨hdir, hname⟩).symm
  files q hq := by
    have hfirst := Path.isNormal_absolutize p.source (Path.isAbsolute_path cwd)
    have hsource : ((onTree options cwd).loader t).source = t.source cwd := rfl
    obtain ⟨l, hl, rfl⟩ := Loader.Consults.isNormal hsource (Path.isAbsolute_path cwd) hfirst hq
    apply Option.ext
    intro content
    rw [contentOf?_path_eq_some_iff hkeeps.plain.linkFree hl, contentOf?_path_eq_some_iff h.linkFree hl,
      hkeeps.content l (hclear l hq)]

/-- Whether a pair alone compiles to something: it does so where nothing is written, and to nothing else where
its destination is. -/
structure Gives (c : Compiler) (t : FileTree) (p : FilePair) (o : Option CompiledFile) : Prop where
  dry : (c.dry.compileFile p t).result = .ok o
  only : ∀ o', (c.compileFile p t).result = .ok o' → o' = o

theorem dry_of_compileFile (hm : c.options.middleware = none) (ho : (c.compileFile p t).result = .ok o) :
    (c.dry.compileFile p t).result = .ok o := by
  apply dry_compileFile hm
  rcases compileFile_ok hm ho with ⟨hskip, rfl, -⟩ | ⟨ds, hskip, hload, rfl, -⟩
  · exact Or.inl ⟨hskip, rfl⟩
  · exact Or.inr ⟨ds, hskip, hload, rfl⟩

theorem Undisturbed.gives (htags : options.tags = .empty) (hm : options.middleware = none)
    (h : (onTree options cwd).Undisturbed t t' p) (ho : ((onTree options cwd).compileFile p t').result = .ok o) :
    (onTree options cwd).Gives t p o := by
  have hdry := h.compileFile htags hm ho
  refine ⟨hdry, fun o' ho' => ?_⟩
  have hdry' := dry_of_compileFile (c := onTree options cwd) hm ho'
  exact (Except.ok.inj (hdry.symm.trans hdry')).symm

theorem endsWithName_of_compileAll (hm : c.options.middleware = none) (hd : c.options.disableDest = false)
    (hr : (c.compileAll ps t).result = .ok r) : ∀ e ∈ r.compiled, endsWithName (temporary e.dest) = true := by
  induction ps generalizing t r with
  | nil =>
    cases hr
    exact nofun
  | cons p ps ih =>
    obtain ⟨o, r', ho, hr', rfl⟩ := compileAll_cons_ok hr
    intro e he
    rcases List.mem_append.mp he with he | he
    · cases o with
      | none => exact nomatch he
      | some f =>
        obtain rfl := List.mem_singleton.mp he
        obtain ⟨-, hreplace, -⟩ := replaced_of_compileFile hm hd ho
        exact (endsWithName_of_replace hreplace).1
    · exact ih hr' e he

/-- What a pair wrote is there at the end of the batch, unless a later one has a destination at the same place. -/
theorem written_at_end (hm : c.options.middleware = none) (hd : c.options.disableDest = false) (h : t.Plain)
    (ho : (c.compileFile p t).result = .ok (some f)) (hr : (c.compileAll ps (c.compileFile p t).tree).result = .ok r)
    (hdistinct : ∀ e ∈ r.compiled, e.dest.place c.cwd ≠ f.dest.place c.cwd) :
    (c.compileAll (p :: ps) t).tree.contentAt? (f.dest.place c.cwd) = some (.text f.json) := by
  have hstep := keepsBut_compileFile hm h ho
  have hrest := keepsBut_compileAll hm hstep.plain hr
  obtain ⟨hdest, hreplace, htree⟩ := replaced_of_compileFile hm hd ho
  have hname := (endsWithName_of_replace hreplace).2
  have haway : f.dest.place c.cwd ∉ r.places c.cwd := by
    intro hmem
    obtain ⟨e, he, hmem⟩ := List.mem_flatMap.mp hmem
    have he := (List.mem_filter.mp he).1
    rcases List.mem_pair.mp hmem with hplace | hplace
    · exact hdistinct e he hplace.symm
    · rw [hdest] at hname hplace
      exact place_ne_temporary c.cwd hname (endsWithName_of_compileAll hm hd hr e he) hplace
  rw [compileAll_cons ho, hrest.content _ haway, htree]
  exact (keepsBut_replace h hreplace).2

/-- In a batch that succeeds each pair compiles to what it compiles to alone at the start, if its turn finds what
it finds then. In a tree without links that is so for a pair that is not skipped if its load asks for no place that
was written to before; and its text is there at the end, if no later destination is at the same place. -/
theorem batch_compiles_from_start (htags : options.tags = .empty) (hm : options.middleware = none)
    (h : ((onTree options cwd).compileAll (before ++ p :: after) t).result = .ok report) :
    let c := onTree options cwd
    let here := (c.compileAll before t).tree
    ∃ earlier o later, (c.compileAll before t).result = .ok earlier ∧ (c.compileFile p here).result = .ok o ∧
      (c.compileAll after (c.compileFile p here).tree).result = .ok later ∧
      report = earlier.append ((c.account p o).append later) ∧ (c.Undisturbed t here p → c.Gives t p o) ∧
      (t.Plain → ∀ f, o = some f → (c.Clear t earlier p → c.Gives t p o) ∧
        (options.disableDest = false → (∀ e ∈ later.compiled, e.dest.place cwd ≠ f.dest.place cwd) →
          (c.compileAll (before ++ p :: after) t).tree.contentAt? (f.dest.place cwd) = some (.text f.json))) := by
  intro c here
  obtain ⟨earlier, rest, hearlier, hrest, htree, rfl⟩ := compileAll_append_ok h
  obtain ⟨o, later, ho, hlater, rfl⟩ := compileAll_cons_ok hrest
  refine ⟨earlier, o, later, hearlier, ho, hlater, rfl, fun hsame => hsame.gives htags hm ho, fun hplain f hf => ?_⟩
  subst hf
  have hkeeps := keepsBut_compileAll (c := onTree options cwd) hm hplain hearlier
  constructor
  · intro hclear
    have hskip : (onTree options cwd).shouldSkip here p.source = false := by
      obtain ⟨-, hnone, -⟩ | ⟨-, hskip, -⟩ := compileFile_ok (c := onTree options cwd) hm ho
      · exact nomatch hnone
      · exact hskip
    exact (hclear.undisturbed hplain hkeeps hskip).gives htags hm ho
  · intro hd hdistinct
    rw [htree]
    exact written_at_end (c := onTree options cwd) hm hd hkeeps.plain ho hlater hdistinct

section Instances

def rootOf (files : List (String × String)) : FileTree :=
  ⟨files.map fun (n, text) => (n.toList, .file (.text text) false)⟩

def ownPair (name : String) : FilePair := .forSource ⟨name⟩ none

theorem plain_rootOf {files : List (String × String)} (hnames : ∀ f ∈ files, Path.IsName f.1.toList)
    (hordered : files.Pairwise fun f g => f.1.toList < g.1.toList) (hcount : (rootOf files).root.linkCount = 0) :
    (rootOf files).Plain where
  wellFormed := by
    refine .directory ?_ (List.pairwise_map.mpr hordered) ?_
    · intro e he
      obtain ⟨f, hf, rfl⟩ := List.mem_map.mp he
      exact hnames f hf
    · intro e he
      obtain ⟨f, -, rfl⟩ := List.mem_map.mp he
      exact .file _ _
  linkFree := linkFree_of_linkCount hcount

theorem eq_ok_of_toOption {ε α : Type} {x : Except ε α} {a : α} (h : x.toOption = some a) : x = .ok a := by
  cases x with
  | error => exact nomatch h
  | ok => exact congrArg Except.ok (Option.some.inj h)

def fault? {ε α : Type} : Except ε α → Option ε
  | .error e => some e
  | .ok _ => none

theorem eq_error_of_fault? {ε α : Type} {x : Except ε α} {e : ε} (h : fault? x = some e) : x = .error e := by
  cases x with
  | error e' => exact congrArg Except.error (Option.some.inj h)
  | ok a => cases h

theorem eq_ok_some_of_json {x : Except CompileError (Option CompiledFile)} {s : String}
    (h : (x.toOption.bind id).map CompiledFile.json = some s) : ∃ f, x = .ok (some f) ∧ f.json = s := by
  obtain ⟨f, hf, hs⟩ := Option.map_eq_some_iff.mp h
  obtain ⟨o, ho, rfl⟩ := Option.bind_eq_some_iff.mp hf
  exact ⟨f, eq_ok_of_toOption ho, hs⟩

/-- A source that another one includes is compiled before it. -/
theorem included_source_compiles_from_start :
    let c := onTree .initial []
    let t := rootOf [("a.yml", "n: 1\n"), ("b.yml", "x: !include a\n"), ("c.yml", "m: 2\n")]
    t.Plain ∧ ∃ earlier f, (c.compileAll [ownPair "a.yml"] t).result = .ok earlier ∧
      c.Clear t earlier (ownPair "b.yml") ∧ c.Gives t (ownPair "b.yml") (some f) ∧
      f.json = "\x7b\n  \"x\": \x7b\n    \"n\": 1\n  \x7d\n\x7d" ∧
      (c.compileAll [ownPair "a.yml", ownPair "b.yml", ownPair "c.yml"] t).tree.contentAt? (f.dest.place []) =
        some (.text f.json) := by
  intro c t
  have ht : t.Plain := plain_rootOf (by decide) (by decide +kernel) rfl
  let entry (name : String) : CompiledEntry := ⟨⟨name ++ ".yml"⟩, ⟨name ++ ".json"⟩, 1, true⟩
  have hbatch : (c.compileAll ([ownPair "a.yml"] ++ ownPair "b.yml" :: [ownPair "c.yml"]) t).result =
      .ok ⟨[entry "a", entry "b", entry "c"], []⟩ := eq_ok_of_toOption (by decide +kernel)
  obtain ⟨earlier, o, later, hearlier, ho, hlater, hreport, -, hplain⟩ := batch_compiles_from_start rfl rfl hbatch
  obtain rfl : earlier = ⟨[entry "a"], []⟩ := by
    have heq : (c.compileAll [ownPair "a.yml"] t).result = .ok ⟨[entry "a"], []⟩ :=
      eq_ok_of_toOption (by decide +kernel)
    exact Except.ok.inj (hearlier.symm.trans heq)
  obtain ⟨f, hf, hjson⟩ : ∃ f, (c.compileFile (ownPair "b.yml") (c.compileAll [ownPair "a.yml"] t).tree).result =
      .ok (some f) ∧ f.json = "\x7b\n  \"x\": \x7b\n    \"n\": 1\n  \x7d\n\x7d" :=
    eq_ok_some_of_json (by decide +kernel)
  obtain rfl := Except.ok.inj (ho.symm.trans hf)
  obtain ⟨hgives, hwritten⟩ := hplain ht f rfl
  have hclear : c.Clear t ⟨[entry "a"], []⟩ (ownPair "b.yml") := by
    let visits : List Visit := [⟨⟨"/b.yml"⟩, "x: !include a\n"⟩, ⟨⟨"/a.yml"⟩, "n: 1\n"⟩]
    have hfirst : (ownPair "b.yml").source.absolutize c.cwd.path = ⟨"/b.yml"⟩ := by decide +kernel
    have hread : (c.loader t).source.read ⟨"/b.yml"⟩ = .ok "x: !include a\n" := by decide +kernel
    have hclosed : (c.loader t).isClosed visits = true := by decide +kernel
    refine Clear.of_isClosed hclosed (fun text htext => ?_) ?_
    · rw [hfirst] at htext ⊢
      obtain rfl := Except.ok.inj (hread.symm.trans htext)
      exact List.mem_cons_self
    · decide +kernel
  have hdest : f.dest = ⟨"b.json"⟩ ∧ later.compiled = [entry "c"] := by
    have hcompiled : [entry "a", entry "b", entry "c"] =
        entry "a" :: ((account c (ownPair "b.yml") (some f)).compiled ++ later.compiled) :=
      congrArg BatchReport.compiled hreport
    obtain ⟨hb, hc⟩ := List.cons.inj (List.cons.inj hcompiled).2
    exact ⟨(congrArg CompiledEntry.dest hb).symm, hc.symm⟩
  refine ⟨ht, _, f, hearlier, hclear, hgives hclear, hjson, hwritten rfl ?_⟩
  rw [hdest.1, hdest.2]
  decide +kernel

/-- The source of a pair is what the pair before it wrote, so the order of the two matters. -/
theorem batch_reads_its_output :
    let c := onTree .initial []
    let t := rootOf [("a.json", "k: 1\n"), ("a.yml", "k: 2\n")]
    let p := ownPair "a.yml"
    let q := ownPair "a.json"
    p.written.same q.written = false ∧ (∃ r, (c.compileAll [p, q] t).result = .ok r) ∧
      (∃ f f', (c.compileFile q (c.compileAll [p] t).tree).result = .ok (some f) ∧
        (c.compileFile q t).result = .ok (some f') ∧ f.json ≠ f'.json) ∧
      (c.compileAll [p, q] t).tree.contentAt? (q.written.place []) ≠
        (c.compileAll [q, p] t).tree.contentAt? (q.written.place []) := by
  intro c t p q
  obtain ⟨f, hf, hjson⟩ : ∃ f, (c.compileFile q (c.compileAll [p] t).tree).result = .ok (some f) ∧
      f.json = "\x7b\n  \"k\": 2\n\x7d" := eq_ok_some_of_json (by decide +kernel)
  obtain ⟨f', hf', hjson'⟩ : ∃ f', (c.compileFile q t).result = .ok (some f') ∧
      f'.json = "\x7b\n  \"k\": 1\n\x7d" := eq_ok_some_of_json (by decide +kernel)
  refine ⟨by decide +kernel, ?_, ⟨f, f', hf, hf', ?_⟩, by decide +kernel⟩
  · have hsome : (c.compileAll [p, q] t).result.toOption.isSome = true := by decide +kernel
    obtain ⟨r, hr⟩ := Option.isSome_iff_exists.mp hsome
    exact ⟨r, eq_ok_of_toOption hr⟩
  · rw [hjson, hjson']
    decide

end Instances

end Compiler

end YamlInclude
