import YamlInclude.Proofs.FileName
import YamlInclude.Proofs.Turns

/-! # What a compilation leaves alone

A file that is written ends up at the place of its destination, and no other file is changed but the one at the
temporary path of the destination, which goes away.
-/

namespace YamlInclude

namespace FileTree

open YamlInclude.Path

variable {t t' : FileTree} {cwd l : Location} {p : Path} {text : String}

theorem endsWithSlash_of_replace (h : (t.replace cwd p text).2 = .ok ()) : endsWithSlash p = false := by
  obtain ⟨_, _, _, -, -, hrename, -⟩ := replace_ok h
  obtain ⟨_, -, hrename⟩ := bind_ok hrename
  obtain ⟨_, -, hrename⟩ := bind_ok hrename
  split at hrename
  · exact nomatch hrename
  split at hrename
  · exact nomatch hrename
  split at hrename
  · exact nomatch hrename
  next hslash => exact (by simpa using hslash : _ ∧ _).2

/-- A path that leads somewhere leads there in each tree in which no directory is missing, once something is there. -/
theorem walk_mono {followLast followLast' : Bool} (hfree : t.LinkFree) (hfree' : t'.LinkFree)
    (hdir : ∀ l, t.node? l = some .directory → t'.node? l = some .directory) (hslash : endsWithSlash p = false)
    (h : t.walk followLast cwd p = .ok l) (hl : t'.node? l ≠ none) : t'.walk followLast' cwd p = .ok l := by
  obtain ⟨hp, h⟩ := walk_ok_iff.mp h
  obtain ⟨follow, hfollow⟩ := t.exists_walkFrom followLast maxLinks
  obtain ⟨follow', hfollow'⟩ := t'.exists_walkFrom followLast' maxLinks
  rw [hfollow] at h
  refine walk_ok_iff.mpr ⟨hp, ?_⟩
  rw [hfollow']
  exact walkFrom_mono hfree hfree' hdir (fun _ => getLast?_body_ne_nil hp.nonempty hslash) h hl

theorem contentAt?_eq_node (t : FileTree) (l : Location) : t.contentAt? l =
    match t.node? l with
    | some (.file c _) => some c
    | _ => none := by
  unfold contentAt? node?
  cases t.at? l with
  | none => rfl
  | some e => cases e <;> rfl

/-- A text that takes the place of a file is what its path leads to then. Nothing is at the temporary path any more,
and every other file is as before. -/
theorem replace_frame (h : t.Plain) (hreplace : (t.replace cwd p text).2 = .ok ()) :
    (t.replace cwd p text).1.contentOf? cwd p = some (.text text) ∧
      ∀ l, (t.replace cwd p text).1.contentAt? l =
        if l = p.place cwd then some (.text text)
        else if l = (temporary p).place cwd then none else t.contentAt? l := by
  have hslash := endsWithSlash_of_replace hreplace
  obtain ⟨t₁, t₂, t₃, hprepare, hwrite, hrename, heq⟩ := replace_ok hreplace
  have hprepared := keepsBut_prepare cwd h p
  rw [hprepare] at hprepared
  obtain ⟨⟨hplain, -, -⟩, htext⟩ := keepsBut_write hprepared.plain hwrite
  obtain ⟨hrenamed, -⟩ := keepsBut_rename hplain htext hrename
  obtain ⟨k, x, hk, -, -, hput⟩ := write_ok hprepared.plain.wellFormed hwrite
  obtain rfl := walk_ok hprepared.plain.linkFree hk
  obtain ⟨k, hk, -⟩ := bind_ok hrename
  obtain rfl := walk_ok hplain.linkFree hk
  have hfile : t₂.node? ((temporary p).place cwd) = some (.file (.text text) x) := by rw [hput, if_pos rfl]
  obtain ⟨m, hm, -, -, -, hmove⟩ := rename_ok hplain.wellFormed hk (by simp [hfile]) hrename
  obtain rfl := walk_ok hplain.linkFree hm
  have hdest : t₃.node? (p.place cwd) = some (.file (.text text) x) := by rw [hmove, if_pos rfl, hfile]
  rw [heq]
  refine ⟨contentOf?_eq_some_iff.mpr ⟨p.place cwd, x, find_ok_iff.mpr ⟨?_, node?_eq_file_iff.mp hdest⟩⟩, fun l => ?_⟩
  · exact walk_mono hplain.linkFree hrenamed.plain.linkFree hrenamed.directory hslash hm (by simp [hdest])
  · by_cases hl : l = p.place cwd
    · rw [if_pos hl, hl, contentAt?_eq_node, hdest]
    rw [if_neg hl, contentAt?_eq_node, hmove, if_neg hl]
    by_cases hl' : l = (temporary p).place cwd
    · rw [if_pos hl', if_pos hl']
    · rw [if_neg hl', if_neg hl', hput, if_neg hl', ← contentAt?_eq_node, hprepared.content l (by simp)]

end FileTree

namespace Compiler

open FileTree

variable {c : Compiler} {t : FileTree} {p : FilePair} {f : CompiledFile}

theorem emit_of_compileFile (h : (c.compileFile p t).result = .ok (some f)) :
    (c.emit t f).result = .ok f ∧ (c.compileFile p t).tree = (c.emit t f).tree := by
  obtain ⟨-, hnone, -⟩ | ⟨g, hg, -, hemit, htree⟩ := skips_or_finishes h
  · exact nomatch hnone
  · obtain rfl := Option.some.inj hg
    exact ⟨hemit, htree⟩

/-- A compilation that writes a file leaves its JSON text at the destination. Nothing is at the temporary path of the
destination then, and every other file is as before; so exactly where no file was at the temporary path nothing but the
destination changes. -/
theorem compileFile_frame (h : t.Plain) (hwrites : c.options.disableDest = false)
    (hf : (c.compileFile p t).result = .ok (some f)) :
    let dest := f.dest.place c.cwd
    let temp := (temporary f.dest).place c.cwd
    let after := (c.compileFile p t).tree
    after.contentOf? c.cwd f.dest = some (.text f.json) ∧ temp ≠ dest ∧
      (∀ l, after.contentAt? l =
        if l = dest then some (.text f.json) else if l = temp then none else t.contentAt? l) ∧
      ((∀ l ≠ dest, after.contentAt? l = t.contentAt? l) ↔ t.contentAt? temp = none) := by
  intro dest temp after
  obtain ⟨hemit, htree⟩ := emit_of_compileFile hf
  obtain ⟨hd, -⟩ | ⟨-, hreplace, hemitted⟩ := emit_ok hemit
  · exact nomatch hd.symm.trans hwrites
  have hafter : after = (t.replace c.cwd f.dest f.json).1 := htree.trans hemitted
  obtain ⟨htext, hframe⟩ := replace_frame h hreplace
  rw [← hafter] at htext hframe
  obtain ⟨htemp, hname⟩ := endsWithName_of_replace hreplace
  have hne : temp ≠ dest := temporary_place_ne c.cwd (exists_fileName? hname).choose_spec htemp
  refine ⟨htext, hne, hframe, fun hsame => ?_, fun hnone l hl => ?_⟩
  · rw [← hsame temp hne, hframe, if_neg hne, if_pos rfl]
  · rw [hframe, if_neg hl]
    split
    next heq => rw [heq, hnone]
    · rfl

theorem exists_compiled {x : Except CompileError (Option CompiledFile)} {dest : Path} {json : String}
    (h : (x.toOption.bind id).map (fun f => (f.dest, f.json)) = some (dest, json)) :
    ∃ f, x = .ok (some f) ∧ f.dest = dest ∧ f.json = json := by
  obtain ⟨f, hf, heq⟩ := Option.map_eq_some_iff.mp h
  obtain ⟨o, ho, rfl⟩ := Option.bind_eq_some_iff.mp hf
  obtain ⟨hdest, hjson⟩ := Prod.mk.inj heq
  exact ⟨f, eq_ok_of_toOption ho, hdest, hjson⟩

/-- The middleware sends the file to a directory that is not there yet. -/
theorem redirected_file_is_written :
    let redirect : Middleware := fun f => .ok { f with dest := ⟨"out/b"⟩ }
    let c := onTree { CompileOptions.initial with middleware := some redirect, space := 0 } []
    let t := rootOf [("a.yml", "k: 1\n"), ("b.json.tmp", "kept\n")]
    let after := (c.compileFile (ownPair "a.yml") t).tree
    t.Plain ∧ after.contentOf? c.cwd ⟨"out/b"⟩ = some (.text "\x7b\"k\":1\x7d") ∧
      ∀ l ≠ (Path.mk "out/b").place c.cwd, after.contentAt? l = t.contentAt? l := by
  intro redirect c t after
  have ht : t.Plain := plain_rootOf (by decide) (by decide +kernel) rfl
  obtain ⟨f, hf, hdest, hjson⟩ : ∃ f, (c.compileFile (ownPair "a.yml") t).result = .ok (some f) ∧
      f.dest = ⟨"out/b"⟩ ∧ f.json = "\x7b\"k\":1\x7d" := exists_compiled (by decide +kernel)
  obtain ⟨htext, -, -, hframe⟩ := compileFile_frame ht rfl hf
  rw [hdest, hjson] at htext
  rw [hdest] at hframe
  exact ⟨ht, htext, hframe.mpr (by decide +kernel)⟩

/-- A file that is at the temporary path of the destination goes away. -/
theorem file_at_temporary_path_goes_away :
    let c := onTree { CompileOptions.initial with space := 0 } []
    let t := rootOf [("a.json.tmp", "mine\n"), ("a.yml", "k: 1\n")]
    let after := (c.compileFile (ownPair "a.yml") t).tree
    t.Plain ∧ c.options.disableDest = false ∧
      ∃ f, (c.compileFile (ownPair "a.yml") t).result = .ok (some f) ∧
        ∃ l ≠ f.dest.place c.cwd, t.contentAt? l = some (.text "mine\n") ∧ after.contentAt? l = none := by
  intro c t after
  obtain ⟨f, hf, hdest, -⟩ : ∃ f, (c.compileFile (ownPair "a.yml") t).result = .ok (some f) ∧
      f.dest = ⟨"a.json"⟩ ∧ f.json = "\x7b\"k\":1\x7d" := exists_compiled (by decide +kernel)
  refine ⟨plain_rootOf (by decide) (by decide +kernel) rfl, rfl, f, hf, ["a.json.tmp".toList], ?_, ?_, ?_⟩
  · rw [hdest]
    decide +kernel
  · decide +kernel
  · decide +kernel

end Compiler

end YamlInclude
