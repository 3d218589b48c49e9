import YamlInclude.Proofs.Frame

/-! # Files in the course of a writing

While a text takes the place of a file, directories are made, an ever longer part of the text stands at the temporary
path, and at last the whole text is moved. These are the steps of the writing itself and what there is while one of them
is taken. The place of the file holds what it held before until that move, and the whole text after it.
-/

namespace YamlInclude

namespace FileTree

/-- How far the writing of a file has come: directories are made, a part of the text or the whole text stands at the
temporary path, the text has taken the place of the file. -/
inductive Phase where
  | preparing
  | writing
  | written
  | renamed
  deriving DecidableEq

namespace Phase

/-- The places whose contents have changed by then. -/
def places (cwd : Location) (p : Path) : Phase → List Location
  | preparing => []
  | writing => [(temporary p).place cwd]
  | written => [(temporary p).place cwd]
  | renamed => [(temporary p).place cwd, p.place cwd]

/-- The place where the whole text is then. -/
def complete? (cwd : Location) (p : Path) : Phase → Option Location
  | preparing => none
  | writing => none
  | written => some ((temporary p).place cwd)
  | renamed => some (p.place cwd)

def before : WriteStep → Phase
  | .prepare => preparing
  | .writeTemporary => preparing
  | .rename => written

def after : WriteStep → Phase
  | .prepare => preparing
  | .writeTemporary => written
  | .rename => renamed

end Phase

/-- The trees that there are in the course of the writing of a file, with the phase of each: those between its steps,
those while directories are made, and those while the text is written. The writing may stop in any of them. -/
inductive InCourse (t : FileTree) (cwd : Location) (p : Path) (text : String) : Phase → FileTree → Prop
  | start : InCourse t cwd p text .preparing t
  | makeDirectory {t₁ t₂ : FileTree} {dir : Path} (before : InCourse t cwd p text .preparing t₁)
      (step : t₁.makeDirectory cwd dir = .ok t₂) : InCourse t cwd p text .preparing t₂
  | writePart {t₁ t₂ : FileTree} {bytes : List UInt8} (before : InCourse t cwd p text .preparing t₁)
      (part : bytes <+: Utf8.encode text.toList)
      (step : t₁.writeContent cwd (temporary p) (.ofBytes bytes) = .ok t₂) : InCourse t cwd p text .writing t₂
  | step {t₁ t₂ : FileTree} {s : WriteStep} (before : InCourse t cwd p text (.before s) t₁)
      (step : t₁.writeStep cwd p text s = (t₂, .ok ())) : InCourse t cwd p text (.after s) t₂

variable {t t' : FileTree} {cwd : Location} {p : Path} {n : Name} {text : String} {phase : Phase}

/-- Nothing but the places of its phase has changed in a tree, and the text is complete where it has to be. -/
theorem InCourse.keepsBut (h : t.Plain) (hcourse : InCourse t cwd p text phase t') :
    KeepsBut (phase.places cwd p) t t' ∧ ∀ l ∈ phase.complete? cwd p, t'.contentAt? l = some (.text text) := by
  induction hcourse with
  | start => exact ⟨.refl h, nofun⟩
  | makeDirectory _ step ih =>
    obtain ⟨hkeeps, -⟩ := ih
    exact ⟨hkeeps.trans (keepsBut_makeDirectory hkeeps.plain step), nofun⟩
  | writePart _ _ step ih =>
    obtain ⟨hkeeps, -⟩ := ih
    exact ⟨hkeeps.trans (keepsBut_writeContent hkeeps.plain step).1, nofun⟩
  | @step t₁ t₂ s _ step ih =>
    obtain ⟨hkeeps, htext⟩ := ih
    cases s with
    | prepare =>
      have hprepared := keepsBut_prepare cwd hkeeps.plain p
      rw [show t₁.prepare cwd p = (t₂, .ok ()) from step] at hprepared
      exact ⟨hkeeps.trans hprepared, nofun⟩
    | writeTemporary =>
      obtain ⟨hwritten, htext⟩ := keepsBut_write hkeeps.plain (attempt_eq_ok_iff.mp step)
      constructor
      · exact hkeeps.trans hwritten
      · rintro l ⟨⟩
        exact htext
    | rename =>
      obtain ⟨hrenamed, hmoved⟩ := keepsBut_rename hkeeps.plain (htext _ rfl) (attempt_eq_ok_iff.mp step)
      constructor
      · exact (hkeeps.trans hrenamed).mono (by simp [Phase.places, Phase.before, Phase.after])
      · rintro l ⟨⟩
        exact hmoved

/-- Where the temporary path does not end with a name, the writing does not get beyond the directories. -/
theorem InCourse.endsWithName (hcourse : InCourse t cwd p text phase t') (hphase : phase ≠ .preparing) :
    endsWithName (temporary p) = true := by
  cases hcourse with
  | start => exact absurd rfl hphase
  | makeDirectory => exact absurd rfl hphase
  | writePart _ _ step => exact endsWithName_of_writeContent step
  | @step t₁ t₂ s _ step =>
    cases s with
    | prepare => exact absurd rfl hphase
    | writeTemporary =>
      have hwrite := attempt_eq_ok_iff.mp step
      rw [write_eq_writeContent] at hwrite
      exact endsWithName_of_writeContent hwrite
    | rename => exact (endsWithName_of_rename (attempt_eq_ok_iff.mp step)).1

/-- Before the text is moved the place of the file is none of those that have changed. -/
theorem InCourse.place_not_mem (hname : p.fileName? = some n) (hcourse : InCourse t cwd p text phase t')
    (hphase : phase ≠ .renamed) : p.place cwd ∉ phase.places cwd p := by
  by_cases hpreparing : phase = .preparing
  · rw [hpreparing]
    exact nofun
  have hne := temporary_place_ne cwd hname (hcourse.endsWithName hpreparing)
  cases phase with
  | preparing => exact absurd rfl hpreparing
  | writing => simpa [Phase.places] using hne.symm
  | written => simpa [Phase.places] using hne.symm
  | renamed => exact absurd rfl hphase

theorem InCourse.stopped {t₁ t₂ : FileTree} {s : WriteStep} {e : CompileError}
    (hcourse : InCourse t cwd p text (.before s) t₁) (hstop : t₁.writeStep cwd p text s = (t₂, .error e)) :
    InCourse t cwd p text (.before s) t₂ := by
  cases s with
  | prepare =>
    have hprepare := prepare_invariant (P := InCourse t cwd p text .preparing) InCourse.makeDirectory hcourse p
    rwa [show t₁.prepare cwd p = (t₂, .error e) from hstop] at hprepare
  | writeTemporary =>
    obtain ⟨rfl, -⟩ := attempt_eq_error_iff.mp hstop
    exact hcourse
  | rename =>
    obtain ⟨rfl, -⟩ := attempt_eq_error_iff.mp hstop
    exact hcourse

/-- Whether steps lead from one phase to another, each from where the one before it ends. -/
inductive Phase.Leads : Phase → List WriteStep → Phase → Prop
  | done (phase : Phase) : Leads phase [] phase
  | step {s : WriteStep} {rest : List WriteStep} {last : Phase} (h : Leads (.after s) rest last) :
      Leads (.before s) (s :: rest) last

/-- Steps in the course of a writing stay in it, and come to their end unless one of them is stopped. -/
theorem inCourse_writeSteps {steps : List WriteStep} {last : Phase} (hleads : phase.Leads steps last)
    (hcourse : InCourse t cwd p text phase t') :
    (writeSteps cwd p text steps t').2 = .ok () ∧ InCourse t cwd p text last (writeSteps cwd p text steps t').1 ∨
      ∃ s e, (writeSteps cwd p text steps t').2 = .error e ∧
        InCourse t cwd p text (.before s) (writeSteps cwd p text steps t').1 := by
  induction hleads generalizing t' with
  | done => exact Or.inl ⟨rfl, hcourse⟩
  | @step s rest last _ ih =>
    rcases t'.writeSteps_cons cwd p text s rest with ⟨t₁, e, hstop, heq⟩ | ⟨t₁, hstep, heq⟩
    · rw [heq]
      exact Or.inr ⟨s, e, rfl, hcourse.stopped hstop⟩
    · rw [heq]
      exact ih (hcourse.step hstep)

/-- Wherever the writing of a file stops, the tree is one of its course, and the text has taken the place of the file
exactly if nothing stopped it. -/
theorem inCourse_replace (t : FileTree) (cwd : Location) (p : Path) (text : String) :
    ∃ phase, InCourse t cwd p text phase (t.replace cwd p text).1 ∧
      (phase = .renamed ↔ (t.replace cwd p text).2 = .ok ()) := by
  have hleads : Phase.Leads .preparing [.prepare, .writeTemporary, .rename] .renamed :=
    .step (s := .prepare) (.step (s := .writeTemporary) (.step (s := .rename) (.done _)))
  have hstart : InCourse t cwd p text .preparing t := .start
  rcases inCourse_writeSteps hleads hstart with ⟨hok, hcourse⟩ | ⟨s, e, herror, hcourse⟩
  · exact ⟨.renamed, hcourse, iff_of_true rfl hok⟩
  · refine ⟨.before s, hcourse, iff_of_false ?_ ?_⟩
    · cases s <;> decide
    · intro hok
      exact nomatch herror.symm.trans hok

theorem temporary_same_ne (h : p.fileName? = some n) : (temporary p).same p = false := by
  by_contra hsame
  rw [Bool.not_eq_false] at hsame
  have hcomponents : (temporary p).components = p.components := beq_iff_eq.mp hsame
  refine fileName?_temporary_ne h ?_
  rw [← h, Path.fileName?, Path.fileName?, hcomponents]

/-- In the course of a writing the place of the file holds what it held before until the text has taken its place, and
the whole text from then on. The temporary path is never that of the file. -/
theorem destination_never_torn (cwd : Location) (text : String) (h : t.Plain) (hname : p.fileName? = some n) :
    (temporary p).same p = false ∧
    (∀ phase t', InCourse t cwd p text phase t' →
      t'.contentAt? (p.place cwd) = if phase = .renamed then some (.text text) else t.contentAt? (p.place cwd)) ∧
    ∃ phase, InCourse t cwd p text phase (t.replace cwd p text).1 ∧
      (phase = .renamed ↔ (t.replace cwd p text).2 = .ok ()) := by
  refine ⟨temporary_same_ne hname, fun phase t' hcourse => ?_, inCourse_replace t cwd p text⟩
  obtain ⟨hkeeps, htext⟩ := hcourse.keepsBut h
  split
  next hphase =>
    subst hphase
    exact htext _ rfl
  next hphase => exact hkeeps.content _ (hcourse.place_not_mem hname hphase)

/-- The destination has the extension of temporary files itself, and the text stops in the middle of a word. -/
theorem part_of_text_is_beside_destination :
    let t := Compiler.rootOf [("a.json.tmp", "old\n")]
    let p : Path := ⟨"a.json.tmp"⟩
    let text := "\x7b\"word\":1\x7d"
    t.Plain ∧ p.fileName? = some "a.json.tmp".toList ∧ (temporary p).same p = false ∧
      (∃ t', InCourse t [] p text .writing t' ∧
        t'.contentAt? ((temporary p).place []) = some (.text "\x7b\"wo") ∧
        t'.contentAt? (p.place []) = some (.text "old\n")) ∧
      (t.replace [] p text).1.contentAt? (p.place []) = some (.text text) := by
  intro t p text
  have ht : t.Plain := Compiler.plain_rootOf (by decide) (by decide +kernel) rfl
  have hname : p.fileName? = some "a.json.tmp".toList := by decide +kernel
  obtain ⟨hne, huntorn, phase, hcourse, hphase⟩ := destination_never_torn [] text ht hname
  let bytes : List UInt8 := [123, 34, 119, 111]
  have hsome : (t.writeContent [] (temporary p) (.ofBytes bytes)).toOption.isSome = true := by decide +kernel
  obtain ⟨t', ht'⟩ := Option.isSome_iff_exists.mp hsome
  have ht' := Compiler.eq_ok_of_toOption ht'
  have hpart : InCourse t [] p text .writing t' := .writePart .start (by decide +kernel) ht'
  have hbytes : Content.ofBytes bytes = .text "\x7b\"wo" := by decide +kernel
  obtain ⟨-, hbeside⟩ := keepsBut_writeContent ht ht'
  have hold : t.contentAt? (p.place []) = some (.text "old\n") := by decide +kernel
  have hdone : (t.replace [] p text).2 = .ok () := Compiler.eq_ok_of_toOption (by decide +kernel)
  refine ⟨ht, hname, hne, ⟨t', hpart, hbytes ▸ hbeside, (huntorn _ _ hpart).trans hold⟩, ?_⟩
  rw [huntorn _ _ hcourse, if_pos (hphase.mpr hdone)]

end FileTree

end YamlInclude
