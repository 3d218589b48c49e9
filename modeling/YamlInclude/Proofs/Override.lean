import YamlInclude.Command.Report
import YamlInclude.Proofs.Turns

/-! # Flags over settings

A flag of a command goes before what the settings say, so settings that differ only there make no difference. The
ignore pattern of the settings is read in any case, and what is wrong with it stops the command.
-/

namespace YamlInclude

theorem bind_error_iff {ε α β : Type} {x : Except ε α} {f : α → Except ε β} {e : ε} :
    (x >>= f) = .error e ↔ x = .error e ∨ ∃ a, x = .ok a ∧ f a = .error e := by
  cases x <;> simp [bind, Except.bind]

/-- Whether settings differ at most in what arguments go before. -/
structure CompileArgs.Overrides (a : CompileArgs) (s s' : Settings) : Prop where
  space : a.space = none → s.space = s'.space
  ignored : a.ignored = none → s.ignored = s'.ignored
  outDir : a.outDir = none → s.outDir = s'.outDir
  rootDir : a.load.rootDir = none → s.rootDir = s'.rootDir
  strictAnchors : a.load.lenientAnchors = false → s.strictAnchors = s'.strictAnchors
  disableDest : a.noWrite = false → s.disableDest = s'.disableDest
  commands : s.commands = s'.commands

namespace Settings

variable {s s' : Settings} {make : String → List String → FileTree → TagConstructor} {f : SettingsFault}

theorem ignoredPattern_error (h : s.ignoredPattern = .error f) :
    ∃ text fault, s.ignored = some text ∧ f = .invalidPattern text fault := by
  unfold ignoredPattern at h
  split at h
  · cases h
  next text hignored =>
    split at h
    · cases h
    next fault _ => exact ⟨text, fault, hignored, (Except.error.inj h).symm⟩

/-- Settings have no options if a command cannot be registered, or else if the ignore pattern is none. -/
theorem options_error_iff : s.options make = .error f ↔
    s.registry make = .error f ∨ ∃ tags, s.registry make = .ok tags ∧ s.ignoredPattern = .error f := by
  unfold options
  simp only [bind_error_iff, pure, Except.pure, reduceCtorEq, and_false, exists_false, or_false]

theorem options_ok {o : CompileOptions} (h : s.options make = .ok o) : ∃ tags p, s.registry make = .ok tags ∧
    s.ignoredPattern = .ok p ∧ o = ⟨tags, p, s.indent, none, s.writesNothing, s.isStrict, s.rootDir⟩ := by
  obtain ⟨tags, htags, h⟩ := bind_ok h
  obtain ⟨p, hp, h⟩ := bind_ok h
  exact ⟨tags, p, htags, hp, (Except.ok.inj h).symm⟩

/-- Whether the commands of settings cannot be registered, or the ignore patterns of two settings are equal or both
valid. -/
def PatternsAlike (make : String → List String → FileTree → TagConstructor) (s s' : Settings) : Prop :=
  (∃ f, s.registry make = .error f) ∨ s.ignored = s'.ignored ∨
    (∃ p, s.ignoredPattern = .ok p) ∧ ∃ p, s'.ignoredPattern = .ok p

theorem options_error_alike_iff (hcommands : s.commands = s'.commands) :
    (∀ f, s.options make = .error f ↔ s'.options make = .error f) ↔ PatternsAlike make s s' := by
  have hregistry : s'.registry make = s.registry make := by rw [registry, registry, hcommands]
  simp only [options_error_iff, hregistry, PatternsAlike]
  cases s.registry make with
  | error f => simp
  | ok tags =>
    simp only [reduceCtorEq, false_or, exists_false, Except.ok.injEq, exists_eq_left']
    constructor
    · intro h
      cases hs : s.ignoredPattern with
      | error f =>
        obtain ⟨text, fault, hignored, rfl⟩ := ignoredPattern_error hs
        obtain ⟨text', fault', hignored', heq⟩ := ignoredPattern_error ((h _).mp hs)
        obtain ⟨rfl, -⟩ := SettingsFault.invalidPattern.inj heq
        exact Or.inl (hignored.trans hignored'.symm)
      | ok p =>
        cases hs' : s'.ignoredPattern with
        | error f => exact nomatch hs.symm.trans ((h f).mpr hs')
        | ok p' => exact Or.inr ⟨⟨p, rfl⟩, p', rfl⟩
    · rintro (heq | ⟨⟨p, hp⟩, p', hp'⟩) f
      · rw [ignoredPattern, ignoredPattern, heq]
      · simp [hp, hp']

end Settings

namespace Command

variable {s s' : Settings} {a : CompileArgs} {cwd : Location} {t : FileTree} {f : SettingsFault}

def tagPrograms (cwd : Location) : String → List String → FileTree → TagConstructor :=
  fun program args t => TagProgram.construct ⟨⟨program⟩, args⟩ t cwd

def compileOptions (s : Settings) (cwd : Location) (a : CompileArgs) : Except CommandError CompileOptions :=
  (optionsFor s cwd a.load a.ignored).map fun o =>
    { o with
      space := a.space.getD o.space
      disableDest := a.noWrite || o.disableDest }

theorem runCompile_eq (s : Settings) (cwd : Location) (a : CompileArgs) (t : FileTree) :
    runCompile s cwd a t = match compileOptions s cwd a with
      | .error e => ⟨t, [], .error e⟩
      | .ok o =>
        let pairs := t.collectPairs cwd (a.outDir <|> s.outDir) a.sources
        let r := compilePairs o cwd pairs t
        { r with events := collectedEvents pairs ++ r.events } := by
  unfold runCompile compileOptions
  cases optionsFor s cwd a.load a.ignored <;> rfl

/-- The pattern of file names to skip: that of a flag goes before that of the settings. -/
def chosenPattern (ignored : Option String) (p : Option Pattern) : Except CommandError (Option Pattern) :=
  match ignored with
  | none => .ok p
  | some text => ((Pattern.parse text).map some).mapError (.ignoredPattern text)

theorem optionsFor_eq (s : Settings) (cwd : Location) (flags : LoadFlags) (ignored : Option String) :
    optionsFor s cwd flags ignored = do
      let o ← (s.options (tagPrograms cwd)).mapError .settings
      let pattern ← chosenPattern ignored o.ignored
      return { o with
        ignored := pattern
        strictAnchors := o.strictAnchors && !flags.lenientAnchors
        rootDir := flags.rootDir <|> o.rootDir } := by
  unfold optionsFor tagPrograms
  cases s.options fun program args t => TagProgram.construct ⟨⟨program⟩, args⟩ t cwd with
  | error f => rfl
  | ok o => cases ignored <;> rfl

theorem optionsFor_settings_error_iff (flags : LoadFlags) (ignored : Option String) :
    optionsFor s cwd flags ignored = .error (.settings f) ↔ s.options (tagPrograms cwd) = .error f := by
  rw [optionsFor_eq]
  cases s.options (tagPrograms cwd) with
  | error f' => simp [Except.mapError, bind, Except.bind]
  | ok o =>
    simp only [Except.mapError, bind, Except.bind, pure, Except.pure, reduceCtorEq, iff_false]
    cases ignored with
    | none => simp [chosenPattern]
    | some text => cases hp : Pattern.parse text <;> simp [chosenPattern, hp, Except.map, Except.mapError]

theorem runCompile_settings_error_iff : (runCompile s cwd a t).result = .error (.settings f) ↔
    s.options (tagPrograms cwd) = .error f := by
  rw [← optionsFor_settings_error_iff a.load a.ignored, runCompile_eq, compileOptions]
  cases optionsFor s cwd a.load a.ignored with
  | error e => simp [Except.map]
  | ok o =>
    simp only [Except.map, compilePairs, reduceCtorEq, iff_false]
    intro h
    split at h
    · cases h
    next pairs _ =>
      dsimp only at h
      generalize ((Compiler.onTree _ cwd).compileAll pairs t).result = r at h
      cases r <;> cases h

theorem compileOptions_eq (h : a.Overrides s s') {o o' : CompileOptions} (ho : s.options (tagPrograms cwd) = .ok o)
    (ho' : s'.options (tagPrograms cwd) = .ok o') : compileOptions s cwd a = compileOptions s' cwd a := by
  obtain ⟨tags, p, htags, hp, rfl⟩ := Settings.options_ok ho
  obtain ⟨tags', p', htags', hp', rfl⟩ := Settings.options_ok ho'
  obtain rfl : tags = tags' := by
    rw [Settings.registry, h.commands] at htags
    exact Except.ok.inj (htags.symm.trans htags')
  have hpattern : chosenPattern a.ignored p = chosenPattern a.ignored p' := by
    cases hi : a.ignored with
    | none =>
      rw [Settings.ignoredPattern, h.ignored hi] at hp
      rw [Except.ok.inj (hp.symm.trans hp')]
    | some text => rfl
  have hspace : a.space.getD s.indent = a.space.getD s'.indent := by
    cases ha : a.space with
    | none => rw [Settings.indent, Settings.indent, h.space ha]
    | some n => rfl
  have hroot : (a.load.rootDir <|> s.rootDir) = (a.load.rootDir <|> s'.rootDir) := by
    cases ha : a.load.rootDir with
    | none => rw [h.rootDir ha]
    | some dir => rfl
  have hstrict : (s.isStrict && !a.load.lenientAnchors) = (s'.isStrict && !a.load.lenientAnchors) := by
    cases ha : a.load.lenientAnchors with
    | false => rw [Settings.isStrict, Settings.isStrict, h.strictAnchors ha]
    | true => simp
  have hdest : (a.noWrite || s.writesNothing) = (a.noWrite || s'.writesNothing) := by
    cases ha : a.noWrite with
    | false => rw [Settings.writesNothing, Settings.writesNothing, h.disableDest ha]
    | true => rfl
  rw [compileOptions, compileOptions, optionsFor_eq, optionsFor_eq, ho, ho']
  simp only [Except.mapError, bind, Except.bind, pure, Except.pure, hpattern, hroot, hstrict]
  cases chosenPattern a.ignored p' with
  | error e => rfl
  | ok pattern => simp only [Except.map, hspace, hdest]

theorem runCompile_of_alike (h : a.Overrides s s')
    (hf : ∀ f, s.options (tagPrograms cwd) = .error f ↔ s'.options (tagPrograms cwd) = .error f) :
    runCompile s cwd a t = runCompile s' cwd a t := by
  have hout : (a.outDir <|> s.outDir) = (a.outDir <|> s'.outDir) := by
    cases ha : a.outDir with
    | none => rw [h.outDir ha]
    | some dir => rfl
  have hoptions : compileOptions s cwd a = compileOptions s' cwd a := by
    cases ho : s.options (tagPrograms cwd) with
    | error f =>
      rw [compileOptions, compileOptions, (optionsFor_settings_error_iff _ _).mpr ho,
        (optionsFor_settings_error_iff _ _).mpr ((hf f).mp ho)]
    | ok o =>
      cases ho' : s'.options (tagPrograms cwd) with
      | error f => exact nomatch ho.symm.trans ((hf f).mpr ho')
      | ok o' => exact compileOptions_eq h ho ho'
  rw [runCompile_eq, runCompile_eq, hoptions, hout]

/-- Settings that differ only in what the arguments go before make no difference to a compilation exactly if their
ignore patterns are alike: with two valid patterns, or where the commands of the settings are refused before the
patterns are read. -/
theorem overridden_settings_masked_iff (h : a.Overrides s s') (cwd : Location) (t : FileTree) :
    (runCompile s cwd a t = runCompile s' cwd a t ↔ Settings.PatternsAlike (tagPrograms cwd) s s') ∧
      ∀ style, run s cwd style (.compile a) t = run s' cwd style (.compile a) t ↔
        Settings.PatternsAlike (tagPrograms cwd) s s' := by
  have halike : (∀ f, s.options (tagPrograms cwd) = .error f ↔ s'.options (tagPrograms cwd) = .error f) ↔
      Settings.PatternsAlike (tagPrograms cwd) s s' := Settings.options_error_alike_iff h.commands
  have hrun (hp : Settings.PatternsAlike (tagPrograms cwd) s s') : runCompile s cwd a t = runCompile s' cwd a t :=
    runCompile_of_alike h (halike.mpr hp)
  refine ⟨⟨fun heq => halike.mp fun f => ?_, hrun⟩, fun style => ⟨fun heq => halike.mp fun f => ?_, fun hp => ?_⟩⟩
  · rw [← runCompile_settings_error_iff (a := a) (t := t), heq, runCompile_settings_error_iff]
  · have hresult := congrArg CommandOutcome.result heq
    rw [← runCompile_settings_error_iff (a := a) (t := t), ← runCompile_settings_error_iff (a := a) (t := t)]
    dsimp only [run] at hresult
    cases hr : (runCompile s cwd a t).result <;> cases hr' : (runCompile s' cwd a t).result <;>
      simp_all [Except.map]
  · dsimp only [run]
    rw [hrun hp]

/-- All that the settings say of a compilation, under flags for all of it. -/
theorem overridden_settings_are_masked :
    let a : CompileArgs := ⟨[⟨"a.yml"⟩], some ⟨"out"⟩, some 0, some "^_", true, ⟨true, some ⟨"/"⟩⟩⟩
    let s : Settings := ⟨some 4, some "^a", some false, some true, some ⟨"json"⟩, some ⟨"d"⟩, []⟩
    let t := Compiler.rootOf [("a.yml", "k: 1\n")]
    s.ignored ≠ Settings.empty.ignored ∧ runCompile s [] a t = runCompile .empty [] a t := by
  intro a s t
  have h : a.Overrides s .empty := ⟨nofun, nofun, nofun, nofun, nofun, nofun, rfl⟩
  have hs : ∃ p, s.ignoredPattern = .ok p := ⟨_, rfl⟩
  exact ⟨by decide, (overridden_settings_masked_iff h [] t).1.mpr (Or.inr (Or.inr ⟨hs, none, rfl⟩))⟩

/-- An ignore pattern that is none stops a compilation, though a flag goes before it. -/
theorem invalid_pattern_is_not_masked :
    let a : CompileArgs := ⟨[⟨"a.yml"⟩], none, none, some "^_", false, ⟨false, none⟩⟩
    let s : Settings := { Settings.empty with ignored := some "(" }
    let t := Compiler.rootOf [("a.yml", "k: 1\n")]
    a.Overrides s .empty ∧ (∃ r, (runCompile .empty [] a t).result = .ok r) ∧
      ∃ e, (runCompile s [] a t).result = .error e := by
  intro a s t
  refine ⟨⟨fun _ => rfl, nofun, fun _ => rfl, fun _ => rfl, fun _ => rfl, fun _ => rfl, rfl⟩, ?_, ?_⟩
  · have hsome : (runCompile .empty [] a t).result.toOption.isSome = true := by decide +kernel
    obtain ⟨r, hr⟩ := Option.isSome_iff_exists.mp hsome
    exact ⟨r, Compiler.eq_ok_of_toOption hr⟩
  · have hnone : (runCompile s [] a t).result.toOption.isSome = false := by decide +kernel
    cases hr : (runCompile s [] a t).result with
    | error e => exact ⟨e, rfl⟩
    | ok r =>
      rw [hr] at hnone
      cases hnone

end Command

end YamlInclude
