import YamlInclude.Proofs.Chain
import YamlInclude.Proofs.Equality

/-! # Loads in context

The files around a text and the bound on levels can only make its load fail: with fewer files around it
and more levels its load has the same result, unless the chain or the bound was the reason of a failure.
Under one bound only the chain can be.
-/

namespace YamlInclude

open Yaml Traced

namespace LoadError

/-- Whether an error comes from where a text is loaded and not from the text. -/
def isOfContext : LoadError → Bool
  | .cyclicInclude _ | .nestedTooDeep _ => true
  | _ => false

def isOfChain : LoadError → Bool
  | .cyclicInclude _ => true
  | _ => false

theorem isOfChain_iff {e : LoadError} : e.isOfChain = true ↔ ∃ chain, e = .cyclicInclude chain := by
  cases e <;> simp [isOfChain]

end LoadError

/-- Whether the second load has the result of the first one, unless that is an excused failure. -/
def Follows (excused : LoadError → Bool) {α : Type} (x y : Traced α) : Prop :=
  y.result = x.result ∨ ∃ e, x.result = .error e ∧ excused e = true

section Follows

variable {excused : LoadError → Bool} {α β : Type} {x y : Traced α}

theorem Follows.bind {f g : α → Traced β} (h : Follows excused x y)
    (hf : ∀ a, Follows excused (f a) (g a)) : Follows excused (x >>= f) (y >>= g) := by
  obtain h | ⟨e, he, hc⟩ := h
  · cases hx : x.result with
    | error e =>
      rw [hx] at h
      exact Or.inl (by rw [bind_of_error hx, bind_of_error h])
    | ok a =>
      rw [hx] at h
      simp only [Follows, bind_of_ok hx, bind_of_ok h]
      exact hf a
  · exact Or.inr ⟨e, by rw [bind_of_error he], hc⟩

theorem follows_congruence (excused : LoadError → Bool) : Congruence (Follows excused) where
  pure _ := Or.inl rfl
  fail _ _ := Or.inl rfl
  note _ _ := Or.inl rfl
  bind := Follows.bind

theorem Follows.eq_of_ok {a : α} (h : Follows excused x y) (hx : x.result = .ok a) :
    y.result = .ok a := by
  obtain h | ⟨e, he, -⟩ := h
  · rw [h, hx]
  · rw [hx] at he
    cases he

theorem Follows.eq_of_error {e : LoadError} (h : Follows excused x y) (hx : x.result = .error e)
    (he : excused e = false) : y.result = .error e := by
  obtain h | ⟨e', he', hexcused⟩ := h
  · rw [h, hx]
  · obtain rfl := Except.error.inj (hx.symm.trans he')
    rw [he] at hexcused
    cases hexcused

end Follows

namespace LoadState

variable {s s₁ s₂ inner₁ inner₂ : LoadState} {p : Path}

/-- A state at the same file with no other files around it. -/
structure Within (s₁ s₂ : LoadState) : Prop where
  file : s₂.file = s₁.file
  chain : ∀ q ∈ s₁.chain, s₂.chain.any (·.same q) = true

theorem Within.any (h : Within s₁ s₂) (hp : s₁.chain.any (·.same p) = true) :
    s₂.chain.any (·.same p) = true := by
  obtain ⟨q, hq, hqp⟩ := List.any_eq_true.mp hp
  obtain ⟨r, hr, hrq⟩ := List.any_eq_true.mp (h.chain q hq)
  exact List.any_eq_true.mpr ⟨r, hr, by rw [Path.same_congr_left hrq]; exact hqp⟩

theorem within_root (s : LoadState) (p : Path) : Within (.root p) ⟨s.chain, p⟩ := by
  refine ⟨rfl, fun q hq => ?_⟩
  obtain rfl : q = p := by simpa [LoadState.root, chain] using hq
  simp [chain_entered]

theorem Within.enter (h : Within s₁ s₂) (h₂ : s₂.enter p = .ok inner₂) :
    ∃ inner₁, s₁.enter p = .ok inner₁ ∧ Within inner₁ inner₂ := by
  obtain ⟨hnew, rfl⟩ := enter_ok_iff.mp h₂
  have hnew₁ : s₁.chain.any (·.same p) = false := by
    cases hp : s₁.chain.any (·.same p) with
    | false => rfl
    | true => rw [h.any hp] at hnew; cases hnew
  refine ⟨⟨s₁.chain, p⟩, enter_ok_iff.mpr ⟨hnew₁, rfl⟩, rfl, fun q hq => ?_⟩
  rw [chain_entered, List.any_append]
  rcases List.mem_append.mp hq with hq | hq
  · rw [h.chain q hq, Bool.true_or]
  · obtain rfl := List.mem_singleton.mp hq
    simp

end LoadState

namespace Loader

open LoadState

variable {l : Loader} {s₁ s₂ : LoadState} {n m : Nat} {excused : LoadError → Bool}

theorem follow_follows {load₁ load₂ : LoadText} (hcyclic : ∀ chain, excused (.cyclicInclude chain) = true)
    (hs : Within s₁ s₂)
    (h : ∀ text inner₁ inner₂, Within inner₁ inner₂ →
      Follows excused (load₂ text inner₂) (load₁ text inner₁))
    (raw : String) : Follows excused (l.follow load₂ raw s₂) (l.follow load₁ raw s₁) := by
  rw [follow_eq, follow_eq, hs.file]
  generalize l.target raw s₁.file = p
  cases h₂ : s₂.enter p with
  | error e =>
    obtain ⟨-, rfl⟩ := enter_error_iff.mp h₂
    exact Or.inr ⟨_, rfl, hcyclic _⟩
  | ok inner₂ =>
    obtain ⟨inner₁, h₁, hinner⟩ := hs.enter h₂
    simp only [h₁, ofExcept_ok, pure_bind]
    refine Follows.bind (Or.inl rfl) fun _ => Follows.bind (Or.inl rfl) fun text => ?_
    cases (Reference.parse raw).anchor with
    | none => exact single_congr (follows_congruence _) hinner.file (h text _ _ hinner)
    | some a => exact anchored_congr (follows_congruence _) hinner.file rfl (h _ _ _ hinner)

/-- A load follows one with more files around its text and no more levels below it, if failures by the
chain are excused, and failures by the bound too where the bounds differ. -/
theorem loadWithin_follows_of_excused (hcyclic : ∀ chain, excused (.cyclicInclude chain) = true)
    (hdeep : n < m → ∀ p, excused (.nestedTooDeep p) = true) (hl : l.tags = .empty)
    (hs : Within s₁ s₂) (hnm : n ≤ m) (text : String) :
    Follows excused (l.loadWithin n text s₂) (l.loadWithin m text s₁) := by
  induction n generalizing m s₁ s₂ text with
  | zero =>
    cases m with
    | zero => exact Or.inl (by rw [loadWithin, loadWithin, hs.file])
    | succ m => exact Or.inr ⟨_, rfl, hdeep (Nat.succ_pos m) _⟩
  | succ n ih =>
    obtain ⟨m, rfl⟩ : ∃ k, m = k + 1 := ⟨m - 1, by omega⟩
    have hdeep (hlt : n < m) := hdeep (Nat.succ_lt_succ hlt)
    refine Follows.bind (Or.inl rfl) fun _ => loadEach_congr (follows_congruence _) _ fun d _ => ?_
    refine loadDocument_congr (follows_congruence _) hs.file d fun v _ t u _ r₁ r₂ _ => ?_
    cases hu : includeText? t u with
    | none =>
      rw [onTag_of_empty hl hu, onTag_of_empty hl hu, nodeError, nodeError, hs.file]
      exact Or.inl rfl
    | some raw =>
      rw [onTag_of_includeText? hu, onTag_of_includeText? hu]
      exact follow_follows hcyclic hs (fun text _ _ hinner => ih hdeep hinner (by omega) text) raw

/-- Fewer files around a text and more levels below it leave the result of its load as it is. -/
theorem loadWithin_follows (hl : l.tags = .empty) (hs : Within s₁ s₂) (hnm : n ≤ m) (text : String) :
    Follows LoadError.isOfContext (l.loadWithin n text s₂) (l.loadWithin m text s₁) :=
  loadWithin_follows_of_excused (fun _ => rfl) (fun _ _ => rfl) hl hs hnm text

end Loader

/-- What a text loads to does not depend on the files around it, except that more of them may close a
cycle: a value, or an error of another kind, is the same with fewer files around the text. -/
theorem load_independent_of_chain {l : Loader} (hl : l.tags = .empty) {s₁ s₂ : LoadState}
    (hs : s₁.Within s₂) (text : String) :
    let agrees (load : Loader.LoadText) : Prop :=
      (∀ ds, (load text s₂).result = .ok ds → (load text s₁).result = .ok ds) ∧
      ∀ e, (load text s₂).result = .error e → (∀ chain, e ≠ .cyclicInclude chain) →
        (load text s₁).result = .error e
    agrees l.loadText ∧ ∀ n, agrees (l.loadWithin n) := by
  intro agrees
  have hlevels (n : Nat) : agrees (l.loadWithin n) := by
    have h : Follows LoadError.isOfChain (l.loadWithin n text s₂) (l.loadWithin n text s₁) :=
      Loader.loadWithin_follows_of_excused (fun _ => rfl) (fun hlt => absurd hlt (Nat.lt_irrefl n)) hl hs
        (Nat.le_refl n) text
    refine ⟨fun ds hds => h.eq_of_ok hds, fun e he hne => h.eq_of_error he ?_⟩
    refine Bool.eq_false_iff.mpr fun hc => ?_
    obtain ⟨chain, rfl⟩ := LoadError.isOfChain_iff.mp hc
    exact hne chain rfl
  exact ⟨hlevels _, hlevels⟩

/-- A value and an error that are the same for a text on its own and for one that another file includes;
only a file around it that it includes itself makes a difference. -/
theorem load_alone_as_included :
    let l := (FileSet.mk [(⟨"/c.yml"⟩, "n: &n [1, z]\n")]).loader true none ⟨"/"⟩
    let alone := LoadState.root ⟨"/b.yml"⟩
    let included := LoadState.mk [⟨"/a.yml"⟩] ⟨"/b.yml"⟩
    let value := Yaml.Value.mapping [(.string "x", .sequence [.number (.int ⟨1, by decide, by decide⟩), .string "z"])]
    alone.Within included ∧
      (l.loadText "x: !include c.yml *n\n" alone).result = .ok [value] ∧
      (l.loadText "x: !include c.yml *m\n" alone).result = .error (.anchorNotFound "m" ⟨"/c.yml"⟩) ∧
      (l.loadText "x: !include c.yml *n\n" ⟨[⟨"/c.yml"⟩], ⟨"/b.yml"⟩⟩).result =
        .error (.cyclicInclude [⟨"/c.yml"⟩, ⟨"/b.yml"⟩, ⟨"/c.yml"⟩]) := by
  intro l alone included value
  have hs : alone.Within included := ⟨rfl, by decide +kernel⟩
  have hvalue : (l.loadText "x: !include c.yml *n\n" included).result = .ok [value] := by decide +kernel
  have herror : (l.loadText "x: !include c.yml *m\n" included).result =
      .error (.anchorNotFound "m" ⟨"/c.yml"⟩) := by decide +kernel
  exact ⟨hs, (load_independent_of_chain rfl hs _).1.1 _ hvalue,
    (load_independent_of_chain rfl hs _).1.2 _ herror nofun, by decide +kernel⟩

end YamlInclude
