import Mathlib
import YamlInclude.Include.Traced

/-! # Sequencing of traced results

A sequence succeeds if its parts do, fails by its first failure, and has the events of the parts that
were run. A relation that the single steps satisfy and sequencing keeps holds of whole loads.
-/

namespace YamlInclude

theorem bind_ok {ε α β : Type} {x : Except ε α} {f : α → Except ε β} {b : β} (h : x >>= f = .ok b) :
    ∃ a, x = .ok a ∧ f a = .ok b := by
  cases x with
  | error e => cases h
  | ok a => exact ⟨a, rfl, h⟩

namespace Traced

variable {α β : Type} {x y : Traced α} {f g : α → Traced β}

@[simp] theorem events_pure (a : α) : (pure a : Traced α).events = [] := rfl

@[simp] theorem events_ofExcept (r : Except LoadError α) : (ofExcept r).events = [] := rfl

@[simp] theorem events_fail (e : LoadError) : (fail e : Traced α).events = [] := rfl

@[simp] theorem events_note (e : LoadEvent) : (note e).events = [e] := rfl

@[simp] theorem ofExcept_ok (a : α) : ofExcept (.ok a) = pure a := rfl

@[simp] theorem ofExcept_error (e : LoadError) : (ofExcept (.error e) : Traced α) = fail e := rfl

@[simp] theorem pure_bind (a : α) : (pure a : Traced α) >>= f = f a := rfl

@[simp] theorem fail_bind (e : LoadError) : (fail e : Traced α) >>= f = fail e := rfl

theorem bind_of_ok {a : α} (h : x.result = .ok a) : x >>= f = ⟨x.events ++ (f a).events, (f a).result⟩ := by
  change bind x f = _
  simp [bind, h]

theorem bind_of_error {e : LoadError} (h : x.result = .error e) : x >>= f = ⟨x.events, .error e⟩ := by
  change bind x f = _
  simp [bind, h]

theorem result_bind_ok_iff {b : β} :
    (x >>= f).result = .ok b ↔ ∃ a, x.result = .ok a ∧ (f a).result = .ok b := by
  cases h : x.result with
  | error e => simp [bind_of_error h]
  | ok a => simp [bind_of_ok h]

theorem result_bind_error_iff {e : LoadError} :
    (x >>= f).result = .error e ↔
      x.result = .error e ∨ ∃ a, x.result = .ok a ∧ (f a).result = .error e := by
  cases h : x.result with
  | error e' => simp [bind_of_error h]
  | ok a => simp [bind_of_ok h]

theorem mem_events_bind {e : LoadEvent} :
    e ∈ (x >>= f).events ↔ e ∈ x.events ∨ ∃ a, x.result = .ok a ∧ e ∈ (f a).events := by
  cases h : x.result with
  | error e' => simp [bind_of_error h]
  | ok a => simp [bind_of_ok h]

/-- A relation between results that the single steps of a load satisfy and that sequencing keeps. The
error of a load that is cut off and the event of a parsed text are no single steps. -/
structure Congruence (R : ∀ {α : Type}, Traced α → Traced α → Prop) : Prop where
  pure : ∀ {α : Type} (a : α), R (pure a : Traced α) (pure a)
  fail : ∀ {α : Type} (e : LoadError), (∀ p, e ≠ .nestedTooDeep p) → R (fail e : Traced α) (fail e)
  note : ∀ e : LoadEvent, (∀ s, e ≠ .parsed s) → R (note e) (note e)
  bind : ∀ {α β : Type} {x y : Traced α} {f g : α → Traced β},
    R x y → (∀ a, R (f a) (g a)) → R (x >>= f) (y >>= g)

theorem Congruence.ofExcept {R : ∀ {α : Type}, Traced α → Traced α → Prop} (hR : Congruence R)
    (r : Except LoadError α) (h : ∀ e p, r = .error e → e ≠ .nestedTooDeep p) :
    R (ofExcept r) (ofExcept r) := by
  cases r with
  | ok a => exact hR.pure a
  | error e => exact hR.fail e fun p => h e p rfl

end Traced

end YamlInclude
