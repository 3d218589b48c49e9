import YamlInclude.Include.State

/-! # Traced results

A load gives a value or an error, and notes on the way which texts it parsed, which references it
followed, which anchors it missed and which programs it ran. The notes do not influence the result.
-/

namespace YamlInclude

inductive LoadEvent where
  | parsed (state : LoadState)
  | followed (from_ target : Path) (anchor : Option String) (depth : Nat)
  | missedAnchor (anchor : String) (file : Path)
  | ranProgram (tag : String) (program : Path)
  deriving DecidableEq, Repr

structure Traced (α : Type) where
  events : List LoadEvent
  result : Except LoadError α

namespace Traced

def bind (x : Traced α) (f : α → Traced β) : Traced β :=
  match x.result with
  | .error e => ⟨x.events, .error e⟩
  | .ok a => ⟨x.events ++ (f a).events, (f a).result⟩

instance : Monad Traced where
  pure a := ⟨[], .ok a⟩
  bind := bind

def ofExcept (r : Except LoadError α) : Traced α := ⟨[], r⟩

def fail (e : LoadError) : Traced α := ⟨[], .error e⟩

def note (e : LoadEvent) : Traced Unit := ⟨[e], .ok ()⟩

@[simp] theorem result_pure (a : α) : (pure a : Traced α).result = .ok a := rfl

@[simp] theorem result_ofExcept (r : Except LoadError α) : (ofExcept r).result = r := rfl

@[simp] theorem result_fail (e : LoadError) : (fail e : Traced α).result = .error e := rfl

@[simp] theorem result_note (e : LoadEvent) : (note e).result = .ok () := rfl

theorem result_bind (x : Traced α) (f : α → Traced β) :
    (x >>= f).result = x.result >>= fun a => (f a).result := by
  change (bind x f).result = _
  unfold bind
  split <;> rename_i h <;> rw [h] <;> rfl

end Traced

end YamlInclude
