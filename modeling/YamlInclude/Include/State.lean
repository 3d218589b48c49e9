import YamlInclude.Include.Error

/-! # States of a load

The file whose text is being read, and the files around it that wait for it, outermost first.
-/

namespace YamlInclude

structure LoadState where
  outer : List Path
  file : Path
  deriving DecidableEq, Repr

namespace LoadState

def root (file : Path) : LoadState := ⟨[], file⟩

/-- The files that are being loaded, outermost first. -/
def chain (s : LoadState) : List Path := s.outer ++ [s.file]

def depth (s : LoadState) : Nat := s.outer.length

/-- The state inside another file, which must not be on the chain. -/
def enter (s : LoadState) (file : Path) : Except LoadError LoadState :=
  if s.chain.any (·.same file) then .error (.cyclicInclude (s.chain ++ [file]))
  else .ok ⟨s.chain, file⟩

end LoadState

end YamlInclude
