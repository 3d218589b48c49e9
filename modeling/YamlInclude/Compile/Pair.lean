import YamlInclude.Path.Yaml

/-! # Pairs of sources and destinations -/

namespace YamlInclude

/-- A source with the path whose JSON path it is written to. -/
structure FilePair where
  source : Path
  dest : Path
  deriving DecidableEq, Repr

namespace FilePair

/-- The part of a source path that is kept below an output directory: what follows the base, or the
file name where that is nothing, or all of it where there is no file name. -/
def keptPart (source base : Path) : Path :=
  match (source.stripBase? base).filter (!·.chars.isEmpty) with
  | some rest => rest
  | none =>
    match source.fileName? with
    | some name => .ofChars name
    | none => source

/-- The pair of a source, which is its own destination unless a base and an output directory are given. -/
def forSource (source : Path) (out : Option (Path × Path)) : FilePair :=
  match out with
  | none => ⟨source, source⟩
  | some (base, dir) => ⟨source, dir.join (keptPart source base)⟩

/-- Where the JSON of a pair goes. -/
def written (p : FilePair) : Path := p.dest.jsonPath

end FilePair

end YamlInclude
