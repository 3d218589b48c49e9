import YamlInclude.Include.Source
import YamlInclude.Yaml.Error

/-! # Load errors

Everything that can go wrong between the name of a file and its documents.
-/

namespace YamlInclude

inductive LoadError where
  | read (path : Path) (fault : ReadFault)
  | parse (path : Path) (error : Yaml.Error)
  | anchorNotFound (anchor : String) (path : Path)
  | anchorNotExtractable (anchor : String) (path : Path)
  | cyclicInclude (chain : List Path)
  | invalidReference (path : Path)
  | unknownTag (tag : String) (path : Path)
  | multipleDocuments (count : Nat) (path : Path)
  | reservedTag (tag : String)
  | constructor (tag : String) (path : Path) (message : String)
  | nestedTooDeep (path : Path)

namespace LoadError

def message : LoadError → String
  | read p f => "Failed to read " ++ p.text ++ ": " ++ f.message
  | parse p e => "Failed to parse " ++ p.text ++ ": " ++ e.message
  | anchorNotFound a p => "Anchor '" ++ a ++ "' not found in " ++ p.text
  | anchorNotExtractable a p =>
    "Anchor '" ++ a ++ "' in " ++ p.text ++ " cannot be extracted: top level is not a mapping"
  | cyclicInclude chain => "Cyclic include: " ++ " -> ".intercalate (chain.map Path.text)
  | invalidReference p => p.text ++ ": !include expects a scalar file reference"
  | unknownTag t p => p.text ++ ": unknown tag " ++ t
  | multipleDocuments n p =>
    p.text ++ ": included file holds " ++ toString n ++ " documents, expected at most one"
  | reservedTag t => "Tag " ++ t ++ " is reserved and cannot be overridden"
  | constructor t p m => p.text ++ ": tag " ++ t ++ " failed: " ++ m
  | nestedTooDeep p => p.text ++ ": includes nest too deeply"

def path? : LoadError → Option Path
  | read p _ | parse p _ | anchorNotFound _ p | anchorNotExtractable _ p | invalidReference p
  | unknownTag _ p | multipleDocuments _ p | constructor _ p _ | nestedTooDeep p => some p
  | cyclicInclude chain => chain.getLast?
  | reservedTag _ => none

/-- The error that an error was made of, which messages about causes repeat. -/
def cause? : LoadError → Option String
  | read _ f => some f.message
  | parse _ e => some e.message
  | _ => none

end LoadError

end YamlInclude
