import YamlInclude.Yaml.SyntaxError
import YamlInclude.Yaml.Value.Basic
import YamlInclude.Yaml.Scalar
import YamlInclude.Text.Quoted

/-! # Errors of YAML texts

A text fails by its syntax, by a value that cannot be read, by a limit, or by a merge key.
-/

namespace YamlInclude.Yaml

inductive PathStep where
  | item (index : Nat)
  | field (key : String)
  | unknown
  | alias
  deriving DecidableEq, Repr

def pathText : List PathStep → String
  | steps => go "." true steps
where
  /-- `atRoot` says that no step was written yet. -/
  go (text : String) (atRoot : Bool) : List PathStep → String
    | [] => text
    | .item i :: rest => go (text ++ "[" ++ toString i ++ "]") false rest
    | .field k :: rest => go ((if atRoot then "" else text ++ ".") ++ k) false rest
    | .unknown :: rest => go ((if atRoot then "" else text ++ ".") ++ "?") false rest
    | .alias :: rest => go text false rest

inductive ValueFault where
  | unfitting (found : ScalarFault)
  | duplicateKey (key : Value)

namespace ValueFault

/-- A key as messages about duplicates show it. -/
def keyText : Value → String
  | .null => "with null key"
  | .bool b => "with key `" ++ toString b ++ "`"
  | .number n => "with key " ++ Scalar.numberText n
  | .string s => "with key " ++ quoted s
  | _ => "in YAML map"

def message : ValueFault → String
  | unfitting f => f.message
  | duplicateKey k => "duplicate entry " ++ keyText k

end ValueFault

inductive MergeFault where
  | scalar | scalarElement | sequenceElement | tagged
  deriving DecidableEq, Repr

namespace MergeFault

def message : MergeFault → String
  | scalar => "expected a mapping or list of mappings for merging, but found scalar"
  | scalarElement => "expected a mapping for merging, but found scalar"
  | sequenceElement => "expected a mapping for merging, but found sequence"
  | tagged => "unexpected tagged value in merge"

end MergeFault

inductive Error where
  | syntaxError (e : SyntaxError)
  | value (fault : ValueFault) (path : List PathStep) (mark : Mark)
  | tooDeep (mark : Mark)
  | tooManyAliases
  | unknownAnchor (mark : Mark)
  | noDocument
  | manyDocuments
  | merge (fault : MergeFault)

namespace Error

/-- The place of an error, unless it is the first one of the text. -/
def placeText (m : Mark) : String := if m.isOrigin then "" else " at " ++ m.message

def message : Error → String
  | syntaxError e => e.message
  | value fault path mark =>
    let path := pathText path
    (if path = "." then "" else path ++ ": ") ++ fault.message ++ placeText mark
  | tooDeep mark => "recursion limit exceeded" ++ placeText mark
  | tooManyAliases => "repetition limit exceeded"
  | unknownAnchor mark => "unknown anchor" ++ placeText mark
  | noDocument => "EOF while parsing a value"
  | manyDocuments => "deserializing from YAML containing more than one document is not supported"
  | merge fault => fault.message

end Error

end YamlInclude.Yaml
