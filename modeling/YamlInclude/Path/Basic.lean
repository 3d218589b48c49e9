import YamlInclude.Text.Split

/-! # Paths

A path is its text. Its components are what stands between slashes; empty segments and single dots
count for nothing, except a single dot at the start.
-/

namespace YamlInclude

structure Path where
  text : String
  deriving DecidableEq, Repr, Inhabited

inductive Component where
  | root
  | current
  | parent
  | name (segment : List Char)
  deriving DecidableEq, Repr

namespace Path

/-- A segment that counts for nothing. -/
def isVoid (segment : List Char) : Bool := segment.isEmpty || segment == ['.']

def ofChars (cs : List Char) : Path := ⟨String.ofList cs⟩

def chars (p : Path) : List Char := p.text.toList

def isAbsolute (p : Path) : Bool := p.chars.head? == some '/'

/-- The segments after the root, or all of them. -/
def body (p : Path) : List (List Char) :=
  if p.isAbsolute then splitChar '/' (p.chars.drop 1) else splitChar '/' p.chars

/-- A segment as a component; void segments are none. -/
def componentOf? (segment : List Char) : Option Component :=
  if isVoid segment then none
  else if segment = ['.', '.'] then some .parent
  else some (.name segment)

/-- The components of segments that follow others. -/
def componentsOf (segments : List (List Char)) : List Component := segments.filterMap componentOf?

def components (p : Path) : List Component :=
  if p.isAbsolute then .root :: componentsOf p.body
  else match p.body with
    | ['.'] :: rest => .current :: componentsOf rest
    | segments => componentsOf segments

def same (p q : Path) : Bool := p.components == q.components

def trimVoid (segments : List (List Char)) : List (List Char) :=
  (segments.reverse.dropWhile isVoid).reverse

/-- The segments of a path up to its last component; a dot at the start of a relative path is one. -/
def trimmedBody (absolute : Bool) (segments : List (List Char)) : List (List Char) :=
  match absolute, segments with
  | false, ['.'] :: rest => ['.'] :: trimVoid rest
  | _, segments => trimVoid segments

def ofSegments (absolute : Bool) (segments : List (List Char)) : Path :=
  ofChars (if absolute then '/' :: joinChar '/' segments else joinChar '/' segments)

/-- The path without its last component, if it has one that is not the root. -/
def parent? (p : Path) : Option Path :=
  match trimmedBody p.isAbsolute p.body with
  | [] => none
  | segments => some (ofSegments p.isAbsolute (trimmedBody p.isAbsolute segments.dropLast))

/-- The last component, if it is a name. -/
def fileName? (p : Path) : Option (List Char) :=
  match p.components.getLast? with
  | some (.name s) => some s
  | _ => none

/-- A path below another one; an absolute path stays as it is. -/
def join (p q : Path) : Path :=
  if q.isAbsolute then q
  else
    let base := p.chars
    let slash := if base.isEmpty || base.getLast? == some '/' then [] else ['/']
    ofChars (base ++ slash ++ q.chars)

/-- `join` with text. -/
def child (p : Path) (segment : List Char) : Path := p.join (ofChars segment)

/-- Segments after the first `n` components. -/
def dropComponents : Nat → List (List Char) → List (List Char)
  | 0, segments => segments
  | _ + 1, [] => []
  | n + 1, s :: rest => if isVoid s then dropComponents (n + 1) rest else dropComponents n rest

/-- What is left of a path after the components of `base`, if they are at its start. -/
def stripBase? (p base : Path) : Option Path :=
  let cs := base.components
  if !cs.isPrefixOf p.components then none
  else match cs with
    | [] => some (ofSegments p.isAbsolute (trimmedBody p.isAbsolute p.body))
    | first :: rest =>
      let segments := match first with
        | .root => dropComponents rest.length p.body
        | .current => dropComponents rest.length (p.body.drop 1)
        | _ => dropComponents cs.length p.body
      some (ofSegments false (trimVoid (segments.dropWhile isVoid)))

/-- A file name cut before its last dot, unless that is its first character. -/
def splitExtension (name : List Char) : List Char × Option (List Char) :=
  let ext := (name.reverse.takeWhile (· != '.')).reverse
  let stem := name.take (name.length - ext.length - 1)
  if ext.length = name.length || stem.isEmpty then (name, none) else (stem, some ext)

/-- What follows the last dot of the file name. -/
def extension? (p : Path) : Option (List Char) := p.fileName?.bind fun n => (splitExtension n).2

/-- The path with an extension put after the stem of its file name, if it has a file name. -/
def setExtension (p : Path) (ext : List Char) : Path :=
  match p.fileName? with
  | none => p
  | some n =>
    let segments := (trimmedBody p.isAbsolute p.body).dropLast
    ofSegments p.isAbsolute (segments ++ [(splitExtension n).1 ++ '.' :: ext])

/-- The path with another extension. The old one is cut off first, and then there has to be a file name. -/
def withExtension (p : Path) (ext : List Char) : Path :=
  match p.extension? with
  | none => p.setExtension ext
  | some e => (ofChars (p.chars.take (p.chars.length - e.length))).setExtension ext

def append (p : Path) (suffix : List Char) : Path := ofChars (p.chars ++ suffix)

end Path

end YamlInclude
