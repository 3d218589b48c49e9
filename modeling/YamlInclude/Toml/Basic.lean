/-! # TOML values

Settings files are tables of values. Keys and values know where they start in the text, counted in
characters. A table that was never written out itself has no start.
-/

namespace YamlInclude.Toml

structure Key where
  name : String
  start : Nat
  deriving DecidableEq, Repr

/-- How a table came to be. -/
structure TableOrigin where
  /-- Whether it is there only because something inside it is. -/
  implicit : Bool
  /-- Whether it was named in a dotted key. -/
  dotted : Bool
  deriving DecidableEq, Repr

inductive Node where
  | string (s : String)
  | integer (n : Int)
  | float
  | boolean (b : Bool)
  | datetime
  | array (items : List Node)
  /-- A table in braces. -/
  | inlined (origin : TableOrigin) (entries : List (Key × Option Nat × Node))
  /-- A table with a header of its own, or part of one. -/
  | table (origin : TableOrigin) (entries : List (Key × Option Nat × Node))
  /-- The tables with one double header, in order, each with the entries it holds. -/
  | tables (elements : List (List (Key × Option Nat × Node)))

/-- The entries of a table: keys with the starts of their values. -/
abbrev Entries := List (Key × Option Nat × Node)

/-- A line of a document. Each starts where its first character is. -/
inductive Statement where
  | entry (start : Nat) (path : List Key) (key : Key) (valueStart : Nat) (value : Node)
  | header (start : Nat) (path : List Key) (key : Key)
  | arrayHeader (start : Nat) (path : List Key) (key : Key)

/-- Where a text is no TOML document, or does not fit the settings. -/
structure Error where
  line : Nat
  column : Nat
  deriving DecidableEq, Repr

namespace Error

def message (e : Error) : String :=
  "TOML parse error at line " ++ toString e.line ++ ", column " ++ toString e.column

/-- The error at a character. Columns count characters, but before a character outside ASCII they
count bytes; the end of the text belongs to its last line. -/
def ofOffset (text : List Char) (offset : Nat) : Error :=
  let byteCount (cs : List Char) : Nat := cs.foldl (fun n c => n + c.utf8Size) 0
  let lineStart (before : List Char) : Nat := (before.reverse.takeWhile (· != '\n')).length
  match text[offset]? with
  | some c =>
    let before := text.take offset
    let line := before.drop (before.length - lineStart before)
    ⟨before.count '\n' + 1, (if c.toNat < 128 then line.length else byteCount line) + 1⟩
  | none =>
    let before := text.dropLast
    ⟨before.count '\n' + 1, if text.isEmpty then 1 else lineStart before + 2⟩

end Error

end YamlInclude.Toml
