import YamlInclude.Toml.Reader

/-! # Documents of TOML

The statements of a document are put together to one table. A table is written out once, but may be
there before because of something inside it.
-/

namespace YamlInclude.Toml

/-- Changes the entries of the table that a path of headers names. Tables on the way are made; of
several tables with one double header the last one counts. -/
def within (f : Entries → Option Entries) : List Key → Entries → Option Entries
  | [], es => f es
  | k :: ks, es =>
    match find? k.name es with
    | none => do some (es ++ [(k, none, .table ⟨true, false⟩ (← within f ks []))])
    | some (_, _, .table o sub) => do some (setNode k.name (.table o (← within f ks sub)) es)
    | some (_, _, .tables elements) =>
      match elements.getLast? with
      | some last => do some (setNode k.name (.tables (elements.dropLast ++ [← within f ks last])) es)
      | none => none
    | some _ => none

/-- Puts a value under a dotted key of a table. The tables on the way are made, or were made by dotted
keys before; `fits` says that this one is either the first or such a table. -/
def putDotted (key : Key) (start : Nat) (value : Node) (fits : Bool) : List Key → Entries → Option Entries
  | [], es =>
    if !fits || (find? key.name es).isSome then none else some (es ++ [(key, some start, value)])
  | k :: ks, es =>
    match find? k.name es with
    | none => do some (es ++ [(k, none, .table ⟨true, true⟩ (← putDotted key start value true ks []))])
    | some (_, _, .table o sub) =>
      if o.implicit then do
        some (setNode k.name (.table o (← putDotted key start value o.dotted ks sub)) es)
      else none
    | some (_, _, .tables elements) =>
      match elements.getLast? with
      | some last => do
        let last ← putDotted key start value false ks last
        some (setNode k.name (.tables (elements.dropLast ++ [last])) es)
      | none => none
    | some _ => none

/-- A header: the place of a table in the document. -/
structure Header where
  start : Nat
  path : List Key
  key : Key
  /-- Whether the table is one of several. -/
  isArray : Bool

/-- A document that is being put together: what was finished, and the table that is being filled, with
its header unless it is the first one. -/
structure Assembly where
  root : Entries
  current : Entries
  header : Option Header

namespace Assembly

def initial : Assembly := ⟨[], [], none⟩

/-- The entries of a document with the current table in its place. -/
def finished (a : Assembly) : Option Entries :=
  match a.header with
  | none => some a.current
  | some h =>
    let put (es : Entries) : Option Entries :=
      match find? h.key.name es, h.isArray with
      | none, false => some (es ++ [(h.key, some h.start, .table ⟨false, false⟩ a.current)])
      | none, true => some (es ++ [(h.key, some h.start, .tables [a.current])])
      | some (_, _, .table o _), false =>
        if o.implicit then
          some (es.map fun e =>
            if e.1.name == h.key.name then (e.1, some h.start, .table ⟨false, false⟩ a.current) else e)
        else none
      | some (_, start, .tables elements), true =>
        some (es.map fun e =>
          if e.1.name == h.key.name then
            (e.1, some (start.getD h.start), .tables (elements ++ [a.current]))
          else e)
      | _, _ => none
    within put h.path a.root

/-- Starts a table with a header. An implicit table of that name becomes it. -/
def openTable (root : Entries) (h : Header) : Option Assembly := do
  let existing ← lookup h.path root
  match existing with
  | none => some ⟨← within some h.path root, [], some h⟩
  | some (.table ⟨true, false⟩ sub) =>
    some ⟨← within (fun es => some (es.filter fun e => e.1.name != h.key.name)) h.path root, sub, some h⟩
  | some _ => none
where
  /-- The node that the header names so far. -/
  lookup : List Key → Entries → Option (Option Node)
    | [], es => some ((find? h.key.name es).map (·.2.2))
    | k :: ks, es =>
      match find? k.name es with
      | none => some none
      | some (_, _, .table _ sub) => lookup ks sub
      | some (_, _, .tables elements) => (elements.getLast?).bind (lookup ks)
      | some _ => none

/-- Starts one of several tables with a double header. -/
def openElement (root : Entries) (h : Header) : Option Assembly := do
  let check (es : Entries) : Option Entries :=
    match find? h.key.name es with
    | none => some (es ++ [(h.key, none, .tables [])])
    | some (_, _, .tables _) => some es
    | some _ => none
  some ⟨← within check h.path root, [], some h⟩

def add (a : Assembly) : Statement → Option Assembly
  | .entry _ path key start v => do
    some { a with current := ← putDotted key start v true path a.current }
  | .header start path key => do openTable (← a.finished) ⟨start, path, key, false⟩
  | .arrayHeader start path key => do openElement (← a.finished) ⟨start, path, key, true⟩

end Assembly

def Statement.start : Statement → Nat
  | entry s .. | header s .. | arrayHeader s .. => s

/-- Puts statements together, up to the offset of the first one that does not fit. -/
def assemble : List Statement → Assembly → Except Nat Assembly
  | [], a => .ok a
  | s :: ss, a =>
    match a.add s with
    | some a => assemble ss a
    | none => .error s.start

/-- The table that a text stands for, or the offset of what is wrong. -/
def parse (text : List Char) : Except Nat Entries := do
  let (statements, stop) := readStatements text
  let a ← assemble statements .initial
  match stop, a.finished with
  | some offset, _ => .error offset
  | none, some es => .ok es
  | none, none => .error 0

end YamlInclude.Toml
