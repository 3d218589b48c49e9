import YamlInclude.Toml.Scalar

/-! # Values and statements of TOML

A document is read into its statements, up to the place where it goes wrong if it does.
-/

namespace YamlInclude.Toml

/-- How deep arrays and tables may nest, and how many parts a key may have. -/
def depthLimit : Nat := 80

def offset (total : Nat) (rest : List Char) : Nat := total - rest.length

/-! ## Keys -/

def isBareKeyChar (c : Char) : Bool := c.isAlphanum || c == '-' || c == '_'

/-- One part of a key, with the spaces around it. -/
def readKeyPart (total : Nat) (cs : List Char) : Except Stop (Key × List Char) := do
  let cs := skipSpace cs
  let (name, rest) ← match cs with
    | '"' :: _ | '\'' :: _ => readShortString cs
    | _ =>
      let bare := cs.takeWhile isBareKeyChar
      if bare.isEmpty then miss cs else .ok (String.ofList bare, cs.drop bare.length)
  .ok (⟨name, offset total cs⟩, skipSpace rest)

/-- The parts of a key after the first one; `fuel` bounds their number. A point after which no part
follows is left. -/
def readKeyParts (total : Nat) : Nat → List Char → Except Stop (List Key × List Char)
  | 0, cs => .ok ([], cs)
  | fuel + 1, cs =>
    match cs with
    | '.' :: r =>
      match readKeyPart total r with
      | .ok (k, r) => do
        let (ks, r) ← readKeyParts total fuel r
        .ok (k :: ks, r)
      | .error ⟨r, true⟩ => halt r
      | .error ⟨_, false⟩ => .ok ([], cs)
    | _ => .ok ([], cs)

/-- A key: the names of the tables around its value, and the last name. -/
def readKey (total : Nat) (cs : List Char) : Except Stop ((List Key × Key) × List Char) := do
  let (k, r) ← readKeyPart total cs
  let (ks, r) ← readKeyParts total r.length r
  if depthLimit ≤ ks.length + 1 then miss cs
  else match ks.getLast? with
    | some last => .ok ((k :: ks.dropLast, last), r)
    | none => .ok (([], k), r)

/-! ## Tables in braces -/

def find? (name : String) (es : Entries) : Option (Key × Option Nat × Node) :=
  List.find? (fun e => e.1.name == name) es

def setNode (name : String) (n : Node) (es : Entries) : Entries :=
  es.map fun e => if e.1.name == name then (e.1, e.2.1, n) else e

/-- Puts a value under a dotted key. Tables on the way are made, or were made by dotted keys before. -/
def putInlined (key : Key) (start : Nat) (value : Node) : List Key → Entries → Option Entries
  | [], es => if (find? key.name es).isSome then none else some (es ++ [(key, some start, value)])
  | k :: ks, es =>
    match find? k.name es with
    | none => do some (es ++ [(k, none, .inlined ⟨true, true⟩ (← putInlined key start value ks []))])
    | some (_, _, .inlined o sub) =>
      if o.implicit then do some (setNode k.name (.inlined o (← putInlined key start value ks sub)) es)
      else none
    | some _ => none

structure Pair where
  path : List Key
  key : Key
  start : Nat
  value : Node

/-- The entries that pairs make up, if none of them is there twice. -/
def inlinedEntries (ps : List Pair) : Option Entries :=
  ps.foldlM (fun es p => putInlined p.key p.start p.value p.path es) []

/-! ## Values -/

/-- The text after spaces, line breaks and comments; `fuel` bounds their number. -/
def skipFiller : Nat → List Char → List Char
  | 0, cs => cs
  | fuel + 1, cs =>
    match cs with
    | '#' :: r =>
      match newline? (r.dropWhile isPlain) with
      | some r => skipFiller fuel r
      | none => cs
    | c :: r =>
      if isSpace c then skipFiller fuel r
      else match newline? cs with
        | some r => skipFiller fuel r
        | none => cs
    | [] => []

def filler (cs : List Char) : List Char := skipFiller (cs.length + 1) cs

def readItem (value : Reader Node) (cs : List Char) : Except Stop (Node × List Char) := do
  let (v, r) ← value (filler cs)
  .ok (v, filler r)

/-- Parts with commas between them; `fuel` bounds their number. A comma after which no part follows is
left. -/
def readSeparated (one : Reader α) (first : Bool) : Nat → List Char → Except Stop (List α × List Char)
  | 0, cs => .ok ([], cs)
  | fuel + 1, cs =>
    let next := match first, cs with
      | true, cs => some cs
      | false, ',' :: r => some r
      | false, _ => none
    match next with
    | none => .ok ([], cs)
    | some r =>
      match one r with
      | .ok (a, r) => do
        let (rest, r) ← readSeparated one false fuel r
        .ok (a :: rest, r)
      | .error ⟨r, true⟩ => halt r
      | .error ⟨_, false⟩ => .ok ([], cs)

def readArray (value : Reader Node) (cs : List Char) : Except Stop (Node × List Char) := do
  let (items, r) ← readSeparated (readItem value) true (cs.length + 1) cs
  let r := match items, r with
    | _ :: _, ',' :: r => r
    | _, r => r
  match filler r with
  | ']' :: r => .ok (.array items, r)
  | r => halt r

/-- An equals sign and a value, which have to follow a key. -/
def readAssigned (total : Nat) (value : Reader Node) (cs : List Char) :
    Except Stop (Nat × Node × List Char) :=
  final do
    let r := skipSpace (← skipChar '=' cs)
    let (v, rest) ← value r
    .ok (offset total r, v, rest)

def readPair (total : Nat) (value : Reader Node) (cs : List Char) : Except Stop (Pair × List Char) := do
  let ((path, key), r) ← readKey total cs
  let (start, v, r) ← readAssigned total value r
  .ok (⟨path, key, start, v⟩, skipSpace r)

def readInlined (total : Nat) (value : Reader Node) (cs : List Char) : Except Stop (Node × List Char) := do
  let (pairs, r) ← readSeparated (readPair total value) true (cs.length + 1) cs
  match inlinedEntries pairs with
  | none => halt cs
  | some es =>
    match skipSpace r with
    | '\x7d' :: r => .ok (.inlined ⟨false, false⟩ es, r)
    | r => halt r

def readWord (word : List Char) (n : Node) (cs : List Char) : Except Stop (Node × List Char) :=
  if word.isPrefixOf cs then .ok (n, cs.drop word.length) else halt cs

/-- A value in which arrays and tables nest less than `depth` deep. -/
def readValue (total : Nat) : Nat → Reader Node
  | 0, cs => halt cs
  | depth + 1, cs =>
    match cs with
    | [] => miss []
    | '"' :: _ | '\'' :: _ => do
      let (s, r) ← readString cs
      .ok (.string s, r)
    | '[' :: r => if depth = 0 then halt cs else final (readArray (readValue total depth) r)
    | '\x7b' :: r => if depth = 0 then halt cs else final (readInlined total (readValue total depth) r)
    | '_' :: _ => readInteger cs
    | '.' :: _ | 'i' :: _ | 'n' :: _ => readFloat cs
    | 't' :: _ => readWord ['t', 'r', 'u', 'e'] (.boolean true) cs
    | 'f' :: _ => readWord ['f', 'a', 'l', 's', 'e'] (.boolean false) cs
    | c :: _ => if c = '+' ∨ c = '-' ∨ c.isDigit then readNumber cs else miss cs

/-! ## Statements -/

def skipLineEnd (cs : List Char) : Except Stop (List Char) :=
  match newline? cs, cs with
  | some r, _ => .ok r
  | none, [] => .ok []
  | none, _ => halt cs

/-- The text after the end of a line, before which spaces and a comment may stand. -/
def skipTrailing (cs : List Char) : Except Stop (List Char) :=
  match skipSpace cs with
  | '#' :: r => skipLineEnd (r.dropWhile isPlain)
  | r => skipLineEnd r

def readHeader (total : Nat) (cs : List Char) : Except Stop (Statement × List Char) :=
  final do
    match cs with
    | '[' :: '[' :: r =>
      let ((path, key), r) ← readKey total r
      match r with
      | ']' :: ']' :: r => .ok (.arrayHeader (offset total cs) path key, ← skipTrailing r)
      | r => halt r
    | '[' :: c :: r =>
      let ((path, key), r) ← readKey total (c :: r)
      match r with
      | ']' :: r => .ok (.header (offset total cs) path key, ← skipTrailing r)
      | r => halt r
    | _ => halt cs

def readEntry (total : Nat) (cs : List Char) : Except Stop (Statement × List Char) :=
  final do
    let ((path, key), r) ← readKey total cs
    let (start, v, r) ← readAssigned total (readValue total depthLimit) r
    .ok (.entry (offset total cs) path key start v, ← skipTrailing r)

/-- One line: its statement, unless it is blank or a comment. -/
def readLine (total : Nat) (cs : List Char) : Except Stop (Option Statement × List Char) :=
  let statement (r : Except Stop (Statement × List Char)) := r.map fun (s, rest) => (some s, rest)
  match cs with
  | '#' :: r => do .ok (none, ← skipLineEnd (r.dropWhile isPlain))
  | '[' :: _ => statement (readHeader total cs)
  | '\n' :: r => .ok (none, r)
  | '\x0d' :: _ => do .ok (none, ← skipLineEnd cs)
  | _ => statement (readEntry total cs)

/-- The statements of a text, and the offset at which reading stopped before the end. -/
def readLines (total : Nat) : Nat → List Char → List Statement × Option Nat
  | 0, cs => ([], some (offset total cs))
  | fuel + 1, cs =>
    match skipSpace cs with
    | [] => ([], none)
    | cs =>
      match readLine total cs with
      | .error s => ([], some (offset total s.rest))
      | .ok (s, r) =>
        let (ss, stop) := readLines total fuel r
        (s.toList ++ ss, stop)

/-- The statements of a document; a byte order mark before them is passed over. -/
def readStatements (text : List Char) : List Statement × Option Nat :=
  let body := match text with
    | '\ufeff' :: r => r
    | r => r
  readLines text.length (text.length + 1) body

end YamlInclude.Toml
