import YamlInclude.Yaml.Token.Basic

/-! # Block scalars

Literal and folded text below a header, which may set the indentation and say what becomes of the
line breaks at the end.
-/

namespace YamlInclude.Yaml

/-- What becomes of the line breaks at the end of a block scalar. -/
inductive Chomping where
  | strip | clip | keep
  deriving DecidableEq, Repr

def chomping? : Char → Option Chomping
  | '+' => some .keep
  | '-' => some .strip
  | _ => none

/-- The header of a block scalar: chomping, and indentation if it is given. -/
structure BlockHeader where
  chomping : Chomping
  increment : Option Nat

def scanIncrement (since : Mark) (c : Cursor) : Except SyntaxError (Option Nat × Cursor) :=
  match c.rest with
  | d :: _ =>
    if d == '0' then failIn .blockScalar since .zeroIndent c.mark
    else if d.isDigit then .ok (some (d.toNat - '0'.toNat), c.skip 1)
    else .ok (none, c)
  | [] => .ok (none, c)

def scanBlockHeader (since : Mark) (c : Cursor) : Except SyntaxError (BlockHeader × Cursor) := do
  match c.rest.head?.bind chomping? with
  | some chomping =>
    let (increment, c) ← scanIncrement since (c.skip 1)
    .ok (⟨chomping, increment⟩, c)
  | none =>
    let (increment, c) ← scanIncrement since c
    match increment, c.rest.head?.bind chomping? with
    | some _, some chomping => .ok (⟨chomping, increment⟩, c.skip 1)
    | _, _ => .ok (⟨.clip, increment⟩, c)

/-- Empty lines of a block scalar, as read so far. -/
structure EmptyLines where
  breaks : List Char
  deepest : Nat
  stop : Mark
  cursor : Cursor

/-- The empty lines here and the indentation after them, which is not limited while it is unknown. -/
def scanEmptyLines (since : Mark) (indent : Option Nat) :
    List Char → Mark → EmptyLines → Except SyntaxError EmptyLines
  | [], m, e => .ok { e with deepest := max e.deepest m.column, cursor := ⟨[], m⟩ }
  | '\x0d' :: '\n' :: cs, m, e =>
    let m' := m.newLine 2
    scanEmptyLines since indent cs m'
      { e with breaks := e.breaks ++ ['\n'], deepest := max e.deepest m.column, stop := m' }
  | c :: cs, m, e =>
    let inside := indent.all (m.column < ·)
    let e' := { e with deepest := max e.deepest m.column }
    if inside && c == ' ' then scanEmptyLines since indent cs (m.skip 1) e
    else if inside && c == '\t' then failIn .blockScalar since .tabForIndent m
    else if isBreak c then
      let m' := m.newLine 1
      scanEmptyLines since indent cs m' { e' with breaks := e.breaks ++ [breakText c], stop := m' }
    else .ok { e' with cursor := ⟨c :: cs, m⟩ }

def breakHere : List Char → List Char
  | c :: _ => if isBreak c then [breakText c] else []
  | [] => []

/-- The lines of a block scalar from here; `fuel` bounds their number. The break before the line and
the empty lines after that break are written when the line is. -/
def blockLines (since : Mark) (literal : Bool) (indent : Nat) (chomping : Chomping) :
    Nat → Cursor → (leading : List Char) → (empties : List Char) → (afterBlank : Bool) →
      (text : List Char) → (stop : Mark) → Except SyntaxError ((List Char × Mark) × Cursor)
  | 0, c, _, _, _, _, _ => failIn .blockScalar since .unfinished c.mark
  | fuel + 1, c, leading, empties, afterBlank, text, stop =>
    if c.mark.column = indent && !c.rest.isEmpty then do
      let startsBlank := c.rest.head?.any isBlankChar
      let joint :=
        if !literal && leading == ['\n'] && !afterBlank && !startsBlank then
          (if empties.isEmpty then [' '] else empties)
        else leading ++ empties
      let line := c.rest.takeWhile (!isBreak ·)
      let lineEnd := c.skipWhile (!isBreak ·)
      let next := lineEnd.skipBreak
      let e ← scanEmptyLines since (some indent) next.rest next.mark ⟨[], 0, next.mark, next⟩
      blockLines since literal indent chomping fuel e.cursor (breakHere lineEnd.rest) e.breaks
        startsBlank (text ++ joint ++ line) e.stop
    else
      let tail := match chomping with
        | .strip => []
        | .clip => leading
        | .keep => leading ++ empties
      .ok ((text ++ tail, stop), c)

/-- A literal or folded scalar inside a block of indentation `parent`. -/
def scanBlock (literal : Bool) (parent : Int) (c : Cursor) :
    Except SyntaxError (Located Token × Cursor) := do
  let since := c.mark
  let (header, d) ← scanBlockHeader since (c.skip 1)
  let d := d.skipBlanks.skipComment
  if !atLineEnd d.rest then failIn .blockScalar since .noCommentOrBreak d.mark
  else
    let d := d.skipBreak
    let given := header.increment.map fun n => if 0 ≤ parent then parent.toNat + n else n
    let e ← scanEmptyLines since given d.rest d.mark ⟨[], 0, d.mark, d⟩
    let indent := given.getD (max (max e.deepest (parent + 1).toNat) 1)
    let ((text, stop), d) ← blockLines since literal indent header.chomping (c.rest.length + 1)
      e.cursor [] e.breaks false [] e.stop
    .ok (⟨.scalar (String.ofList text) false, since, stop⟩, d)

end YamlInclude.Yaml
