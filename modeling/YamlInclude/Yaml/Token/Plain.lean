import YamlInclude.Yaml.Token.Basic

/-! # Plain scalars

A plain scalar is a run of words, which hold no white space, and the white space between them.
-/

namespace YamlInclude.Yaml

/-- Characters that end a plain scalar inside a flow collection. -/
def isFlowEnd (c : Char) : Bool := c == ',' || c == '[' || c == ']' || c == '\x7b' || c == '\x7d'

/-- How a word of a plain scalar ends. -/
inductive WordEnd where
  | regular
  | unexpectedColon

/-- The characters of a word, the rest, and how the word ended. -/
def plainWord (flow : Bool) : List Char → List Char × List Char × WordEnd
  | [] => ([], [], .regular)
  | c :: cs =>
    if isBreak c || isBlankChar c then ([], c :: cs, .regular)
    else if flow && c == ':' && cs.head?.any (fun d => isFlowEnd d || d == '?') then
      ([], c :: cs, .unexpectedColon)
    else if (c == ':' && atGap cs) || (flow && isFlowEnd c) then ([], c :: cs, .regular)
    else
      let (word, rest, ending) := plainWord flow cs
      (c :: word, rest, ending)

/-- A plain scalar as read so far: its text, its end, and whether it ran over a line break. -/
structure Plain where
  text : List Char
  stop : Mark
  cursor : Cursor
  broken : Bool

/-- The words from here, the white space before them not yet written; `fuel` bounds their number. -/
def plainWords (flow : Bool) (indent : Int) (since : Mark) :
    Nat → Cursor → Fold → List Char → Mark → Except SyntaxError Plain
  | 0, c, _, _, _ => failIn .plainScalar since .unfinished c.mark
  | fuel + 1, c, gap, text, stop =>
    if atDocumentMarker c || c.rest.head? = some '#' then .ok ⟨text, stop, c, gap.broken⟩ else do
      let (word, rest, ending) := plainWord flow c.rest
      let after : Cursor := ⟨rest, c.mark.skip word.length⟩
      let (gap, text, stop) :=
        if word.isEmpty then (gap, text, stop) else (Fold.empty, text ++ gap.text ++ word, after.mark)
      match ending with
      | .unexpectedColon => failIn .plainScalar since .unexpectedColon after.mark
      | .regular =>
        if !rest.isEmpty && atGap rest then
          let (gap, c) ← scanFold since indent rest after.mark gap
          if !flow && c.mark.column < indent then .ok ⟨text, stop, c, gap.broken⟩
          else plainWords flow indent since fuel c gap text stop
        else .ok ⟨text, stop, after, gap.broken⟩

/-- A plain scalar, and whether it ran over a line break; continuation lines are at `indent` or beyond. -/
def scanPlain (flow : Bool) (indent : Int) (c : Cursor) :
    Except SyntaxError (Located Token × Cursor × Bool) := do
  let p ← plainWords flow indent c.mark (c.rest.length + 1) c .empty [] c.mark
  .ok (⟨.scalar (String.ofList p.text) true, c.mark, p.stop⟩, p.cursor, p.broken)

end YamlInclude.Yaml
