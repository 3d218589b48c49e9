import YamlInclude.Yaml.Token.Property

/-! # Directives

`%YAML` gives the version of the language and `%TAG` a handle for tags.
-/

namespace YamlInclude.Yaml

/-- A number of a version, of at most nine digits. -/
def scanVersionNumber (since : Mark) (c : Cursor) : Except SyntaxError (Nat × Cursor) :=
  let digits := c.rest.takeWhile Char.isDigit
  if 9 < digits.length then failIn .version since .longVersion (c.mark.skip 9)
  else if digits.isEmpty then failIn .version since .noVersion c.mark
  else .ok (decimalValue digits, c.skipWhile Char.isDigit)

def scanVersion (since : Mark) (c : Cursor) : Except SyntaxError (Token × Cursor) := do
  let (major, c) ← scanVersionNumber since c.skipBlanks
  if c.rest.head? != some '.' then failIn .version since .noDigitOrDot c.mark
  else
    let (minor, c) ← scanVersionNumber since (c.skip 1)
    .ok (.version major minor, c)

def scanTagDirective (since : Mark) (c : Cursor) : Except SyntaxError (Token × Cursor) := do
  let (handle, c) ← scanHandle true since c.skipBlanks
  if !c.rest.head?.any isBlankChar then failIn .tagDirective since .noSpace c.mark
  else
    let (target, c) ← scanUri true true [] since c.skipBlanks
    if atGap c.rest then .ok (.tagDirective (String.ofList handle) target, c)
    else failIn .tagDirective since .noSpaceOrBreak c.mark

def scanDirectiveBody (name : List Char) (since : Mark) (c : Cursor) : Except SyntaxError (Token × Cursor) :=
  if name = "YAML".toList then scanVersion since c
  else if name = "TAG".toList then scanTagDirective since c
  else failIn .directive since .unknownDirective c.mark

def scanDirective (c : Cursor) : Except SyntaxError (Located Token × Cursor) := do
  let since := c.mark
  let name := (c.skip 1).rest.takeWhile isNameChar
  let after := (c.skip 1).skipWhile isNameChar
  if name.isEmpty then failIn .directive since .noDirectiveName after.mark
  else if !atGap after.rest then failIn .directive since .nonAlphabetical after.mark
  else
    let (token, d) ← scanDirectiveBody name since after
    let lineEnd := d.skipBlanks.skipComment
    if atLineEnd lineEnd.rest then .ok (⟨token, since, d.mark⟩, lineEnd.skipBreak)
    else failIn .directive since .noCommentOrBreak lineEnd.mark

end YamlInclude.Yaml
