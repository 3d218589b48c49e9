import YamlInclude.Yaml.Token.Basic
import YamlInclude.Number.Decimal

/-! # Quoted scalars

Text between single quotes, where a doubled quote is a quote, and text between double quotes, where
a backslash begins an escape. White space around line breaks is folded in both.
-/

namespace YamlInclude.Yaml

def escapeText? : Char → Option Char
  | '0' => some '\x00'
  | 'a' => some '\x07'
  | 'b' => some '\x08'
  | 't' | '\t' => some '\t'
  | 'n' => some '\n'
  | 'v' => some '\x0b'
  | 'f' => some '\x0c'
  | 'r' => some '\x0d'
  | 'e' => some '\x1b'
  | ' ' => some ' '
  | '"' => some '"'
  | '/' => some '/'
  | '\\' => some '\\'
  | 'N' => some '\u0085'
  | '_' => some '\u00a0'
  | 'L' => some '\u2028'
  | 'P' => some '\u2029'
  | _ => none

/-- How many hexadecimal digits follow a letter after a backslash. -/
def escapeDigits? : Char → Option Nat
  | 'x' => some 2
  | 'u' => some 4
  | 'U' => some 8
  | _ => none

def hexDigits : Nat → Nat → List Char → Option (Nat × List Char)
  | 0, acc, cs => some (acc, cs)
  | n + 1, acc, c :: cs => do hexDigits n (acc * 16 + (← digitValue? c)) cs
  | _ + 1, _, [] => none

/-- An escape after its backslash, whose place is `m`. -/
def scanEscape (since : Mark) (cs : List Char) (m : Mark) : Except SyntaxError (Char × Cursor) :=
  match cs with
  | [] => failIn .escape since .unknownEscape m
  | c :: cs =>
    match escapeText? c with
    | some d => .ok (d, ⟨cs, m.skip 2⟩)
    | none =>
      match escapeDigits? c with
      | none => failIn .escape since .unknownEscape m
      | some n =>
        match hexDigits n 0 cs with
        | none => failIn .escape since .noHexNumber (m.skip 2)
        | some (v, rest) =>
          if (0xD800 ≤ v && v ≤ 0xDFFF) || 0x10FFFF < v then
            failIn .escape since .badCodePoint (m.skip 2)
          else .ok (Char.ofNat v, ⟨rest, m.skip (2 + n)⟩)

/-- The characters up to white space, the closing quote or an escaped break, which is then `true`. -/
def quotedWord (single : Bool) (since : Mark) :
    Nat → Cursor → Except SyntaxError ((List Char × Bool) × Cursor)
  | 0, c => failIn .quotedScalar since .unfinished c.mark
  | fuel + 1, c =>
    if atGap c.rest then .ok (([], false), c) else
      match c.rest with
      | [] => .ok (([], false), c)
      | d :: cs =>
        if single then
          if d == '\'' then
            if cs.head? = some '\'' then do
              let ((word, cut), c) ← quotedWord single since fuel (c.skip 2)
              .ok (('\'' :: word, cut), c)
            else .ok (([], false), c)
          else do
            let ((word, cut), c) ← quotedWord single since fuel (c.skip 1)
            .ok ((d :: word, cut), c)
        else if d == '"' then .ok (([], false), c)
        else if d == '\\' then
          if cs.head?.any isBreak then .ok (([], true), (c.skip 1).skipBreak)
          else do
            let (e, c) ← scanEscape since cs c.mark
            let ((word, cut), c) ← quotedWord single since fuel c
            .ok ((e :: word, cut), c)
        else do
          let ((word, cut), c) ← quotedWord single since fuel (c.skip 1)
          .ok ((d :: word, cut), c)

/-- The text up to the closing quote, and the cursor there; `fuel` bounds the number of words. -/
def quotedText (single : Bool) (since : Mark) :
    Nat → Cursor → List Char → Except SyntaxError (List Char × Cursor)
  | 0, c, _ => failIn .quotedScalar since .unfinished c.mark
  | fuel + 1, c, text =>
    if atDocumentMarker c then failIn .quotedScalar since .unexpectedMarker c.mark
    else if c.rest.isEmpty then failIn .quotedScalar since .unexpectedEnd c.mark
    else do
      let ((word, cut), c) ← quotedWord single since (c.rest.length + 1) c
      if c.rest.head? = some (if single then '\'' else '"') then .ok (text ++ word, c)
      else
        let (gap, c) ← scanFold since 0 c.rest c.mark (if cut then .escaped else .empty)
        quotedText single since fuel c (text ++ word ++ gap.text)

def scanQuoted (single : Bool) (c : Cursor) : Except SyntaxError (Located Token × Cursor) := do
  let (text, stop) ← quotedText single c.mark (c.rest.length + 1) (c.skip 1) []
  let stop := stop.skip 1
  .ok (⟨.scalar (String.ofList text) false, c.mark, stop.mark⟩, stop)

end YamlInclude.Yaml
