import YamlInclude.Yaml.Token.Basic
import YamlInclude.Number.Decimal
import YamlInclude.Text.Utf8

/-! # Anchors, aliases and tags

A tag is a handle and a suffix, or a whole URI between angle brackets. A per cent sign in it begins
the octets of one character, which are taken as they are: what a URI gives is octets, and it ends before a
zero.
-/

namespace YamlInclude.Yaml

/-- Characters that may follow an anchor name at once. -/
def endsName : List Char → Bool
  | [] => true
  | c :: cs => atGap (c :: cs) || ['?', ':', ',', ']', '\x7d', '%', '@', '\x60'].contains c

def scanName (context : Context) (c : Cursor) : Except SyntaxError (String × Cursor) :=
  let after := (c.skip 1).skipWhile isNameChar
  let name := (c.skip 1).rest.takeWhile isNameChar
  if name.isEmpty || !endsName after.rest then failIn context c.mark .noAlphanumeric after.mark
  else .ok (String.ofList name, after)

def scanAnchor (c : Cursor) : Except SyntaxError (Located Token × Cursor) := do
  let (name, after) ← scanName .anchor c
  .ok (⟨.anchor name, c.mark, after.mark⟩, after)

def scanAlias (c : Cursor) : Except SyntaxError (Located Token × Cursor) := do
  let (name, after) ← scanName .alias c
  .ok (⟨.alias name, c.mark, after.mark⟩, after)

/-- How many octets a leading octet announces. -/
def octetCount (n : Nat) : Nat :=
  if n < 0x80 then 1
  else if 0xC0 ≤ n && n < 0xE0 then 2
  else if 0xE0 ≤ n && n < 0xF0 then 3
  else if 0xF0 ≤ n && n < 0xF8 then 4
  else 0

def octet? : List Char → Option Nat
  | '%' :: a :: b :: _ => do return (← digitValue? a) * 16 + (← digitValue? b)
  | _ => none

def trailingOctets (context : Context) (since : Mark) :
    Nat → Cursor → Except SyntaxError (List UInt8 × Cursor)
  | 0, c => .ok ([], c)
  | n + 1, c =>
    match octet? c.rest with
    | none => failIn context since .noUriEscape c.mark
    | some o =>
      if o / 64 != 2 then failIn context since .badTrailingOctet c.mark
      else do
        let (os, c) ← trailingOctets context since n (c.skip 3)
        .ok (o.toUInt8 :: os, c)

/-- A character written as octets. That they are the UTF-8 of a character is not looked at. -/
def scanOctets (context : Context) (since : Mark) (c : Cursor) : Except SyntaxError (List UInt8 × Cursor) :=
  match octet? c.rest with
  | none => failIn context since .noUriEscape c.mark
  | some o =>
    match octetCount o with
    | 0 => failIn context since .badLeadingOctet c.mark
    | n + 1 => do
      let (os, c) ← trailingOctets context since n (c.skip 3)
      .ok (o.toUInt8 :: os, c)

/-- Characters of a tag; flow indicators only inside angle brackets and directives. -/
def isUriChar (whole : Bool) (c : Char) : Bool :=
  isNameChar c ||
    [';', '/', '?', ':', '@', '&', '=', '+', '$', '.', '%', '!', '~',
      '*', '\'', '(', ')'].contains c ||
    (whole && (c == ',' || c == '[' || c == ']'))

/-- The octets of the characters of a tag from here; `fuel` bounds their number. -/
def uriOctets (whole : Bool) (context : Context) (since : Mark) :
    Nat → Cursor → Except SyntaxError (List UInt8 × Cursor)
  | 0, c => failIn context since .unfinished c.mark
  | fuel + 1, c =>
    match c.rest with
    | [] => .ok ([], c)
    | d :: _ =>
      if !isUriChar whole d then .ok ([], c)
      else if d == '%' then do
        let (os, c) ← scanOctets context since c
        let (rest, c) ← uriOctets whole context since fuel c
        .ok (os ++ rest, c)
      else do
        let (rest, c) ← uriOctets whole context since fuel (c.skip 1)
        .ok (Utf8.encodeChar d ++ rest, c)

/-- A tag or its suffix; it may be written empty only after a head other than nothing. -/
def scanUri (whole directive : Bool) (head : List Char) (since : Mark) (c : Cursor) :
    Except SyntaxError (List UInt8 × Cursor) := do
  let context := if directive then Context.directiveUri else .tagUri
  let (os, after) ← uriOctets whole context since (c.rest.length + 1) c
  if head.isEmpty && os.isEmpty then failIn context since .noTagUri after.mark
  else .ok ((Utf8.encode (head.drop 1) ++ os).takeWhile (· != 0), after)

/-- `!`, name characters and perhaps another `!`. -/
def scanHandle (directive : Bool) (since : Mark) (c : Cursor) :
    Except SyntaxError (List Char × Cursor) :=
  if c.rest.head? != some '!' then
    failIn (if directive then .tagHandle else .tag) since .noExclamation c.mark
  else
    let name := (c.skip 1).rest.takeWhile isNameChar
    let after := (c.skip 1).skipWhile isNameChar
    if after.rest.head? = some '!' then .ok ('!' :: (name ++ ['!']), after.skip 1)
    else if directive && !name.isEmpty then failIn .openTagHandle since .noExclamation after.mark
    else .ok ('!' :: name, after)

/-- The handle and the suffix of a tag: `!<uri>`, `!handle!suffix`, `!suffix` or `!`. -/
def scanTagName (since : Mark) (c : Cursor) : Except SyntaxError ((List Char × List UInt8) × Cursor) :=
  if c.rest[1]? = some '<' then do
    let (suffix, after) ← scanUri true false [] since (c.skip 2)
    if after.rest.head? != some '>' then failIn .tag since .noClosingAngle after.mark
    else .ok (([], suffix), after.skip 1)
  else do
    let (handle, after) ← scanHandle false since c
    if 1 < handle.length && handle.getLast? = some '!' then
      let (suffix, after) ← scanUri false false [] since after
      .ok ((handle, suffix), after)
    else
      let (suffix, after) ← scanUri false false handle since after
      .ok (if suffix.isEmpty then ([], Utf8.encode ['!']) else (['!'], suffix), after)

/-- A tag, which must end at a gap. -/
def scanTag (flow : Bool) (c : Cursor) : Except SyntaxError (Located Token × Cursor) := do
  let ((handle, suffix), after) ← scanTagName c.mark c
  if atGap after.rest || (flow && after.rest.head? = some ',') then
    .ok (⟨.tag (String.ofList handle) suffix, c.mark, after.mark⟩, after)
  else failIn .tag c.mark .noSpaceOrBreak after.mark

end YamlInclude.Yaml
