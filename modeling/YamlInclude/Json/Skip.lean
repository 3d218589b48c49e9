import YamlInclude.Json.Parser

/-! # Passing over JSON values

A value that nobody asked for is passed over. Its brackets, names and numbers have to be in order, but
its depth, the size of its numbers and the codes of its characters are not looked at.
-/

namespace YamlInclude

namespace Json

/-- The text after the digits of an exponent, given the text after its letter. -/
def skipExponent (cs : List Char) : Except ReadError (List Char) :=
  let cs := match cs with
    | '+' :: r | '-' :: r => r
    | r => r
  match cs with
  | c :: r => if c.isDigit then .ok (r.dropWhile Char.isDigit) else failNext .invalidNumber cs
  | [] => failNext .invalidNumber []

def skipNumber (cs : List Char) : Except ReadError (List Char) :=
  match cs with
  | [] => failNext .invalidNumber []
  | c :: r =>
    if !c.isDigit then failNext .invalidNumber cs
    else
      let rest := if c = '0' then r else r.dropWhile Char.isDigit
      match rest with
      | '.' :: r =>
        match r.dropWhile Char.isDigit with
        | 'e' :: s | 'E' :: s => if r.head?.all (!·.isDigit) then failNext .invalidNumber r else skipExponent s
        | s => if r.head?.all (!·.isDigit) then failNext .invalidNumber r else .ok s
      | 'e' :: r | 'E' :: r => skipExponent r
      | d :: _ => if c = '0' ∧ d.isDigit then failNext .invalidNumber rest else .ok rest
      | [] => .ok []

/-- The text after a string whose opening quote was read; `fuel` bounds its length. -/
def skipChars : Nat → List Char → Except ReadError (List Char)
  | 0, cs => failAt .endInString cs
  | _ + 1, [] => failAt .endInString []
  | fuel + 1, c :: cs =>
    if c = '"' then .ok cs
    else if c = '\\' then
      match cs with
      | [] => failAt .endInString []
      | 'u' :: r => do
        let (_, r) ← readHex r
        skipChars fuel r
      | d :: r =>
        if ['"', '\\', '/', 'b', 'f', 'n', 'r', 't'].contains d then skipChars fuel r
        else failNext .invalidEscape (d :: r)
    else if c.toNat < 32 then failAt .controlCharacter (c :: cs)
    else skipChars fuel cs

/-- A collection that is not closed yet. -/
inductive OpenCollection where
  | list | object

namespace OpenCollection

def closing : OpenCollection → Char
  | list => ']'
  | object => '\x7d'

def endFault : OpenCollection → Fault
  | list => .endInList
  | object => .endInObject

def expected : OpenCollection → Fault
  | list => .expectedListEnd
  | object => .expectedObjectEnd

/-- The text from where the next value of a collection begins; members have their names before. -/
def skipName : OpenCollection → List Char → Except ReadError (List Char)
  | list, cs => .ok cs
  | object, cs =>
    match skipSpace cs with
    | [] => failNext .endInObject []
    | '"' :: r => do readColon (← skipChars (r.length + 1) r)
    | r => failNext .keyNotString r

end OpenCollection

/-- Goes on after a value inside collections, the innermost one first. Nothing is given where all of
them end, otherwise the collections that are still open and the text of the next value. -/
def skipClosings : List OpenCollection → List Char →
    Except ReadError (List OpenCollection × List Char)
  | [], cs => .ok ([], cs)
  | f :: fs, cs =>
    match skipSpace cs with
    | [] => failNext f.endFault []
    | c :: r =>
      if c = ',' then do .ok (f :: fs, ← f.skipName r)
      else if c = f.closing then skipClosings fs r
      else failNext f.expected (c :: r)

def skipOpening (f : OpenCollection) (fs : List OpenCollection) (cs : List Char) :
    Except ReadError (List OpenCollection × List Char) :=
  match skipSpace cs with
  | [] => failNext f.endFault []
  | c :: r =>
    if c = f.closing then skipClosings fs r
    else do .ok (f :: fs, ← f.skipName (c :: r))

/-- The text after a value inside collections; `fuel` bounds the number of values. -/
def skipWithin : Nat → List OpenCollection → List Char → Except ReadError (List Char)
  | 0, _, cs => failNext .endInValue cs
  | fuel + 1, fs, cs => do
    let (fs, rest) ← match skipSpace cs with
      | [] => failNext .endInValue []
      | 'n' :: r => do skipClosings fs (← readWord ['u', 'l', 'l'] r)
      | 't' :: r => do skipClosings fs (← readWord ['r', 'u', 'e'] r)
      | 'f' :: r => do skipClosings fs (← readWord ['a', 'l', 's', 'e'] r)
      | '"' :: r => do skipClosings fs (← skipChars (r.length + 1) r)
      | '-' :: r => do skipClosings fs (← skipNumber r)
      | '[' :: r => skipOpening .list fs r
      | '\x7b' :: r => skipOpening .object fs r
      | c :: r =>
        if c.isDigit then do skipClosings fs (← skipNumber (c :: r)) else failNext .expectedValue (c :: r)
    match fs with
    | [] => .ok rest
    | fs => skipWithin fuel fs rest

def skipValue (cs : List Char) : Except ReadError (List Char) := skipWithin (cs.length + 1) [] cs

end Json

end YamlInclude
