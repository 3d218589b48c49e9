import YamlInclude.Json.Basic
import YamlInclude.Text.Quoted

/-! # Reading JSON text

Readers take the text that is left and return a value with the text after it. An error keeps the
text that was left where it arose, and the bytes of it that were already looked at, from which its
line and column follow. Nesting is limited to a depth that the caller gives.
-/

namespace YamlInclude

namespace Json

inductive Fault where
  | endInList | endInObject | endInString | endInValue
  | expectedColon | expectedListEnd | expectedObjectEnd | expectedIdent | expectedValue
  | invalidEscape | invalidNumber | numberOutOfRange | controlCharacter | keyNotString
  | loneSurrogate | unexpectedEndOfEscape | trailingComma | trailingCharacters | tooDeep
  | missingField (name : String)
  | duplicateField (name : String)
  | invalidType (found expected : String)
  | invalidLength (count : Nat) (expected : String)
  deriving DecidableEq, Repr

namespace Fault

def message : Fault → String
  | endInList => "EOF while parsing a list"
  | endInObject => "EOF while parsing an object"
  | endInString => "EOF while parsing a string"
  | endInValue => "EOF while parsing a value"
  | expectedColon => "expected `:`"
  | expectedListEnd => "expected `,` or `]`"
  | expectedObjectEnd => "expected `,` or `\x7d`"
  | expectedIdent => "expected ident"
  | expectedValue => "expected value"
  | invalidEscape => "invalid escape"
  | invalidNumber => "invalid number"
  | numberOutOfRange => "number out of range"
  | controlCharacter => "control character (\\u0000-\\u001F) found while parsing a string"
  | keyNotString => "key must be a string"
  | loneSurrogate => "lone leading surrogate in hex escape"
  | unexpectedEndOfEscape => "unexpected end of hex escape"
  | trailingComma => "trailing comma"
  | trailingCharacters => "trailing characters"
  | tooDeep => "recursion limit exceeded"
  | missingField name => "missing field `" ++ name ++ "`"
  | duplicateField name => "duplicate field `" ++ name ++ "`"
  | invalidType found expected => "invalid type: " ++ found ++ ", expected " ++ expected
  | invalidLength count expected => "invalid length " ++ toString count ++ ", expected " ++ expected

end Fault

/-- A fault with the text left where it arose, and how many bytes of that text count as read. -/
structure ReadError where
  fault : Fault
  rest : List Char
  ahead : Nat
  deriving DecidableEq, Repr

abbrev Reader (α : Type) := List Char → Except ReadError (α × List Char)

/-- A fault of what was read last. -/
def failAt (fault : Fault) (rest : List Char) : Except ReadError α := .error ⟨fault, rest, 0⟩

/-- A fault of the next byte. -/
def failNext (fault : Fault) (rest : List Char) : Except ReadError α := .error ⟨fault, rest, 1⟩

def byteLength (cs : List Char) : Nat := cs.foldl (fun n c => n + c.utf8Size) 0

/-- Line and column after `bytes` bytes of a text, both counted in bytes. -/
def lineColumn : List Char → Nat → Nat → Nat → Nat × Nat
  | [], _, line, column => (line, column)
  | c :: cs, bytes, line, column =>
    if bytes = 0 then (line, column)
    else if c = '\n' then lineColumn cs (bytes - 1) (line + 1) 0
    else lineColumn cs (bytes - c.utf8Size) line (column + min bytes c.utf8Size)

def ReadError.message (e : ReadError) (text : List Char) : String :=
  let bytes := byteLength text - byteLength e.rest + e.ahead
  let (line, column) := lineColumn text bytes 1 0
  e.fault.message ++ " at line " ++ toString line ++ " column " ++ toString column

def isSpace (c : Char) : Bool := c == ' ' || c == '\n' || c == '\t' || c == '\x0d'

/-- The text from its first character that is not JSON white space. -/
def skipSpace (cs : List Char) : List Char := cs.dropWhile isSpace

def readWord : List Char → List Char → Except ReadError (List Char)
  | [], cs => .ok cs
  | _ :: _, [] => failAt .endInValue []
  | w :: ws, c :: cs => if c = w then readWord ws cs else failNext .expectedIdent (c :: cs)

/-! ## Numbers -/

/-- Digits of the significand that still fit into 64 bits, and how many digits came after them. -/
structure Significand where
  value : Nat
  overflow : Nat

/-- The value of a run of digits, as far as it fits into 64 bits. -/
def Significand.push (s : Significand) (c : Char) : Significand :=
  let v := s.value * 10 + (c.toNat - '0'.toNat)
  if s.overflow = 0 ∧ v < 0x10000000000000000 then ⟨v, 0⟩ else ⟨s.value, s.overflow + 1⟩

def Significand.pushAll (s : Significand) (cs : List Char) : Significand := cs.foldl push s

/-- The number `value * 10 ^ e`: the value is rounded first and scaled by an exact power of ten. -/
def scaled (negative : Bool) (value : Nat) (e : Int) : Option Binary64 :=
  let start := Binary64.nearest false value 1
  let power (k : Nat) : Binary64 := (Decimal.mk false 1 k).toBinary64
  let rec shrink (x : Binary64) (k : Nat) : Nat → Binary64
    | 0 => Binary64.zero false
    | steps + 1 =>
      if k ≤ 308 then x.div (power k)
      else if x.isZero then x
      else shrink (x.div (power 308)) (k - 308) steps
  let result? : Option Binary64 :=
    if 0 ≤ e then
      if e ≤ 308 then
        let y := start.mul (power e.toNat)
        if y.isInfinite then none else some y
      else if start.isZero then some start else none
    else some (shrink start (-e).toNat 8)
  result?.map fun y => if negative then y.neg else y

/-- The largest exponent that is counted. -/
def exponentBound : Nat := 0x7FFFFFFF

/-- The text after the digit with which an exponent passes the bound. -/
def afterBound (n : Nat) : List Char → List Char
  | [] => []
  | c :: cs =>
    let m := n * 10 + (c.toNat - '0'.toNat)
    if exponentBound < m then cs else afterBound m cs

/-- The exponent after its letter, added to `e`. -/
def readExponent (negative : Bool) (value : Nat) (e : Int) (cs : List Char) :
    Except ReadError (Number × List Char) :=
  let (down, cs) := match cs with
    | '+' :: r => (false, r)
    | '-' :: r => (true, r)
    | r => (false, r)
  match cs with
  | [] => failAt .endInValue []
  | c :: _ =>
    if !c.isDigit then failNext .invalidNumber cs else
      let digits := cs.takeWhile Char.isDigit
      let rest := cs.dropWhile Char.isDigit
      let n := decimalValue digits
      if exponentBound < n then
        if value != 0 && !down then failAt .numberOutOfRange (afterBound 0 cs)
        else .ok (.float (Binary64.zero negative), rest)
      else match scaled negative value (if down then e - n else e + n) with
        | some x => .ok (.float x, rest)
        | none => failAt .numberOutOfRange rest

/-- A float whose digits before the point, or before the exponent, were read. -/
def finishFloat (negative : Bool) (value : Nat) (e : Int) (cs : List Char) :
    Except ReadError (Number × List Char) :=
  match cs with
  | 'e' :: r | 'E' :: r => readExponent negative value e r
  | _ => match scaled negative value e with
    | some x => .ok (.float x, cs)
    | none => failAt .numberOutOfRange cs

def readFraction (negative : Bool) (s : Significand) (cs : List Char) :
    Except ReadError (Number × List Char) :=
  let digits := cs.takeWhile Char.isDigit
  let rest := cs.dropWhile Char.isDigit
  let t := (Significand.mk s.value 0).pushAll digits
  let used := digits.length - t.overflow
  if digits.isEmpty then
    match rest with
    | [] => failNext .endInValue []
    | _ => failNext .invalidNumber rest
  else finishFloat negative t.value ((s.overflow : Int) - used) rest

/-- An integer in 64 bits, or a float when it does not fit or is a negative zero. -/
def integerOf (negative : Bool) (value : Nat) : Number :=
  match WideInt.ofInt? (if negative then -(value : Int) else value) with
  | some n => if negative && value = 0 then .float (Binary64.zero true) else .int n
  | none => .float (Binary64.nearest negative value 1)

def readUnsigned (negative : Bool) (cs : List Char) : Except ReadError (Number × List Char) :=
  match cs with
  | [] => failAt .endInValue []
  | c :: after =>
    if !c.isDigit then failNext .invalidNumber cs else
      let digits := cs.takeWhile Char.isDigit
      let rest := cs.dropWhile Char.isDigit
      if c = '0' ∧ 1 < digits.length then failNext .invalidNumber after else
        let s := (Significand.mk 0 0).pushAll digits
        match rest with
        | '.' :: r => readFraction negative s r
        | 'e' :: r | 'E' :: r => readExponent negative s.value s.overflow r
        | _ =>
          if s.overflow = 0 then .ok (integerOf negative s.value, rest)
          else finishFloat negative s.value s.overflow rest

def readNumber (cs : List Char) : Except ReadError (Number × List Char) :=
  match cs with
  | '-' :: r => readUnsigned true r
  | r => readUnsigned false r

/-! ## Strings -/

def readHex (cs : List Char) : Except ReadError (Nat × List Char) :=
  if byteLength cs < 4 then failAt .endInString [] else
    match cs with
    | a :: b :: c :: d :: rest =>
      match digitValue? a, digitValue? b, digitValue? c, digitValue? d with
      | some a, some b, some c, some d => .ok (((a * 16 + b) * 16 + c) * 16 + d, rest)
      | _, _, _, _ => .error ⟨.invalidEscape, cs, 4⟩
    | _ => .error ⟨.invalidEscape, cs, 4⟩

/-- The second of two surrogate escapes, after the number of the first one. -/
def readLowSurrogate (high : Nat) (cs : List Char) : Except ReadError (Char × List Char) :=
  match cs with
  | [] => failAt .endInString []
  | c :: cs =>
    if c != '\\' then .error ⟨.unexpectedEndOfEscape, c :: cs, 1⟩ else
      match cs with
      | [] => failAt .endInString []
      | c :: cs =>
        if c != 'u' then .error ⟨.unexpectedEndOfEscape, c :: cs, 1⟩ else do
          let (low, cs) ← readHex cs
          if low < 0xDC00 || 0xDFFF < low then failAt .loneSurrogate cs
          else .ok (Char.ofNat ((high - 0xD800) * 1024 + (low - 0xDC00) + 0x10000), cs)

def readCode (cs : List Char) : Except ReadError (Char × List Char) := do
  let (n, cs) ← readHex cs
  if 0xDC00 ≤ n && n ≤ 0xDFFF then failAt .loneSurrogate cs
  else if n < 0xD800 || 0xDBFF < n then .ok (Char.ofNat n, cs)
  else readLowSurrogate n cs

def readEscape (cs : List Char) : Except ReadError (Char × List Char) :=
  match cs with
  | [] => failAt .endInString []
  | '"' :: r => .ok ('"', r)
  | '\\' :: r => .ok ('\\', r)
  | '/' :: r => .ok ('/', r)
  | 'b' :: r => .ok ('\x08', r)
  | 'f' :: r => .ok ('\x0c', r)
  | 'n' :: r => .ok ('\n', r)
  | 'r' :: r => .ok ('\x0d', r)
  | 't' :: r => .ok ('\t', r)
  | 'u' :: r => readCode r
  | r => failNext .invalidEscape r

/-- The characters of a string up to its closing quote; `fuel` bounds how many. -/
def readChars : Nat → List Char → Except ReadError (List Char × List Char)
  | 0, cs => failAt .endInString cs
  | _ + 1, [] => failAt .endInString []
  | fuel + 1, c :: cs =>
    if c = '"' then .ok ([], cs)
    else if c = '\\' then do
      let (d, cs) ← readEscape cs
      let (ds, cs) ← readChars fuel cs
      .ok (d :: ds, cs)
    else if c.toNat < 32 then failAt .controlCharacter cs
    else do
      let (ds, cs) ← readChars fuel cs
      .ok (c :: ds, cs)

def readString (cs : List Char) : Except ReadError (String × List Char) := do
  let (ds, cs) ← readChars (cs.length + 1) cs
  .ok (String.ofList ds, cs)

/-! ## Lists and objects -/

/-- Whether another item follows in a list, whose closing bracket is left in place. -/
def nextItem (first : Bool) (cs : List Char) : Except ReadError (Option (List Char)) :=
  match skipSpace cs with
  | [] => failNext .endInList []
  | ']' :: _ => .ok none
  | c :: r =>
    if first then .ok (some (c :: r))
    else if c != ',' then failNext .expectedListEnd (c :: r) else
      match skipSpace r with
      | [] => failNext .endInValue []
      | ']' :: r => failNext .trailingComma (']' :: r)
      | r => .ok (some r)

/-- Whether another member follows in an object: the text after the quote that opens its name. -/
def nextMember (first : Bool) (cs : List Char) : Except ReadError (Option (List Char)) :=
  match skipSpace cs with
  | [] => failNext .endInObject []
  | '\x7d' :: _ => .ok none
  | c :: r =>
    if first then
      if c = '"' then .ok (some r) else failNext .keyNotString (c :: r)
    else if c != ',' then failNext .expectedObjectEnd (c :: r) else
      match skipSpace r with
      | [] => failNext .endInValue []
      | '"' :: r => .ok (some r)
      | '\x7d' :: r => failNext .trailingComma ('\x7d' :: r)
      | r => failNext .keyNotString r

def readColon (cs : List Char) : Except ReadError (List Char) :=
  match skipSpace cs with
  | [] => failNext .endInObject []
  | ':' :: r => .ok r
  | r => failNext .expectedColon r

def endList (cs : List Char) : Except ReadError (List Char) :=
  match skipSpace cs with
  | [] => failNext .endInList []
  | ']' :: r => .ok r
  | ',' :: r =>
    match skipSpace r with
    | ']' :: r => failNext .trailingComma (']' :: r)
    | r => failNext .trailingCharacters r
  | r => failNext .trailingCharacters r

def endObject (cs : List Char) : Except ReadError (List Char) :=
  match skipSpace cs with
  | [] => failNext .endInObject []
  | '\x7d' :: r => .ok r
  | ',' :: r => failNext .trailingComma (',' :: r)
  | r => failNext .trailingCharacters r

/-- The items of a list up to its closing bracket; `fuel` bounds their number. -/
def readItems (one : Reader Json) (first : Bool) : Nat → List Char →
    Except ReadError (List Json × List Char)
  | 0, cs => failAt .endInList cs
  | fuel + 1, cs => do
    match ← nextItem first cs with
    | none => .ok ([], cs)
    | some cs =>
      let (v, cs) ← one cs
      let (vs, cs) ← readItems one false fuel cs
      .ok (v :: vs, cs)

/-- The members of an object up to its closing brace; `fuel` bounds their number. -/
def readMembers (one : Reader Json) (first : Bool) : Nat → List Char →
    Except ReadError (List (String × Json) × List Char)
  | 0, cs => failAt .endInObject cs
  | fuel + 1, cs => do
    match ← nextMember first cs with
    | none => .ok ([], cs)
    | some cs =>
      let (k, cs) ← readString cs
      let cs ← readColon cs
      let (v, cs) ← one cs
      let (ms, cs) ← readMembers one false fuel cs
      .ok ((k, v) :: ms, cs)

/-- A value whose lists and objects nest less than `depth` deep. -/
def readValue : Nat → Reader Json
  | 0, cs => failNext .tooDeep (skipSpace cs)
  | depth + 1, cs =>
    match skipSpace cs with
    | [] => failNext .endInValue []
    | 'n' :: r => do .ok (null, ← readWord ['u', 'l', 'l'] r)
    | 't' :: r => do .ok (bool true, ← readWord ['r', 'u', 'e'] r)
    | 'f' :: r => do .ok (bool false, ← readWord ['a', 'l', 's', 'e'] r)
    | '"' :: r => do
      let (s, r) ← readString r
      .ok (string s, r)
    | '[' :: r => do
      if depth = 0 then failNext .tooDeep ('[' :: r) else
        let (vs, r) ← readItems (readValue depth) true (r.length + 1) r
        .ok (array vs, ← endList r)
    | '\x7b' :: r => do
      if depth = 0 then failNext .tooDeep ('\x7b' :: r) else
        let (ms, r) ← readMembers (readValue depth) true (r.length + 1) r
        .ok (ofMembers ms, ← endObject r)
    | c :: r =>
      if c = '-' ∨ c.isDigit then do
        let (n, r) ← readNumber (c :: r)
        .ok (number n, r)
      else failNext .expectedValue (c :: r)

/-- Nothing but white space may follow the value of a text. -/
def readEnd (cs : List Char) : Except ReadError Unit :=
  match skipSpace cs with
  | [] => .ok ()
  | r => failNext .trailingCharacters r

def depthLimit : Nat := 128

def parse (depth : Nat) (text : List Char) : Except ReadError Json := do
  let (v, rest) ← readValue depth text
  readEnd rest
  .ok v

end Json

end YamlInclude
