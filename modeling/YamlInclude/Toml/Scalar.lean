import YamlInclude.Toml.Basic
import YamlInclude.Number.Decimal

/-! # Scalars of TOML

Readers take the text that is left. When they stop they say where, and whether another reader may
still be tried.
-/

namespace YamlInclude.Toml

structure Stop where
  rest : List Char
  /-- Whether no other reading is possible. -/
  final : Bool

abbrev Reader (α : Type) := List Char → Except Stop (α × List Char)

/-- Stops where another reader may be tried. -/
def miss (rest : List Char) : Except Stop α := .error ⟨rest, false⟩

/-- Stops for good. -/
def halt (rest : List Char) : Except Stop α := .error ⟨rest, true⟩

/-- Makes every stop final. -/
def final (r : Except Stop α) : Except Stop α := r.mapError fun s => ⟨s.rest, true⟩

/-- The first reading, or the second one where the first one stopped and was not final. -/
def orElse (first second : Except Stop α) : Except Stop α :=
  match first with
  | .error ⟨_, false⟩ => second
  | r => r

def isSpace (c : Char) : Bool := c == ' ' || c == '\t'

def skipSpace (cs : List Char) : List Char := cs.dropWhile isSpace

/-- Characters that comments and strings can hold besides quotes and backslashes. -/
def isPlain (c : Char) : Bool := c == '\t' || (' ' ≤ c && c != '\x7f')

def newline? : List Char → Option (List Char)
  | '\n' :: r => some r
  | '\x0d' :: '\n' :: r => some r
  | _ => none

/-! ## Strings -/

def readCode (digits : Nat) (cs : List Char) : Except Stop (Char × List Char) :=
  let hex := (cs.take digits).takeWhile fun c => (digitValue? c).isSome
  match if hex.length = digits then readNatural? 16 hex else none with
  | some n => if n.isValidChar then .ok (Char.ofNat n, cs.drop digits) else halt cs
  | none => halt cs

def readEscape : List Char → Except Stop (Char × List Char)
  | [] => miss []
  | 'b' :: r => .ok ('\x08', r)
  | 'f' :: r => .ok ('\x0c', r)
  | 'n' :: r => .ok ('\n', r)
  | 'r' :: r => .ok ('\x0d', r)
  | 't' :: r => .ok ('\t', r)
  | 'u' :: r => readCode 4 r
  | 'U' :: r => readCode 8 r
  | '\\' :: r => .ok ('\\', r)
  | '"' :: r => .ok ('"', r)
  | _ :: r => halt r

/-- The rest of a string in double quotes; `fuel` bounds its length. -/
def readBasic : Nat → List Char → Except Stop (List Char × List Char)
  | 0, cs => halt cs
  | _ + 1, [] => halt []
  | fuel + 1, c :: cs =>
    if c = '"' then .ok ([], cs)
    else if c = '\\' then
      match readEscape cs with
      | .ok (d, r) => do
        let (ds, r) ← readBasic fuel r
        .ok (d :: ds, r)
      | .error ⟨r, true⟩ => halt r
      | .error ⟨_, false⟩ => halt (c :: cs)
    else if isPlain c then do
      let (ds, r) ← readBasic fuel cs
      .ok (c :: ds, r)
    else halt (c :: cs)

def readLiteral (cs : List Char) : Except Stop (List Char × List Char) :=
  let inner := cs.takeWhile fun c => isPlain c && c != '\''
  match cs.drop inner.length with
  | '\'' :: r => .ok (inner, r)
  | r => halt r

/-- What ends a string of several lines at a run of quotes: up to two of them may be text. -/
def closing (quote : Char) (cs : List Char) : Option (List Char × List Char) :=
  let run := (cs.takeWhile (· == quote)).length
  if run < 3 then none
  else some (List.replicate (min (run - 3) 2) quote, cs.drop (min run 5))

/-- Whether a run of quotes at the start of a text is followed by more of the string. -/
def continues (quote : Char) (cs : List Char) : Bool :=
  match cs.dropWhile (· == quote) with
  | [] => false
  | c :: r => isPlain c || (newline? (c :: r)).isSome

/-- The text after line breaks and spaces that a backslash at the end of a line takes away. -/
def skipBreaks : List Char → List Char
  | [] => []
  | '\x0d' :: '\n' :: cs => skipBreaks cs
  | c :: cs => if c = '\n' || isSpace c then skipBreaks cs else c :: cs

/-- The rest of a string of several lines in double quotes; `fuel` bounds its length. -/
def readBasicLines : Nat → List Char → Except Stop (List Char × List Char)
  | 0, cs => halt cs
  | _ + 1, [] => halt []
  | fuel + 1, c :: cs =>
    let add (d : Char) (r : List Char) := do
      let (ds, r) ← readBasicLines fuel r
      .ok (d :: ds, r)
    if c = '"' then
      match closing '"' (c :: cs) with
      | some (text, r) => .ok (text, r)
      | none => if continues '"' cs then add c cs else halt (c :: cs)
    else if c = '\\' then
      match newline? (skipSpace cs) with
      | some r => readBasicLines fuel (skipBreaks r)
      | none =>
        match readEscape cs with
        | .ok (d, r) => add d r
        | .error ⟨r, true⟩ => halt r
        | .error ⟨_, false⟩ => halt (c :: cs)
    else match newline? (c :: cs) with
      | some r => add '\n' r
      | none => if isPlain c then add c cs else halt (c :: cs)

/-- The rest of a string of several lines in single quotes; `fuel` bounds its length. -/
def readLiteralLines : Nat → List Char → Except Stop (List Char × List Char)
  | 0, cs => halt cs
  | _ + 1, [] => halt []
  | fuel + 1, c :: cs =>
    let add (d : Char) (r : List Char) := do
      let (ds, r) ← readLiteralLines fuel r
      .ok (d :: ds, r)
    if c = '\'' then
      match closing '\'' (c :: cs) with
      | some (text, r) => .ok (text, r)
      | none => if continues '\'' cs then add c cs else halt (c :: cs)
    else match newline? (c :: cs) with
      | some r => add '\n' r
      | none => if isPlain c then add c cs else halt (c :: cs)

/-- The text after a line break that opens a string of several lines. -/
def skipNewline (cs : List Char) : List Char := (newline? cs).getD cs

def readShortString (cs : List Char) : Except Stop (String × List Char) :=
  let result := match cs with
    | '"' :: r => readBasic (r.length + 1) r
    | '\'' :: r => readLiteral r
    | r => miss r
  result.map fun (s, r) => (String.ofList s, r)

def readString (cs : List Char) : Except Stop (String × List Char) :=
  match cs with
  | '"' :: '"' :: '"' :: r =>
    (readBasicLines (r.length + 1) (skipNewline r)).map fun (s, r) => (String.ofList s, r)
  | '\'' :: '\'' :: '\'' :: r =>
    (readLiteralLines (r.length + 1) (skipNewline r)).map fun (s, r) => (String.ofList s, r)
  | r => readShortString r

/-! ## Numbers -/

/-- The text after more digits, among which an underscore has to be followed by one. -/
def skipDigits (isDigit : Char → Bool) : List Char → Except Stop (List Char)
  | [] => .ok []
  | '_' :: d :: r => if isDigit d then skipDigits isDigit r else halt (d :: r)
  | ['_'] => halt []
  | c :: cs => if isDigit c then skipDigits isDigit cs else .ok (c :: cs)

def skipNatural (isDigit : Char → Bool) : List Char → Except Stop (List Char)
  | c :: cs => if isDigit c then skipDigits isDigit cs else miss (c :: cs)
  | [] => miss []

def skipSign : List Char → List Char
  | '+' :: r | '-' :: r => r
  | r => r

/-- The text after a decimal integer, in which no digit follows a zero at the start. -/
def skipInteger (cs : List Char) : Except Stop (List Char) :=
  match skipSign cs with
  | '0' :: r => .ok r
  | r => skipNatural Char.isDigit r

/-- What a reader passed over, without underscores. -/
def passed (cs rest : List Char) : List Char := (cs.take (cs.length - rest.length)).filter (· != '_')

/-- The integers that values can be. -/
def integerOf? (n : Int) : Option Int := if -0x8000000000000000 ≤ n ∧ n < 0x8000000000000000 then some n else none

def integerValue (cs : List Char) : Int :=
  match cs with
  | '-' :: ds => -(decimalValue ds : Int)
  | '+' :: ds => decimalValue ds
  | ds => decimalValue ds

def readRadix (radix : Nat) (whole cs : List Char) : Except Stop (Node × List Char) := do
  let rest ← final (skipNatural (fun c => (digitIn? radix c).isSome) cs)
  match (readNatural? radix (passed cs rest)).bind fun n => integerOf? n with
  | some n => .ok (.integer n, rest)
  | none => halt whole

def readInteger (cs : List Char) : Except Stop (Node × List Char) :=
  match cs with
  | '0' :: 'x' :: r => readRadix 16 cs r
  | '0' :: 'o' :: r => readRadix 8 cs r
  | '0' :: 'b' :: r => readRadix 2 cs r
  | _ => do
    let rest ← skipInteger cs
    match integerOf? (integerValue (passed cs rest)) with
    | some n => .ok (.integer n, rest)
    | none => halt cs

def skipExponent : List Char → Except Stop (List Char)
  | 'e' :: r | 'E' :: r => final (skipNatural Char.isDigit (skipSign r))
  | r => miss r

/-- The text after the part of a float that an integer does not have. -/
def skipFraction : List Char → Except Stop (List Char)
  | '.' :: r => do
    let r ← final (skipNatural Char.isDigit r)
    orElse (skipExponent r) (.ok r)
  | r => skipExponent r

def readSpecial (cs : List Char) : Except Stop (Node × List Char) :=
  match skipSign cs with
  | 'i' :: 'n' :: 'f' :: r => .ok (.float, r)
  | 'n' :: 'a' :: 'n' :: r => .ok (.float, r)
  | r => miss r

/-- A float; one that is too large is refused. -/
def readFloat (cs : List Char) : Except Stop (Node × List Char) :=
  let digits : Except Stop (Node × List Char) := do
    let rest ← skipFraction (← skipInteger cs)
    match Decimal.read? (passed cs rest) with
    | some d => if d.toBinary64.isInfinite && !d.negative then halt cs else .ok (.float, rest)
    | none => halt cs
  orElse digits (readSpecial cs)

/-! ## Dates and times -/

def readTwo (low high : Nat) (cs : List Char) : Except Stop (Nat × List Char) :=
  match cs with
  | c :: d :: r =>
    let n := decimalValue [c, d]
    if c.isDigit && d.isDigit && low ≤ n && n ≤ high then .ok (n, r) else miss cs
  | _ => miss cs

def skipChar (c : Char) (cs : List Char) : Except Stop (List Char) :=
  match cs with
  | d :: r => if d = c then .ok r else miss cs
  | [] => miss []

def isLeapYear (year : Nat) : Bool := (year % 4 == 0 && year % 100 != 0) || year % 400 == 0

def daysIn (year month : Nat) : Nat :=
  if month = 2 then if isLeapYear year then 29 else 28
  else if [4, 6, 9, 11].contains month then 30
  else 31

def skipDate (cs : List Char) : Except Stop (List Char) := do
  let year := cs.take 4
  if year.length < 4 || !year.all Char.isDigit then miss cs
  else
    let r ← skipChar '-' (cs.drop 4)
    let (month, r) ← final (readTwo 1 12 r)
    let r ← final (skipChar '-' r)
    let (day, rest) ← final (readTwo 1 31 r)
    if daysIn (decimalValue year) month < day then halt r else .ok rest

/-- The text after a fraction of a second, if there is one. -/
def skipSecondFraction (cs : List Char) : List Char :=
  match cs with
  | '.' :: c :: r => if c.isDigit then r.dropWhile Char.isDigit else cs
  | _ => cs

def skipTime (cs : List Char) : Except Stop (List Char) := do
  let (_, r) ← readTwo 0 23 cs
  let r ← skipChar ':' r
  final do
    let (_, r) ← readTwo 0 59 r
    let r ← skipChar ':' r
    let (_, r) ← readTwo 0 60 r
    .ok (skipSecondFraction r)

/-- The text after the distance of a time from that of Greenwich, if it is given. -/
def skipOffset (cs : List Char) : Except Stop (List Char) :=
  match cs with
  | 'Z' :: r | 'z' :: r => .ok r
  | '+' :: r | '-' :: r => final do
    let (_, r) ← readTwo 0 23 r
    let r ← skipChar ':' r
    let (_, r) ← readTwo 0 59 r
    .ok r
  | r => .ok r

/-- The text after the time that may follow a date. -/
def skipDateTime (cs : List Char) : Except Stop (List Char) :=
  match cs with
  | c :: r =>
    if c = 'T' ∨ c = 't' ∨ c = ' ' then
      match skipTime r with
      | .ok r => skipOffset r
      | .error ⟨r, true⟩ => halt r
      | .error ⟨_, false⟩ => .ok cs
    else .ok cs
  | [] => .ok []

def readDateTime (cs : List Char) : Except Stop (Node × List Char) := do
  let rest ← orElse (do skipDateTime (← skipDate cs)) (skipTime cs)
  .ok (.datetime, rest)

def readNumber (cs : List Char) : Except Stop (Node × List Char) :=
  orElse (readDateTime cs) (orElse (readFloat cs) (readInteger cs))

end YamlInclude.Toml
