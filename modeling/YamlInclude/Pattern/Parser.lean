import YamlInclude.Pattern.Basic
import YamlInclude.Pattern.Property
import YamlInclude.Number.Decimal

/-! # Reading patterns

Readers take the text that is left and return what they read with the text after it, or nothing if
the text is no pattern.
-/

namespace YamlInclude

structure PatternFlags where
  ignoreCase : Bool
  multiLine : Bool
  dotMatchesBreak : Bool
  wideBreaks : Bool
  verbose : Bool
  unicode : Bool

namespace PatternFlags

def initial : PatternFlags := ⟨false, false, false, false, false, true⟩

def set? (f : PatternFlags) (letter : Char) (on : Bool) : Option PatternFlags :=
  match letter with
  | 'i' => some { f with ignoreCase := on }
  | 'm' => some { f with multiLine := on }
  | 's' => some { f with dotMatchesBreak := on }
  | 'R' => some { f with wideBreaks := on }
  | 'x' => some { f with verbose := on }
  | 'u' => some { f with unicode := on }
  | 'U' => some f
  | _ => none

def skipComments : Bool → List Char → List Char
  | _, [] => []
  | true, c :: cs => skipComments (c != '\n') cs
  | false, c :: cs =>
    if isBlank c then skipComments false cs
    else if c = '#' then skipComments true cs
    else c :: cs

/-- The text after what does not count. -/
def skip (f : PatternFlags) (cs : List Char) : List Char :=
  if f.verbose then skipComments false cs else cs

/-- The class with the letters that differ from its own in letter case, where case does not count. -/
def fold (f : PatternFlags) (c : CharClass) : CharClass :=
  if f.ignoreCase then .folded (!f.unicode) c else c

/-- A class, which may hold ASCII characters only where bytes are matched. -/
def permit (f : PatternFlags) (c : CharClass) : Option CharClass :=
  if !f.unicode && c.leavesAscii then none else some c

end PatternFlags

namespace PatternReader

/-- What a pattern is made of where it has no structure. -/
inductive Primitive where
  | char (c : Char)
  /-- A character that is written as a byte. -/
  | byte (c : Char)
  | chars (c : CharClass)
  | look (ascii : Bool) (l : Look)

def isMeta (c : Char) : Bool :=
  ['\\', '.', '+', '*', '?', '(', ')', '|', '[', ']', '\x7b', '\x7d', '^', '$', '#', '&', '-', '~'].contains c

/-- Whether a backslash before a character makes that character. -/
def isEscapable (c : Char) : Bool :=
  isMeta c || (c.toNat < 128 && !c.isAlphanum && c != '<' && c != '>')

def charOf? (n : Nat) : Option Char := if n.isValidChar then some (Char.ofNat n) else none

def readFixedHex (f : PatternFlags) : Nat → Nat → List Char → Option (Nat × List Char)
  | 0, value, cs => some (value, cs)
  | count + 1, value, cs =>
    match f.skip cs with
    | c :: r => do readFixedHex f count (value * 16 + (← digitValue? c)) r
    | [] => none

def readBracedHex (f : PatternFlags) (any : Bool) (value : Nat) : List Char → Option (Nat × List Char)
  | [] => none
  | c :: cs =>
    if f.verbose && isBlank c then readBracedHex f any value cs
    else if c = '\x7d' then if any then some (value, cs) else none
    else match digitValue? c with
      | some d => readBracedHex f true (value * 16 + d) cs
      | none => none

def readCode (f : PatternFlags) (digits : Nat) (cs : List Char) : Option (Primitive × List Char) :=
  match f.skip cs with
  | '\x7b' :: r => do
    let (n, r) ← readBracedHex f false 0 r
    some (.char (← charOf? n), r)
  | r => do
    let (n, r) ← readFixedHex f digits 0 r
    let c ← charOf? n
    some (if digits = 2 then .byte c else .char c, r)

/-- The names in `name`, `name=value`, `name:value` or `name!=value`, and whether the sign negates. -/
def splitProperty (cs : List Char) : List Char × Option (List Char) × Bool :=
  let before := cs.takeWhile fun c => c != '=' && c != ':'
  match cs.drop before.length with
  | [] => (cs, none, false)
  | c :: value =>
    if c = '=' ∧ before.getLast? = some '!' then (before.dropLast, some value, true)
    else (before, some value, false)

def readProperty (f : PatternFlags) (negative : Bool) (cs : List Char) : Option (Primitive × List Char) := do
  let (name, rest) ← match f.skip cs with
    | [] => none
    | '\x7b' :: r =>
      match r.dropWhile (· != '\x7d') with
      | _ :: rest => some (r.takeWhile (· != '\x7d'), rest)
      | [] => none
    | c :: r => if c = '\\' then none else some ([c], r)
  let (name, value, reversed) := splitProperty name
  let c ← match value with
    | none => CharClass.property? name
    | some v => CharClass.propertyValue? name v
  if !f.unicode then none
  else
    let c := f.fold c
    some (.chars (if negative != reversed then .negated c else c), rest)

/-- A class named by a letter, whose capital negates it. -/
def letterClass (f : PatternFlags) (negative : Bool) (unicode ascii : CharClass) : Option CharClass :=
  let c := if f.unicode then unicode else ascii
  f.permit (if negative then .negated c else c)

/-- The name of a kind of word boundary in braces, if the text is not the count of a repetition. -/
def readBoundaryName (f : PatternFlags) (cs : List Char) : Option (Option Look × List Char) :=
  let isNameChar (c : Char) : Bool := c.isAlpha || c == '-'
  match cs with
  | '\x7b' :: r =>
    match f.skip r with
    | [] => none
    | c :: r =>
      if !isNameChar c then some (none, cs)
      else
        let r := c :: r
        match f.skip (r.dropWhile isNameChar) with
        | '\x7d' :: rest =>
          match String.ofList (r.takeWhile isNameChar) with
          | "start" => some (some .wordStart, rest)
          | "end" => some (some .wordEnd, rest)
          | "start-half" => some (some .wordStartHalf, rest)
          | "end-half" => some (some .wordEndHalf, rest)
          | _ => none
        | _ => none
  | _ => some (none, cs)

def readEscape (f : PatternFlags) : List Char → Option (Primitive × List Char)
  | [] => none
  | c :: cs =>
    let ascii := !f.unicode
    match c with
    | 'x' => readCode f 2 cs
    | 'u' => readCode f 4 cs
    | 'U' => readCode f 8 cs
    | 'p' => readProperty f false cs
    | 'P' => readProperty f true cs
    | 'd' => do some (.chars (← letterClass f false .digit .asciiDigit), cs)
    | 'D' => do some (.chars (← letterClass f true .digit .asciiDigit), cs)
    | 's' => do some (.chars (← letterClass f false .space .asciiSpace), cs)
    | 'S' => do some (.chars (← letterClass f true .space .asciiSpace), cs)
    | 'w' => do some (.chars (← letterClass f false .word .asciiWord), cs)
    | 'W' => do some (.chars (← letterClass f true .word .asciiWord), cs)
    | 'a' => some (.char '\x07', cs)
    | 'f' => some (.char '\x0c', cs)
    | 't' => some (.char '\t', cs)
    | 'n' => some (.char '\n', cs)
    | 'r' => some (.char '\x0d', cs)
    | 'v' => some (.char '\x0b', cs)
    | 'A' => some (.look ascii .textStart, cs)
    | 'z' => some (.look ascii .textEnd, cs)
    | 'B' => some (.look ascii .notWordBoundary, cs)
    | '<' => some (.look ascii .wordStart, cs)
    | '>' => some (.look ascii .wordEnd, cs)
    | 'b' => do
      let (l, cs) ← readBoundaryName f cs
      some (.look ascii (l.getD .wordBoundary), cs)
    | _ => if isEscapable c then some (.char c, cs) else none

/-! ## Classes in brackets -/

def Primitive.char? (f : PatternFlags) : Primitive → Option Char
  | char c => if !f.unicode && 127 < c.toNat then none else some c
  | byte c => some c
  | _ => none

def Primitive.class? (f : PatternFlags) : Primitive → Option CharClass
  | chars c => some c
  | p => (p.char? f).map .single

def readItem (f : PatternFlags) : List Char → Option (Primitive × List Char)
  | [] => none
  | '\\' :: cs => readEscape f cs
  | c :: cs => some (.char c, cs)

def readRange (f : PatternFlags) (cs : List Char) : Option (CharClass × List Char) := do
  let (first, cs) ← readItem f cs
  match f.skip cs with
  | [] => none
  | '-' :: r =>
    match f.skip r with
    | [] => none
    | c :: after =>
      if c = ']' ∨ c = '-' then some (← first.class? f, '-' :: r)
      else
        let (last, r) ← readItem f (c :: after)
        let low ← first.char? f
        let high ← last.char? f
        if low ≤ high then some (.range low high, r) else none
  | r => some (← first.class? f, r)

/-- The name of a class between colons and brackets, after its opening bracket. -/
def readNamed? (f : PatternFlags) : List Char → Option (CharClass × List Char)
  | ':' :: cs =>
    let (negative, cs) := match cs with
      | '^' :: r => (true, r)
      | r => (false, r)
    match cs.dropWhile (· != ':') with
    | ':' :: ']' :: rest => do
      let c := f.fold (← CharClass.named? (cs.takeWhile (· != ':')))
      some (if negative then .negated c else c, rest)
    | _ => none
  | _ => none

inductive SetOperation where
  | intersection | difference | symmetricDifference

def SetOperation.apply : SetOperation → CharClass → CharClass → CharClass
  | intersection => .both
  | difference => .difference
  | symmetricDifference => .symmetricDifference

/-- The class of the items that were read, after the operation that waits for them. -/
def closeItems (f : PatternFlags) (waiting : Option (SetOperation × CharClass)) (items : List CharClass) :
    CharClass :=
  let c := CharClass.anyOf items
  match waiting with
  | some (op, left) => op.apply left (f.fold c)
  | none => c

/-- The hyphens at the start of a class, which stand for themselves. -/
def readHyphens (f : PatternFlags) : Nat → List CharClass → List Char → List CharClass × List Char
  | 0, items, cs => (items, cs)
  | n + 1, items, cs =>
    match cs with
    | '-' :: r => readHyphens f n (.single '-' :: items) (f.skip r)
    | _ => (items, cs)

/-- The start of a class after its bracket: whether it is negated, and its first characters, among
which hyphens and then one closing bracket stand for themselves. -/
def openClass (f : PatternFlags) (cs : List Char) : Bool × List CharClass × List Char :=
  let (negative, cs) := match f.skip cs with
    | '^' :: r => (true, f.skip r)
    | r => (false, r)
  let (items, cs) := readHyphens f cs.length [] cs
  match items, cs with
  | [], ']' :: r => (negative, [.single ']'], f.skip r)
  | _, _ => (negative, items, cs)

def closeClass (f : PatternFlags) (negative : Bool) (c : CharClass) : Option CharClass :=
  let c := f.fold c
  f.permit (if negative then .negated c else c)

def readItems (f : PatternFlags) : Nat → Option (SetOperation × CharClass) → List CharClass →
    List Char → Option (CharClass × List Char)
  | 0, _, _, _ => none
  | fuel + 1, waiting, items, cs =>
    let operate (op : SetOperation) (r : List Char) :=
      readItems f fuel (some (op, f.fold (closeItems f waiting items))) [] r
    let single (cs : List Char) := do
      let (c, r) ← readRange f cs
      readItems f fuel waiting (c :: items) r
    match f.skip cs with
    | [] => none
    | ']' :: r => some (closeItems f waiting items, r)
    | '[' :: r =>
      match readNamed? f r with
      | some (c, r) => do readItems f fuel waiting ((← f.permit c) :: items) r
      | none => do
        let (negative, inner, r) := openClass f r
        let (c, r) ← readItems f fuel none inner r
        readItems f fuel waiting ((← closeClass f negative c) :: items) r
    | '&' :: '&' :: r => operate .intersection r
    | '-' :: '-' :: r => operate .difference r
    | '~' :: '~' :: r => operate .symmetricDifference r
    | r => single r

def readClass (f : PatternFlags) (cs : List Char) : Option (CharClass × List Char) := do
  let (negative, items, cs) := openClass f cs
  let (c, cs) ← readItems f (cs.length + 1) none items cs
  some (← closeClass f negative c, cs)

/-! ## Repetitions -/

def maxCount : Nat := 4294967295

def readCount (f : PatternFlags) (cs : List Char) : Option (Option Nat × List Char) :=
  let cs := f.skip (Blank.trimStart cs)
  let digits := cs.takeWhile fun c => c.isDigit || (f.verbose && isBlank c)
  let rest := f.skip (Blank.trimStart (cs.drop digits.length))
  match digits.filter Char.isDigit with
  | [] => some (none, rest)
  | ds =>
    let n := decimalValue ds
    if n ≤ maxCount then some (some n, rest) else none

def readBounds (f : PatternFlags) (cs : List Char) : Option (Nat × Option Nat × List Char) := do
  let (least, r) ← readCount f (f.skip cs)
  let least ← least
  match r with
  | ',' :: r =>
    match f.skip r with
    | '\x7d' :: r => some (least, none, r)
    | r =>
      let (most, r) ← readCount f r
      let most ← most
      match r with
      | '\x7d' :: r => if least ≤ most then some (least, some most, r) else none
      | _ => none
  | '\x7d' :: r => some (least, some least, r)
  | _ => none

/-- The text after a mark that asks for a match as short as possible, which makes no difference to
whether there is one. -/
def skipLazy : List Char → List Char
  | '?' :: r => r
  | r => r

/-! ## Groups -/

/-- How a group begins: with switches for the rest of the group around it, or with switches of its own. -/
inductive GroupStart where
  | switches (f : PatternFlags)
  | inner (name : Option (List Char)) (f : PatternFlags)

/-- Switches up to the end of their list: `seen` are those before, and `open_` says that a minus sign
stands last. -/
def readFlags (f : PatternFlags) (seen : List Char) (negative open_ : Bool) :
    List Char → Option (PatternFlags × List Char)
  | [] => none
  | c :: cs =>
    if c = ':' ∨ c = ')' then if open_ then none else some (f, c :: cs)
    else if c = '-' then if negative then none else readFlags f seen true true cs
    else if seen.contains c then none
    else match f.set? c !negative with
      | some f => readFlags f (c :: seen) negative false cs
      | none => none

/-- Whether a name may hold a character, at its start or later. -/
def isNameChar (first : Bool) (c : Char) : Bool :=
  let g := GeneralCategory.of c
  let alphabetic := g.isLetter || g == .nl || isEnclosedLetter c
  if first then c == '_' || alphabetic
  else c == '_' || c == '.' || c == '[' || c == ']' || alphabetic || g == .nd || g == .no

def readName (cs : List Char) : Option (List Char × List Char) :=
  let name := cs.takeWhile (· != '>')
  match name, cs.drop name.length with
  | c :: more, _ :: rest =>
    if isNameChar true c && more.all (isNameChar false) then some (name, rest) else none
  | _, _ => none

def readGroupStart (f : PatternFlags) (cs : List Char) : Option (GroupStart × List Char) :=
  let named (r : List Char) := (readName r).map fun (n, r) => (GroupStart.inner (some n) f, r)
  match f.skip cs with
  | '?' :: '=' :: _ | '?' :: '!' :: _ | '?' :: '<' :: '=' :: _ | '?' :: '<' :: '!' :: _ => none
  | '?' :: 'P' :: '<' :: r => named r
  | '?' :: '<' :: r => named r
  | '?' :: r => do
    let (g, after) ← readFlags f [] false false r
    match after with
    | ':' :: rest => some (.inner none g, rest)
    | _ :: rest => if r.head? = some ')' then none else some (.switches g, rest)
    | [] => none
  | r => some (.inner none f, r)

/-! ## Patterns -/

def concatOf (reversed : List PatternNode) : PatternNode :=
  match reversed with
  | [] => .empty
  | [n] => n
  | ns => .concat ns.reverse

def alternationOf (reversed : List PatternNode) (last : PatternNode) : PatternNode :=
  match reversed with
  | [] => last
  | ns => .alternation (ns.reverse ++ [last])

/-- The node of a primitive. -/
def nodeOf (f : PatternFlags) : Primitive → Option PatternNode
  | .char c => some (.chars (if f.unicode || c.toNat < 128 then f.fold (.single c) else .single c))
  | .byte c => if !f.unicode && 127 < c.toNat then none else some (.chars (f.fold (.single c)))
  | .chars c => some (.chars c)
  | .look ascii l => some (.look ascii l)

def dot (f : PatternFlags) : Option PatternNode :=
  if !f.unicode then none
  else if f.dotMatchesBreak then some (.chars .all)
  else if f.wideBreaks then some (.chars (.negated (.either (.single '\n') (.single '\x0d'))))
  else some (.chars (.negated (.single '\n')))

def lineStart (f : PatternFlags) : Look :=
  if !f.multiLine then .textStart else if f.wideBreaks then .wideLineStart else .lineStart

def lineEnd (f : PatternFlags) : Look :=
  if !f.multiLine then .textEnd else if f.wideBreaks then .wideLineEnd else .lineEnd

/-- The parts with the last one repeated, if there is one that can be. -/
def repeatLast (least : Nat) (most : Option Nat) : List PatternNode → Option (List PatternNode)
  | [] | .empty :: _ => none
  | n :: ns => some (.repetition least most n :: ns)

/-- A pattern up to the end of the text or a closing parenthesis. The branches and the parts of the
last branch that were read come last first. -/
def readBranches : Nat → PatternFlags → List PatternNode → List PatternNode → List Char →
    Option (PatternNode × List Char)
  | 0, _, _, _, _ => none
  | fuel + 1, f, branches, parts, cs =>
    let again (least : Nat) (most : Option Nat) (r : List Char) := do
      readBranches fuel f branches (← repeatLast least most parts) (skipLazy r)
    let add (n : Option PatternNode) (r : List Char) := do
      readBranches fuel f branches ((← n) :: parts) r
    let done := alternationOf branches (concatOf parts)
    match f.skip cs with
    | [] => some (done, [])
    | ')' :: r => some (done, ')' :: r)
    | '|' :: r => readBranches fuel f (concatOf parts :: branches) [] r
    | '(' :: r => do
      match ← readGroupStart f r with
      | (.switches g, r) => readBranches fuel g branches (.empty :: parts) r
      | (.inner name g, r) =>
        let (inner, r) ← readBranches fuel g [] [] r
        match r with
        | ')' :: r => add (some (.group name inner)) r
        | _ => none
    | '[' :: r => do
      let (c, r) ← readClass f r
      add (some (.chars c)) r
    | '?' :: r => again 0 (some 1) r
    | '*' :: r => again 0 none r
    | '+' :: r => again 1 none r
    | '\x7b' :: r => do
      let (least, most, r) ← readBounds f r
      again least most (f.skip r)
    | '\\' :: r => do
      let (p, r) ← readEscape f r
      add (nodeOf f p) r
    | '.' :: r => add (dot f) r
    | '^' :: r => add (some (.look false (lineStart f))) r
    | '$' :: r => add (some (.look false (lineEnd f))) r
    | c :: r => add (nodeOf f (.char c)) r

end PatternReader

inductive PatternFault where
  | malformed | tooLarge
  deriving DecidableEq, Repr

namespace PatternFault

def message : PatternFault → String
  | malformed => "regex parse error:"
  | tooLarge => "Compiled regex exceeds size limit of 10485760 bytes."

end PatternFault

namespace Pattern

def maxDepth : Nat := 250

def maxSize : Nat := 327680

def parse (text : String) : Except PatternFault Pattern :=
  let cs := text.toList
  match PatternReader.readBranches (cs.length + 1) .initial [] [] cs with
  | some (node, []) =>
    if maxDepth < node.depth || !node.groupNames.Nodup then .error .malformed
    else if maxSize < node.size then .error .tooLarge
    else .ok ⟨text, node⟩
  | _ => .error .malformed

end Pattern

end YamlInclude
