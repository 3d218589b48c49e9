import YamlInclude.Yaml.Token.Plain
import YamlInclude.Yaml.Token.Quoted
import YamlInclude.Yaml.Token.Block
import YamlInclude.Yaml.Token.Directive

/-! # The tokens of a text

Indentation opens and closes blocks, and a scalar is known to be a key only when its colon is seen,
so tokens wait while the first of them may still turn out to be a key.
-/

namespace YamlInclude.Yaml

/-- A token that may be a key: its number among all tokens, its place, and whether it has to be one. -/
structure KeyCandidate where
  token : Nat
  mark : Mark
  required : Bool

/-- A text that is read into tokens. `keys` holds a candidate for each flow level, the innermost first. -/
structure Scanner where
  cursor : Cursor
  indent : Int
  outer : List Int
  keyAllowed : Bool
  keys : List (Option KeyCandidate)
  released : Nat
  waiting : List (Located Token)
  finished : Bool

namespace Scanner

def start (text : List Char) : Scanner := ⟨⟨text, .start⟩, -1, [], true, [none], 0, [], false⟩

def inFlow (s : Scanner) : Bool := 1 < s.keys.length

def mark (s : Scanner) : Mark := s.cursor.mark

def push (s : Scanner) (t : Located Token) : Scanner := { s with waiting := s.waiting ++ [t] }

/-- A token that takes up no text. -/
def pushHere (s : Scanner) (t : Token) : Scanner := s.push ⟨t, s.mark, s.mark⟩

/-- A token of `n` characters. -/
def pushIndicator (s : Scanner) (t : Token) (n : Nat) : Scanner :=
  let after := s.cursor.skip n
  { s.push ⟨t, s.mark, after.mark⟩ with cursor := after }

/-- A candidate that stands on an earlier line, or more than 1024 characters back. -/
def isStale (m : Mark) (k : KeyCandidate) : Bool := k.mark.line < m.line || k.mark.index + 1024 < m.index

/-- Gives up the candidates that are too far back; one that had to be a key is a problem. -/
def dropStaleKeys (s : Scanner) : Except SyntaxError Scanner :=
  let stale (k : Option KeyCandidate) : Bool := k.any (isStale s.mark)
  match s.keys.reverse.find? fun k => stale k && k.any (·.required) with
  | some (some k) => failIn .simpleKey k.mark .noColon s.mark
  | _ => .ok { s with keys := s.keys.map fun k => if stale k then none else k }

/-- Gives up the innermost candidate. -/
def dropKey (s : Scanner) : Except SyntaxError Scanner :=
  match s.keys with
  | some k :: rest =>
    if k.required then failIn .simpleKey k.mark .noColon s.mark
    else .ok { s with keys := none :: rest }
  | _ => .ok s

/-- Takes the next token as a candidate, if one may stand here. -/
def saveKey (s : Scanner) : Except SyntaxError Scanner :=
  if !s.keyAllowed then .ok s else do
    let s' ← s.dropKey
    let required := !s.inFlow && s.indent == (s.mark.column : Int)
    .ok { s' with keys := some ⟨s.released + s.waiting.length, s.mark, required⟩ :: s'.keys.drop 1 }

/-- Opens a block at `column` if it is deeper than the current one. -/
def openBlock (s : Scanner) (column : Nat) (t : Token) (m : Mark) (position : Option Nat) : Scanner :=
  if s.inFlow || (column : Int) ≤ s.indent then s else
    let waiting := match position with
      | none => s.waiting ++ [⟨t, m, m⟩]
      | some n => s.waiting.insertIdx (n - s.released) ⟨t, m, m⟩
    { s with indent := column, outer := s.indent :: s.outer, waiting }

def closeBlocks (s : Scanner) (column : Int) : Scanner :=
  if s.inFlow then s else
    let rec go (indent : Int) : List Int → List (Located Token) → Int × List Int × List (Located Token)
      | [], acc => (indent, [], acc)
      | i :: is, acc =>
        if column < indent then go i is (acc ++ [⟨.blockEnd, s.mark, s.mark⟩]) else (indent, i :: is, acc)
    let (indent, outer, waiting) := go s.indent s.outer s.waiting
    { s with indent, outer, waiting }

/-- The cursor after a byte order mark at the start of a line. -/
def skipByteOrderMark (c : Cursor) : Cursor :=
  if c.mark.column = 0 ∧ c.rest.head? = some '\ufeff' then c.skip 1 else c

/-- Blanks, comments and line breaks before the next token; a new line of a block may hold a key. -/
def skipToToken : Nat → Scanner → Scanner
  | 0, s => s
  | fuel + 1, s =>
    let tabs := s.inFlow || !s.keyAllowed
    let c := skipByteOrderMark s.cursor
    let c := (c.skipWhile fun c => c == ' ' || (tabs && c == '\t')).skipComment
    if c.rest.head?.any isBreak then
      skipToToken fuel { s with cursor := c.skipBreak, keyAllowed := s.keyAllowed || !s.inFlow }
    else { s with cursor := c }

def fetchStreamEnd (s : Scanner) : Except SyntaxError Scanner := do
  let m := s.mark
  let m := if m.column = 0 then m else ⟨m.index, m.line + 1, 0⟩
  let s ← ({ s with cursor := ⟨[], m⟩ }.closeBlocks (-1)).dropKey
  .ok { s.pushHere .streamEnd with keyAllowed := false, finished := true }

def fetchDirective (s : Scanner) : Except SyntaxError Scanner := do
  let s ← (s.closeBlocks (-1)).dropKey
  let (t, c) ← scanDirective s.cursor
  .ok { s.push t with cursor := c, keyAllowed := false }

def fetchDocumentMarker (s : Scanner) (t : Token) : Except SyntaxError Scanner := do
  let s ← (s.closeBlocks (-1)).dropKey
  .ok { s.pushIndicator t 3 with keyAllowed := false }

def fetchFlowStart (s : Scanner) (t : Token) : Except SyntaxError Scanner := do
  let s ← s.saveKey
  .ok { s.pushIndicator t 1 with keys := none :: s.keys, keyAllowed := true }

def fetchFlowEnd (s : Scanner) (t : Token) : Except SyntaxError Scanner := do
  let s ← s.dropKey
  let keys := if s.inFlow then s.keys.drop 1 else s.keys
  .ok { s.pushIndicator t 1 with keys, keyAllowed := false }

def fetchFlowEntry (s : Scanner) : Except SyntaxError Scanner := do
  let s ← s.dropKey
  .ok { s.pushIndicator .flowEntry 1 with keyAllowed := true }

/-- A problem without a construct that it belongs to. -/
def fail (s : Scanner) (p : Problem) : Except SyntaxError α := .error ⟨p, s.mark, none, 0⟩

def fetchBlockEntry (s : Scanner) : Except SyntaxError Scanner := do
  if !s.inFlow && !s.keyAllowed then s.fail .sequenceNotAllowed
  else
    let s ← (s.openBlock s.mark.column .blockSequenceStart s.mark none).dropKey
    .ok { s.pushIndicator .blockEntry 1 with keyAllowed := true }

def fetchKey (s : Scanner) : Except SyntaxError Scanner := do
  if !s.inFlow && !s.keyAllowed then s.fail .keyNotAllowed
  else
    let s ← (s.openBlock s.mark.column .blockMappingStart s.mark none).dropKey
    .ok { s.pushIndicator .key 1 with keyAllowed := !s.inFlow }

def fetchValue (s : Scanner) : Except SyntaxError Scanner :=
  match s.keys with
  | some k :: rest =>
    let s := { s with
      waiting := s.waiting.insertIdx (k.token - s.released) ⟨.key, k.mark, k.mark⟩
      keys := none :: rest }
    let s := s.openBlock k.mark.column .blockMappingStart k.mark (some k.token)
    .ok { s.pushIndicator .value 1 with keyAllowed := false }
  | _ =>
    if !s.inFlow && !s.keyAllowed then s.fail .valueNotAllowed
    else
      let s := s.openBlock s.mark.column .blockMappingStart s.mark none
      .ok { s.pushIndicator .value 1 with keyAllowed := !s.inFlow }

/-- A token that may be a key, read by `scan`. -/
def fetchNode (s : Scanner) (scan : Cursor → Except SyntaxError (Located Token × Cursor)) :
    Except SyntaxError Scanner := do
  let s ← s.saveKey
  let (t, c) ← scan s.cursor
  .ok { s.push t with cursor := c, keyAllowed := false }

def fetchBlockScalar (s : Scanner) (literal : Bool) : Except SyntaxError Scanner := do
  let s ← s.dropKey
  let (t, c) ← scanBlock literal s.indent s.cursor
  .ok { s.push t with cursor := c, keyAllowed := true }

def fetchPlain (s : Scanner) : Except SyntaxError Scanner := do
  let s ← s.saveKey
  let (t, c, broken) ← scanPlain s.inFlow (s.indent + 1) s.cursor
  .ok { s.push t with cursor := c, keyAllowed := broken }

def isIndicator (c : Char) : Bool :=
  ['-', '?', ':', ',', '[', ']', '\x7b', '\x7d', '#', '&', '*', '!', '|', '>', '\'', '"', '%', '@',
    '\x60'].contains c

def startsPlain (flow : Bool) : List Char → Bool
  | [] => false
  | c :: cs =>
    !(isBreak c || isBlankChar c || isIndicator c) ||
      (c == '-' && !cs.head?.any isBlankChar) ||
      (!flow && (c == '?' || c == ':') && !atGap cs)

/-- Goes to the next token and closes the blocks that end there before it. -/
def settle (s : Scanner) : Except SyntaxError Scanner := do
  let s ← (skipToToken (s.cursor.rest.length + 1) s).dropStaleKeys
  .ok (s.closeBlocks s.mark.column)

/-- Reads the token that begins with the characters `c` and `cs` here. -/
def fetchHere (s : Scanner) (c : Char) (cs : List Char) : Except SyntaxError Scanner :=
  let flow := s.inFlow
  let atStart := s.mark.column == 0
  if atStart && c == '%' then s.fetchDirective
  else if atStart && atMarker '-' (c :: cs) then s.fetchDocumentMarker .documentStart
  else if atStart && atMarker '.' (c :: cs) then s.fetchDocumentMarker .documentEnd
  else if c == '[' then s.fetchFlowStart .flowSequenceStart
  else if c == '\x7b' then s.fetchFlowStart .flowMappingStart
  else if c == ']' then s.fetchFlowEnd .flowSequenceEnd
  else if c == '\x7d' then s.fetchFlowEnd .flowMappingEnd
  else if c == ',' then s.fetchFlowEntry
  else if c == '-' && atGap cs then s.fetchBlockEntry
  else if c == '?' && (flow || atGap cs) then s.fetchKey
  else if c == ':' && (flow || atGap cs) then s.fetchValue
  else if c == '*' then s.fetchNode scanAlias
  else if c == '&' then s.fetchNode scanAnchor
  else if c == '!' then s.fetchNode (scanTag flow)
  else if c == '|' && !flow then s.fetchBlockScalar true
  else if c == '>' && !flow then s.fetchBlockScalar false
  else if c == '\'' then s.fetchNode (scanQuoted true)
  else if c == '"' then s.fetchNode (scanQuoted false)
  else if startsPlain flow (c :: cs) then s.fetchPlain
  else failIn .nextToken s.mark .noTokenStart s.mark

/-- Reads the next token, or closes what is open at the end of the text. -/
def fetch (s : Scanner) : Except SyntaxError Scanner := do
  let s ← s.settle
  match s.cursor.rest with
  | [] => s.fetchStreamEnd
  | c :: cs => s.fetchHere c cs

/-- Whether the first waiting token may still turn out to be a key. -/
def firstMayBeKey (s : Scanner) : Bool := s.keys.any fun k => k.any (·.token == s.released)

/-- Releases tokens one by one, reading on whenever none can be released; `fuel` bounds the steps. -/
def run : Nat → Scanner → List (Located Token) × Option SyntaxError
  | 0, s => ([], some ⟨.unfinished, s.mark, none, 0⟩)
  | fuel + 1, s =>
    match s.waiting with
    | [] =>
      if s.finished then ([], none) else
        match s.fetch with
        | .error e => ([], some e)
        | .ok s => run fuel s
    | t :: ts =>
      match s.dropStaleKeys with
      | .error e => ([], some e)
      | .ok s =>
        if s.firstMayBeKey && !s.finished then
          match s.fetch with
          | .error e => ([], some e)
          | .ok s => run fuel s
        else
          let (rest, e) := run fuel { s with waiting := ts, released := s.released + 1 }
          (t :: rest, e)

end Scanner

/-- The first character that a text must not hold, as an error. -/
def controlCharacter? : List Char → Nat → Option SyntaxError
  | [], _ => none
  | c :: cs, offset =>
    if isAllowed c then controlCharacter? cs (offset + c.utf8Size)
    else some ⟨.controlCharacter, .start, none, offset⟩

/-- The tokens of a text up to its end, or up to the first syntax error among them. -/
def tokens (text : List Char) : List (Located Token) × Option SyntaxError :=
  match controlCharacter? text 0 with
  | some e => ([], some e)
  | none => Scanner.run (8 * text.length + 16) (Scanner.start text)

end YamlInclude.Yaml
