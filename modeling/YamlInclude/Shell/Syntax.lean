/-! # Shell scripts

The part of the shell language that tag programs are written in: simple commands with quotes,
parameters, command substitutions and redirections, in pipelines and lists. Scripts write no files: what is
sent to one is dropped.
-/

namespace YamlInclude.Shell

/-- A part of a word. What stands in quotes is never split. -/
inductive Piece where
  | text (cs : List Char)
  | literal (cs : List Char)
  | parameter (inQuotes : Bool) (name : List Char)
  | output (inQuotes : Bool) (script : List Char)
  deriving DecidableEq, Repr

abbrev Word := List Piece

inductive Redirection where
  | outputToErrors
  | errorsToOutput
  | dropOutput
  | dropErrors
  | noInput
  deriving DecidableEq, Repr

structure Command where
  line : Nat
  assignments : List (List Char × Word)
  words : List Word
  redirections : List Redirection
  deriving DecidableEq, Repr

/-- When a pipeline runs after the one before it. -/
inductive Joint where
  | always | onSuccess | onFailure
  deriving DecidableEq, Repr

structure Clause where
  joint : Joint
  pipeline : List Command
  deriving DecidableEq, Repr

/-! ## Words -/

def isNameStart (c : Char) : Bool := c.isAlpha || c == '_'

def isNameChar (c : Char) : Bool := c.isAlphanum || c == '_'

def isBreak (c : Char) : Bool := [' ', '\t', '\n', ';', '&', '|', '<', '>', '(', ')'].contains c

def readNested : Nat → List Char → Option (List Char × List Char)
  | _, [] => none
  | depth, c :: cs =>
    if c = ')' ∧ depth = 0 then some ([], cs)
    else
      let depth := if c = '(' then depth + 1 else if c = ')' then depth - 1 else depth
      (readNested depth cs).map fun (s, r) => (c :: s, r)

def readDollar (inQuotes : Bool) (cs : List Char) : Option (Piece × List Char) :=
  match cs with
  | '\x7b' :: r =>
    match r.dropWhile (· != '\x7d') with
    | _ :: rest => some (.parameter inQuotes (r.takeWhile (· != '\x7d')), rest)
    | [] => none
  | '(' :: r => (readNested 0 r).map fun (s, rest) => (.output inQuotes s, rest)
  | c :: r =>
    if isNameStart c then some (.parameter inQuotes (cs.takeWhile isNameChar), cs.dropWhile isNameChar)
    else if c.isDigit || ['@', '*', '#', '?', '$', '!', '-'].contains c then
      some (.parameter inQuotes [c], r)
    else some (.literal ['$'], cs)
  | [] => some (.literal ['$'], [])

def readBackquoted (inQuotes : Bool) (cs : List Char) : Option (Piece × List Char) :=
  match cs.dropWhile (·.toNat != 0x60) with
  | _ :: rest => some (.output inQuotes (cs.takeWhile (·.toNat != 0x60)), rest)
  | [] => none

/-- The rest of a text in double quotes; `fuel` bounds its length. -/
def readDouble : Nat → List Char → Option (List Piece × List Char)
  | 0, _ | _, [] => none
  | fuel + 1, c :: cs =>
    let add (p : Piece) (r : List Char) := (readDouble fuel r).map fun (ps, r) => (p :: ps, r)
    if c = '"' then some ([], cs)
    else if c = '\\' then
      match cs with
      | '\n' :: r => readDouble fuel r
      | d :: r =>
        if d = '$' ∨ d = '"' ∨ d = '\\' ∨ d.toNat = 0x60 then add (.literal [d]) r
        else add (.literal ['\\', d]) r
      | [] => none
    else if c = '$' then do
      let (p, r) ← readDollar true cs
      add p r
    else if c.toNat = 0x60 then do
      let (p, r) ← readBackquoted true cs
      add p r
    else add (.literal [c]) cs

/-- A word up to what ends it; `fuel` bounds its length. -/
def readWord : Nat → List Char → Option (Word × List Char)
  | 0, cs => some ([], cs)
  | _, [] => some ([], [])
  | fuel + 1, c :: cs =>
    let add (ps : List Piece) (r : List Char) := (readWord fuel r).map fun (qs, r) => (ps ++ qs, r)
    if isBreak c then some ([], c :: cs)
    else if c = '\'' then
      match cs.dropWhile (· != '\'') with
      | _ :: r => add [.literal (cs.takeWhile (· != '\''))] r
      | [] => none
    else if c = '"' then do
      let (ps, r) ← readDouble (cs.length + 1) cs
      add (.literal [] :: ps) r
    else if c = '\\' then
      match cs with
      | '\n' :: r => add [] r
      | d :: r => add [.literal [d]] r
      | [] => some ([.text ['\\']], [])
    else if c = '$' then do
      let (p, r) ← readDollar false cs
      add [p] r
    else if c.toNat = 0x60 then do
      let (p, r) ← readBackquoted false cs
      add [p] r
    else add [.text [c]] cs

/-! ## Commands -/

/-- The text after blanks, joined lines and a comment; `fuel` bounds their number. -/
def skipBlanks : Nat → List Char → List Char
  | 0, cs => cs
  | fuel + 1, cs =>
    match cs with
    | ' ' :: r | '\t' :: r | '\\' :: '\n' :: r => skipBlanks fuel r
    | '#' :: r => r.dropWhile (· != '\n')
    | _ => cs

def plainText (w : Word) : List Char :=
  w.flatMap fun
    | .text cs | .literal cs => cs
    | _ => []

/-- A redirection of the output or the errors to another place, by the word after the sign. Every file is a
place where it is dropped. -/
def redirectTo (errors : Bool) (target : Word) : Redirection :=
  match errors, plainText target with
  | false, ['&', '2'] => .outputToErrors
  | true, ['&', '1'] => .errorsToOutput
  | false, _ => .dropOutput
  | true, _ => .dropErrors

/-- The place that a redirection names after its sign; a descriptor keeps its sign. -/
def readTarget (cs : List Char) : Option (Word × List Char) :=
  match cs with
  | '&' :: r => (readWord (r.length + 1) r).map fun (w, r) => (.text ['&'] :: w, r)
  | r =>
    let r := skipBlanks r.length r
    readWord (r.length + 1) r

/-- A redirection at the start of a text, if there is one. -/
def readRedirection? (cs : List Char) : Option (Option (Redirection × List Char)) :=
  let output (errors : Bool) (r : List Char) :=
    let r := match r with
      | '>' :: r => r
      | r => r
    some ((readTarget r).map fun (w, rest) => (redirectTo errors w, rest))
  match cs with
  | '1' :: '>' :: r | '>' :: r => output false r
  | '2' :: '>' :: r => output true r
  | '0' :: '<' :: r | '<' :: r => some ((readTarget r).map fun (_, rest) => (.noInput, rest))
  | _ => none

def assignment? (w : Word) : Option (List Char × Word) :=
  let head := w.takeWhile fun
    | .text cs => cs != ['=']
    | _ => false
  match w.drop head.length with
  | .text ['='] :: value =>
    match plainText head with
    | c :: cs => if isNameStart c && cs.all isNameChar then some (c :: cs, value) else none
    | [] => none
  | _ => none

/-- A simple command up to what ends it; `fuel` bounds the number of its parts. -/
def readCommand (line : Nat) : Nat → Command → List Char → Option (Command × List Char)
  | 0, c, cs => some (c, cs)
  | fuel + 1, c, cs =>
    match skipBlanks cs.length cs with
    | [] => some (c, [])
    | cs =>
      match readRedirection? cs with
      | some none => none
      | some (some (r, rest)) => readCommand line fuel { c with redirections := c.redirections ++ [r] } rest
      | none =>
        if cs.head?.any isBreak then some (c, cs)
        else do
          let (w, rest) ← readWord (cs.length + 1) cs
          match if c.words.isEmpty then assignment? w else none with
          | some a => readCommand line fuel { c with assignments := c.assignments ++ [a] } rest
          | none => readCommand line fuel { c with words := c.words ++ [w] } rest

/-- Commands joined by bars; `fuel` bounds their number. -/
def readPipeline (line : Nat) : Nat → List Char → Option (List Command × List Char)
  | 0, _ => none
  | fuel + 1, cs => do
    let (c, rest) ← readCommand line (cs.length + 1) ⟨line, [], [], []⟩ cs
    match rest with
    | '|' :: '|' :: _ => some ([c], rest)
    | '|' :: r => do
      let (more, r) ← readPipeline line fuel r
      some (c :: more, r)
    | _ => some ([c], rest)

/-- The clauses of a script, and the line of the one that cannot be read if there is one. -/
def readClauses (lines : Nat) (joint : Joint) : Nat → List Char → List Clause × Option Nat
  | 0, cs => ([], some (lines - cs.count '\n'))
  | fuel + 1, cs =>
    let line := lines - cs.count '\n'
    match readPipeline line (cs.length + 1) cs with
    | none => ([], some line)
    | some (commands, rest) =>
      let next (nextJoint : Joint) (r : List Char) :=
        let (clauses, stop) := readClauses lines nextJoint fuel r
        ((⟨joint, commands⟩ : Clause) :: clauses, stop)
      match rest with
      | [] => ([⟨joint, commands⟩], none)
      | '&' :: '&' :: r => next .onSuccess r
      | '|' :: '|' :: r => next .onFailure r
      | ';' :: r | '\n' :: r | '&' :: r => next .always r
      | _ => ([⟨joint, commands⟩], some line)

def parse (script : List Char) : List Clause × Option Nat :=
  readClauses (script.count '\n' + 1) .always (script.length + 1) script

end YamlInclude.Shell
