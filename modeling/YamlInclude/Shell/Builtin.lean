import YamlInclude.Shell.Syntax
import YamlInclude.Text.Utf8
import YamlInclude.Number.Decimal

/-! # Commands of the shell itself

Texts are bytes. A command reads from the input of the shell and adds to its output or errors.
-/

namespace YamlInclude

abbrev Bytes := List UInt8

inductive Ending where
  | exited (code : Nat)
  | signalled (number : Nat)
  deriving DecidableEq, Repr

structure Shell where
  /-- The name by which the script was called. -/
  name : Bytes
  params : List Bytes
  bindings : List (List Char × Bytes)
  input : Bytes
  output : Bytes
  errors : Bytes
  /-- The exit code of the last command. -/
  status : Nat
  ending : Option Ending

namespace Shell

def bytesOf (s : String) : Bytes := Utf8.encode s.toList

def textOf (b : Bytes) : List Char := Utf8.decodeLossy b

def numberBytes (n : Nat) : Bytes := Utf8.encode (Nat.toDigits 10 n)

def newline : UInt8 := 10

def backslash : UInt8 := 92

def processNumber : Nat := 4096

def isFieldSpace (b : UInt8) : Bool := b == 32 || b == 9 || b == 10

def set (sh : Shell) (name : List Char) (value : Bytes) : Shell :=
  { sh with bindings := (name, value) :: sh.bindings.filter (·.1 != name) }

def print (sh : Shell) (b : Bytes) : Shell := { sh with output := sh.output ++ b, status := 0 }

def complain (sh : Shell) (status : Nat) (message : Bytes) : Shell :=
  { sh with errors := sh.errors ++ message ++ [newline], status }

/-! ## Escapes -/

def isOctal (b : UInt8) : Bool := 48 ≤ b && b ≤ 55

/-- The byte of up to `digits` octal digits, and what follows them. -/
def octal (digits : Nat) (b : Bytes) : UInt8 × Bytes :=
  let ds := (b.take digits).takeWhile isOctal
  (ds.foldl (fun n d => n * 8 + (d - 48)) 0, b.drop ds.length)

/-- The byte that a letter after a backslash stands for. -/
def escaped? (letter : UInt8) : Option UInt8 :=
  match Char.ofNat letter.toNat with
  | '\\' => some 92
  | 'a' => some 7
  | 'b' => some 8
  | 'f' => some 12
  | 'n' => some 10
  | 'r' => some 13
  | 't' => some 9
  | 'v' => some 11
  | _ => none

/-- The text with its escapes replaced, and whether it ends the output. `zero` says that octal codes
begin with a zero. -/
def unescape (zero : Bool) : Nat → Bytes → Bytes × Bool
  | 0, b => (b, false)
  | _, [] => ([], false)
  | fuel + 1, c :: b =>
    let add (d : UInt8) (r : Bytes) :=
      let (more, stop) := unescape zero fuel r
      (d :: more, stop)
    if c != backslash then add c b
    else match b with
      | [] => ([c], false)
      | e :: r =>
        match escaped? e with
        | some d => add d r
        | none =>
          if zero && e == 99 then ([], true)
          else if zero && e == 48 then
            let (d, r) := octal 3 r
            add d r
          else if !zero && isOctal e then
            let (d, r) := octal 3 b
            add d r
          else add c b

/-! ## Commands -/

def spaced (args : List Bytes) : Bytes := [32].intercalate args

def echo (args : List Bytes) (sh : Shell) : Shell :=
  let (silent, args) := match args with
    | a :: rest => if a = bytesOf "-n" then (true, rest) else (false, a :: rest)
    | [] => (false, [])
  let text := spaced args
  let (text, stop) := unescape true text.length text
  sh.print (text ++ if silent || stop then [] else [newline])

def numberOf (b : Bytes) : Bytes :=
  match textOf b with
  | '-' :: ds => 45 :: numberBytes (decimalValue (ds.takeWhile Char.isDigit))
  | ds => numberBytes (decimalValue (ds.takeWhile Char.isDigit))

/-- One pass over a format: the text, the arguments that are left, and whether any was asked for. -/
def formatOnce : Nat → Bytes → List Bytes → Bool → Bytes × List Bytes × Bool
  | 0, b, args, used => (b, args, used)
  | _, [], args, used => ([], args, used)
  | fuel + 1, c :: b, args, used =>
    let add (text : Bytes) (r : Bytes) (args : List Bytes) (used : Bool) :=
      let (more, args, used) := formatOnce fuel r args used
      (text ++ more, args, used)
    if c == 37 then
      match b with
      | [] => ([c], args, used)
      | kind :: r =>
        let arg := args.headD []
        match Char.ofNat kind.toNat with
        | '%' => add [37] r args used
        | 's' => add arg r args.tail true
        | 'c' => add (arg.take 1) r args.tail true
        | 'b' => add (unescape true arg.length arg).1 r args.tail true
        | 'd' | 'i' | 'u' => add (numberOf arg) r args.tail true
        | _ => add [c, kind] r args used
    else if c == backslash then
      match b with
      | [] => ([c], args, used)
      | e :: r =>
        match escaped? e with
        | some d => add [d] r args used
        | none =>
          if isOctal e then
            let (d, r) := octal 3 b
            add [d] r args used
          else add [c] b args used
    else add [c] b args used

/-- The text of a format, used again as long as arguments are left; `fuel` bounds how often. -/
def format (fmt : Bytes) : Nat → List Bytes → Bytes
  | 0, _ => []
  | fuel + 1, args =>
    let (text, rest, used) := formatOnce (fmt.length + 1) fmt args false
    if rest.isEmpty || !used then text else text ++ format fmt fuel rest

def printf (args : List Bytes) (sh : Shell) : Shell :=
  match args with
  | [] => sh.complain 2 (bytesOf "printf: usage: printf format [arg ...]")
  | fmt :: args => sh.print (format fmt (args.length + 1) args)

/-- A line of the input, with escapes unless it is read as it is, the input after it, and whether it
ended there. -/
def inputLine (raw : Bool) : Bytes → Bytes × Bytes × Bool
  | [] => ([], [], false)
  | c :: b =>
    if c == newline then ([], b, true)
    else if c == backslash && !raw then
      match b with
      | [] => ([], [], false)
      | d :: r =>
        let (line, rest, complete) := inputLine raw r
        (if d == newline then line else d :: line, rest, complete)
    else
      let (line, rest, complete) := inputLine raw b
      (c :: line, rest, complete)

/-- Gives each variable a field of a line, the last one all that is left. -/
def assignFields : List (List Char) → Bytes → Shell → Shell
  | [], _, sh => sh
  | [name], line, sh =>
    let line := line.dropWhile isFieldSpace
    sh.set name (line.reverse.dropWhile isFieldSpace).reverse
  | name :: names, line, sh =>
    let line := line.dropWhile isFieldSpace
    assignFields names (line.dropWhile (!isFieldSpace ·)) (sh.set name (line.takeWhile (!isFieldSpace ·)))

def read (args : List Bytes) (sh : Shell) : Shell :=
  let (raw, names) := match args with
    | a :: rest => if a = bytesOf "-r" then (true, rest) else (false, a :: rest)
    | [] => (false, [])
  let (line, rest, complete) := inputLine raw sh.input
  let sh := assignFields (names.map textOf) line { sh with input := rest }
  { sh with status := if complete then 0 else 1 }

/-- The number of a signal, by its name or number. -/
def signalNumber? (name : List Char) : Option Nat :=
  match String.ofList name with
  | "HUP" => some 1
  | "INT" => some 2
  | "QUIT" => some 3
  | "ABRT" => some 6
  | "KILL" => some 9
  | "SEGV" => some 11
  | "PIPE" => some 13
  | "ALRM" => some 14
  | "TERM" => some 15
  | _ => readNatural? 10 name

/-- Sends a signal, which ends the shell if it is sent to it. -/
def kill (args : List Bytes) (sh : Shell) : Shell :=
  let (signal, targets) := match args.map textOf with
    | ['-', 's'] :: name :: rest => (signalNumber? name, rest)
    | ('-' :: name) :: rest => (signalNumber? name, rest)
    | rest => (some 15, rest)
  match signal with
  | some n =>
    if targets.contains (Nat.toDigits 10 processNumber) && n != 0 then
      { sh with ending := some (.signalled n) }
    else { sh with status := 0 }
  | none => sh.complain 2 (bytesOf "kill: invalid signal number or name")

def exit (args : List Bytes) (sh : Shell) : Shell :=
  let code := match args with
    | a :: _ => decimalValue ((textOf a).takeWhile Char.isDigit) % 256
    | [] => sh.status
  { sh with ending := some (.exited code) }

/-- Whether a condition holds; nothing if it is none. -/
def condition? (args : List (List Char)) : Option Bool :=
  match args with
  | [] => some false
  | [a] => some !a.isEmpty
  | [['-', 'n'], a] => some !a.isEmpty
  | [['-', 'z'], a] => some a.isEmpty
  | [['!'], a] => some a.isEmpty
  | [a, ['='], b] => some (a == b)
  | [a, ['!', '='], b] => some (a != b)
  | [a, ['-', 'e', 'q'], b] => some (decimalValue a == decimalValue b)
  | [a, ['-', 'n', 'e'], b] => some (decimalValue a != decimalValue b)
  | _ => none

def test (args : List Bytes) (sh : Shell) : Shell :=
  { sh with status := match condition? (args.map textOf) with
    | some true => 0
    | some false => 1
    | none => 2 }

def builtin? (name : Bytes) : Option (List Bytes → Shell → Shell) :=
  match String.ofList (textOf name) with
  | ":" | "true" => some fun _ sh => { sh with status := 0 }
  | "false" => some fun _ sh => { sh with status := 1 }
  | "echo" => some echo
  | "printf" => some printf
  | "read" => some read
  | "kill" => some kill
  | "exit" | "return" => some exit
  | "test" => some test
  | "[" => some fun args => test args.dropLast
  | "shift" => some fun _ sh => { sh with params := sh.params.tail, status := 0 }
  | _ => none

end Shell

end YamlInclude
