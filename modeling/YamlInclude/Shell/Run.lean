import YamlInclude.Shell.Builtin
import YamlInclude.FileTree.Source

/-! # Running programs

A program is a script in the file tree or one of the few programs that every system has. Scripts start
with a line that names what runs them. Programs run inside each other up to a fixed depth.
-/

namespace YamlInclude

structure ProgramOutput where
  output : Bytes
  errors : Bytes
  ending : Ending
  deriving DecidableEq, Repr

namespace Shell

abbrev Launcher := Bytes → List Bytes → Bytes → Except SystemError ProgramOutput

/-! ## Expansion -/

/-- A part of an expanded word: a byte, or a place where the word is split. `kept` marks words that
are there even if they are empty. -/
inductive Expanded where
  | byte (b : UInt8)
  | split
  | kept

def keep (b : Bytes) : List Expanded := .kept :: b.map .byte

/-- A value outside quotes, split at white space. -/
def splitting (b : Bytes) : List Expanded := b.map fun c => if isFieldSpace c then .split else .byte c

def valued (inQuotes : Bool) (b : Bytes) : List Expanded := if inQuotes then keep b else splitting b

def parameter (sh : Shell) (inQuotes : Bool) (name : List Char) : List Expanded :=
  match name with
  | ['@'] => [Expanded.split].intercalate (sh.params.map (valued inQuotes))
  | ['*'] => valued inQuotes (spaced sh.params)
  | ['#'] => valued inQuotes (numberBytes sh.params.length)
  | ['?'] => valued inQuotes (numberBytes sh.status)
  | ['$'] => valued inQuotes (numberBytes processNumber)
  | ['0'] => valued inQuotes sh.name
  | _ =>
    match readNatural? 10 name with
    | some n => valued inQuotes (sh.params.getD (n - 1) [])
    | none => valued inQuotes ((sh.bindings.lookup name).getD [])

/-- The value of a part of a word, where `run` gives the output of a script. -/
def expandPiece (run : List Char → Bytes) (sh : Shell) : Piece → List Expanded
  | .text cs => (Utf8.encode cs).map .byte
  | .literal cs => keep (Utf8.encode cs)
  | .parameter inQuotes name => sh.parameter inQuotes name
  | .output inQuotes script =>
    valued inQuotes ((run script).reverse.dropWhile (· == newline)).reverse

/-- The fields of an expanded word; the one that is being built is there if it was begun. -/
def fields : Option Bytes → List Expanded → List Bytes
  | done, [] => done.toList
  | done, .byte b :: es => fields (some (done.getD [] ++ [b])) es
  | done, .kept :: es => fields (some (done.getD [])) es
  | done, .split :: es => done.toList ++ fields none es

def expandWord (run : List Char → Bytes) (sh : Shell) (w : Word) : List Bytes :=
  fields none (w.flatMap (expandPiece run sh))

/-- The value that an assignment gives, which is not split. -/
def expandValue (run : List Char → Bytes) (sh : Shell) (w : Word) : Bytes :=
  w.flatMap fun p => (expandPiece run sh p).filterMap fun
    | .byte b => some b
    | .split => some 32
    | .kept => none

/-! ## Commands -/

/-- Where output and errors go: to the output, to the errors, or nowhere. -/
structure Routes where
  output : Option Bool
  errors : Option Bool

/-- The routes after redirections, which are read in order; `true` stands for the errors. -/
def routes (rs : List Redirection) : Routes :=
  rs.foldl (fun r s => match s with
    | .outputToErrors => { r with output := r.errors }
    | .errorsToOutput => { r with errors := r.output }
    | .dropOutput => { r with output := none }
    | .dropErrors => { r with errors := none }
    | .noInput => r) ⟨some false, some true⟩

/-- Runs a part with its own output and errors, which then go where redirections say. -/
def redirected (rs : List Redirection) (part : Shell → Shell) (sh : Shell) : Shell :=
  let noInput := rs.contains .noInput
  let after := part { sh with output := [], errors := [], input := if noInput then [] else sh.input }
  let way := routes rs
  let taken (toErrors : Bool) : Bytes :=
    (if way.output == some toErrors then after.output else []) ++
      (if way.errors == some toErrors then after.errors else [])
  { after with
    output := sh.output ++ taken false
    errors := sh.errors ++ taken true
    input := if noInput then sh.input else after.input }

/-- The exit code that a shell sees. -/
def codeOf : Ending → Nat
  | .exited code => code
  | .signalled n => 128 + n

def runProgram (launch : Launcher) (line : Nat) (name : Bytes) (args : List Bytes) (sh : Shell) : Shell :=
  match launch name args sh.input with
  | .ok p =>
    { sh with
      output := sh.output ++ p.output
      errors := sh.errors ++ p.errors
      input := []
      status := codeOf p.ending }
  | .error e =>
    let what := if e = .notFound then "not found" else "Permission denied"
    let place := sh.name ++ bytesOf ": " ++ numberBytes line ++ bytesOf ": "
    sh.complain (if e = .notFound then 127 else 126) (place ++ name ++ bytesOf (": " ++ what))

/-- Runs a program in the place of the shell, which ends with it. -/
def becomeProgram (launch : Launcher) (line : Nat) (args : List Bytes) (sh : Shell) : Shell :=
  match args with
  | [] => { sh with status := 0 }
  | name :: args =>
    match launch name args sh.input with
    | .ok p =>
      { sh with output := sh.output ++ p.output, errors := sh.errors ++ p.errors, ending := some p.ending }
    | .error _ =>
      let sh := runProgram launch line name args sh
      { sh with ending := some (.exited sh.status) }

def runCommand (launch : Launcher) (run : Shell → List Char → Bytes) (c : Command) (sh : Shell) : Shell :=
  let assign (sh : Shell) (a : List Char × Word) : Shell := sh.set a.1 (expandValue (run sh) sh a.2)
  if c.words.isEmpty && c.assignments.isEmpty then sh
  else match c.words.flatMap (expandWord (run sh) sh) with
    | [] => c.assignments.foldl assign { sh with status := 0 }
    | name :: args =>
      redirected c.redirections (fun sh =>
        if name = bytesOf "exec" then becomeProgram launch c.line args sh
        else match builtin? name with
          | some command => command args sh
          | none => runProgram launch c.line name args sh) sh

/-- Runs the commands of a pipeline. All of several are apart from the shell. -/
def runPipeline (launch : Launcher) (run : Shell → List Char → Bytes) : List Command → Shell → Shell
  | [], sh => sh
  | [c], sh => runCommand launch run c sh
  | c :: cs, sh =>
    let first := runCommand launch run c { sh with output := [] }
    let rest := runPipeline launch run cs
      { sh with input := first.output, errors := first.errors, ending := none }
    { sh with
      input := first.input
      output := rest.output
      errors := rest.errors
      status := match rest.ending with
        | some e => codeOf e
        | none => rest.status }

def runClauses (launch : Launcher) (run : Shell → List Char → Bytes) : List Clause → Shell → Shell
  | [], sh => sh
  | c :: cs, sh =>
    let wanted := match c.joint with
      | .always => true
      | .onSuccess => sh.status == 0
      | .onFailure => sh.status != 0
    let sh := if wanted then runPipeline launch run c.pipeline sh else sh
    match sh.ending with
    | some _ => sh
    | none => runClauses launch run cs sh

/-- Runs a script in a shell; scripts inside it nest less than `depth` deep. -/
def runScript (launch : Launcher) : Nat → Shell → List Char → Shell
  | 0, sh, _ => sh
  | depth + 1, sh, script =>
    let inner (sh : Shell) (script : List Char) : Bytes :=
      (runScript launch depth { sh with output := [] } script).output
    let (clauses, stop) := parse script
    let sh := runClauses launch inner clauses sh
    match stop, sh.ending with
    | some line, none =>
      let place := sh.name ++ bytesOf ": " ++ numberBytes line ++ bytesOf ": "
      { sh.complain 2 (place ++ bytesOf "Syntax error") with ending := some (.exited 2) }
    | _, _ => sh

def maxDepth : Nat := 16

def start (name : Bytes) (params : List Bytes) (input : Bytes) : Shell :=
  ⟨name, params, [], input, [], [], 0, none⟩

def execute (launch : Launcher) (name : Bytes) (params : List Bytes) (input : Bytes)
    (script : List Char) : ProgramOutput :=
  let sh := runScript launch maxDepth (start name params input) script
  ⟨sh.output, sh.errors, sh.ending.getD (.exited sh.status)⟩

end Shell

/-! ## Programs -/

namespace Program

open Shell (bytesOf textOf)

def readBytes (t : FileTree) (cwd : Location) (p : Path) : Except SystemError Bytes :=
  match t.find cwd p with
  | .error e => .error e
  | .ok (_, .file (.text s) _) => .ok (bytesOf s)
  | .ok (_, .file (.binary b) _) => .ok b
  | .ok _ => .error .isDirectory

/-- Copies files to the output, or the input where none is named. -/
def concatenate (t : FileTree) (cwd : Location) (args : List Bytes) (input : Bytes) : ProgramOutput :=
  let one (o : ProgramOutput) (arg : Bytes) : ProgramOutput :=
    if arg = bytesOf "-" then { o with output := o.output ++ input }
    else
      let p : Path := .ofChars (textOf arg)
      match readBytes t cwd p with
      | .ok b => { o with output := o.output ++ b }
      | .error e =>
        let reason := e.message.toList.takeWhile (· != '(')
        let line := bytesOf ("cat: " ++ p.text ++ ": ") ++ Utf8.encode reason.dropLast ++ [10]
        { o with errors := o.errors ++ line, ending := .exited 1 }
  (if args.isEmpty then [bytesOf "-"] else args).foldl one ⟨[], [], .exited 0⟩

/-- A program that only its commands of the same name in the shell are known for. -/
def runBuiltin (command : List Bytes → Shell → Shell) (args : List Bytes) (input : Bytes) : ProgramOutput :=
  let sh := command args (Shell.start [] [] input)
  ⟨sh.output, sh.errors, .exited sh.status⟩

/-- The shell as a program: a script in its arguments, in a file, or in its input. -/
def runShell (launch : Shell.Launcher) (t : FileTree) (cwd : Location) (name : Bytes) (args : List Bytes)
    (input : Bytes) : ProgramOutput :=
  match args with
  | [] => Shell.execute launch name [] [] (textOf input)
  | flag :: rest =>
    if flag = bytesOf "-c" then
      match rest with
      | script :: more => Shell.execute launch (more.headD name) more.tail input (textOf script)
      | [] => ⟨[], name ++ bytesOf ": 0: -c requires an argument\n", .exited 2⟩
    else
      match readBytes t cwd (.ofChars (textOf flag)) with
      | .ok script => Shell.execute launch flag rest input (textOf script)
      | .error _ =>
        ⟨[], name ++ bytesOf ": 0: cannot open " ++ flag ++ bytesOf ": No such file\n", .exited 2⟩

def systemDirectories : List (List Char) := ["/bin/".toList, "/usr/bin/".toList]

/-- The name of a system program, given by itself or with its directory. -/
def systemName (program : List Char) : List Char :=
  match systemDirectories.find? (·.isPrefixOf program) with
  | some dir => program.drop dir.length
  | none => program

/-- The programs that every system has. -/
def system? (launch : Shell.Launcher) (t : FileTree) (cwd : Location) (program : List Char) :
    Option (List Bytes → Bytes → ProgramOutput) :=
  match String.ofList (systemName program) with
  | "sh" | "dash" | "bash" => some (runShell launch t cwd (Utf8.encode program))
  | "cat" => some (concatenate t cwd)
  | "true" => some fun _ _ => ⟨[], [], .exited 0⟩
  | "false" => some fun _ _ => ⟨[], [], .exited 1⟩
  | "echo" => some (runBuiltin Shell.echo)
  | "printf" => some (runBuiltin Shell.printf)
  | "sleep" => some fun _ _ => ⟨[], [], .exited 0⟩
  | _ => none

/-- The interpreter that the first line of a script names, with its argument. -/
def interpreter? (script : List Char) : Option (List Char × Option (List Char)) :=
  match script with
  | '#' :: '!' :: rest =>
    let isSpace (c : Char) : Bool := c == ' ' || c == '\t'
    let line := (rest.takeWhile (· != '\n')).dropWhile isSpace
    let argument := ((line.dropWhile (!isSpace ·)).dropWhile isSpace).reverse.dropWhile isSpace
    some (line.takeWhile (!isSpace ·), if argument.isEmpty then none else some argument.reverse)
  | _ => none

/-- Starts a program, by its path or by the name of a system program. Programs start each other less
than `depth` deep. -/
def launchWithin (t : FileTree) (cwd : Location) : Nat → Shell.Launcher
  | 0, _, _, _ => .error .tooManyLinks
  | depth + 1, program, args, input =>
    let launch := launchWithin t cwd depth
    let name := textOf program
    match system? launch t cwd name with
    | some run => .ok (run args input)
    | none =>
      if !name.contains '/' then .error .notFound
      else match t.find cwd (.ofChars name) with
        | .error e => .error e
        | .ok (_, .file content true) =>
          match interpreter? content.lossyText.toList with
          | some (i, argument) =>
            launch (Utf8.encode i) ((argument.map Utf8.encode).toList ++ program :: args) input
          | none => .error .badFormat
        | .ok _ => .error .permissionDenied

def maxDepth : Nat := 32

def launch (t : FileTree) (cwd : Location) : Shell.Launcher := launchWithin t cwd maxDepth

end Program

end YamlInclude
