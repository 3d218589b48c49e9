import YamlInclude.TagProgram.Request
import YamlInclude.TagProgram.Response
import YamlInclude.Include.Tag
import YamlInclude.Yaml.Json
import YamlInclude.Shell.Run
import YamlInclude.Text.Lines

/-! # Tag programs

A tag program is started once for each node of its tag. It gets the request as its input, and the first
line of its output that is not blank is its response. What a started program does is for the system to say:
`launch` stands for it, and is the shell with its few programs unless another one is given.
-/

namespace YamlInclude

structure TagProgram where
  program : Path
  args : List String
  deriving DecidableEq, Repr

/-- Why a program gave no response. -/
inductive TagProgramFault where
  | notStarted (program : Path) (e : SystemError)
  | malformed (line : List Char) (e : Json.ReadError)
  | ended (ending : Ending) (errors : String)
  | silent

namespace Ending

def succeeded (e : Ending) : Bool := e == .exited 0

/-- The names of the signals that end a program, in the order of their numbers from 1. -/
def signalNames : List String :=
  ["SIGHUP", "SIGINT", "SIGQUIT", "SIGILL", "SIGTRAP", "SIGABRT", "SIGBUS", "SIGFPE", "SIGKILL", "SIGUSR1",
    "SIGSEGV", "SIGUSR2", "SIGPIPE", "SIGALRM", "SIGTERM"]

def message : Ending → String
  | exited code => "exit status: " ++ toString code
  | signalled n =>
    "signal: " ++ toString n ++ match signalNames[n - 1]? with
      | some name => " (" ++ name ++ ")"
      | none => ""

end Ending

namespace TagProgramFault

def message : TagProgramFault → String
  | notStarted p e => "Failed to spawn plugin: " ++ p.text ++ ": " ++ e.message
  | malformed line e => "Failed to parse plugin response: " ++ e.message line
  | ended e errors => "Plugin exited with " ++ e.message ++ ": " ++ errors
  | silent => "No response from plugin"

end TagProgramFault

namespace TagProgram

/-- The first line of an output that is not blank. -/
def responseLine? (output : List Char) : Option (List Char) :=
  (endedLines output).find? fun l => !isBlankLine l

/-- The response in what a program left. -/
def responseOf (o : ProgramOutput) : Except TagProgramFault TagResponse :=
  match responseLine? (Utf8.decodeLossy o.output) with
  | some line => (TagResponse.parse line).mapError (.malformed line)
  | none =>
    if o.ending.succeeded then .error .silent
    else .error (.ended o.ending (trimmed (String.ofList (Utf8.decodeLossy o.errors))))

def start (p : TagProgram) (t : FileTree) (cwd : Location) (input : String)
    (launch : FileTree → Location → Shell.Launcher := Program.launch) : Except SystemError ProgramOutput :=
  let words := (p.program.text :: p.args).map Shell.bytesOf
  if words.any (·.contains 0) then .error .nulInCommand
  else launch t cwd (Shell.bytesOf p.program.text) (p.args.map Shell.bytesOf) (Shell.bytesOf input)

def ask (p : TagProgram) (t : FileTree) (cwd : Location) (r : TagRequest)
    (launch : FileTree → Location → Shell.Launcher := Program.launch) : Except TagProgramFault TagResponse := do
  let o ← (p.start t cwd (r.line ++ "\n") launch).mapError (.notStarted p.program)
  responseOf o

/-- The value that a response puts in the place of a node, or its error. -/
def valueOf (r : TagResponse) : Except String Yaml.Value :=
  if r.success then .ok (.ofJson (r.data.getD .null)) else .error (r.error.getD "plugin reported failure")

/-- The constructor that asks the program for the value of each node. -/
def construct (p : TagProgram) (t : FileTree) (cwd : Location)
    (launch : FileTree → Location → Shell.Launcher := Program.launch) : TagConstructor := fun c => do
  Traced.note (.ranProgram c.tag p.program)
  match p.ask t cwd (.forNode c.tag c.content.toJson c.file) launch with
  | .error e => c.fail e.message
  | .ok r =>
    match valueOf r with
    | .error m => c.fail m
    | .ok v => return v

end TagProgram

end YamlInclude
