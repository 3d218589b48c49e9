import YamlInclude.CommandLine.Usage

/-! # Reading arguments

Arguments are read from left to right, once before the name of a command and once after it. A value that
stands apart from its flag, and operands, are looked at when the next flag or operand comes, so a fault
in them is only found then. An argument that nobody knows is found at once.
-/

namespace YamlInclude

/-- What the arguments on one side of the name of the command give. -/
structure Given where
  format : Option OutputFormat
  verbosity : Nat
  quiet : Bool
  config : Option Path
  outDir : Option Path
  space : Option Nat
  ignored : Option String
  noWrite : Bool
  lenientAnchors : Bool
  rootDir : Option Path
  operands : List Path
  deriving DecidableEq, Repr

namespace Given

def nothing : Given := ⟨none, 0, false, none, none, none, none, false, false, none, []⟩

/-! ## Values -/

def maxNatural : Nat := 0xFFFFFFFFFFFFFFFF

def readDigits (n : Nat) : List Char → Except NaturalFault Nat
  | [] => .ok n
  | c :: cs =>
    if !c.isDigit then .error .notDigit
    else
      let m := n * 10 + (c.toNat - '0'.toNat)
      if maxNatural < m then .error .tooLarge else readDigits m cs

def readNatural (cs : List Char) : Except NaturalFault Nat :=
  match cs with
  | [] => .error .empty
  | ['+'] => .error .notDigit
  | '+' :: ds => readDigits 0 ds
  | ds => readDigits 0 ds

def readPath (slot value : String) : Except UsageError Path :=
  if value = "" then .error (.noValue slot) else .ok ⟨value⟩

def readFormat (value : String) : Except UsageError OutputFormat :=
  match value with
  | "text" => .ok .text
  | "json" => .ok .json
  | "" => .error (.noValue Flag.format.display)
  | v => .error (.invalidFormat v)

def readSpace (value : String) : Except UsageError Nat :=
  (readNatural value.toList).mapError (.invalidNumber value .space)

def has (g : Given) : Flag → Bool
  | .format => g.format.isSome
  | .quiet => g.quiet
  | .config => g.config.isSome
  | .outDir => g.outDir.isSome
  | .space => g.space.isSome
  | .ignored => g.ignored.isSome
  | .noWrite => g.noWrite
  | .lenientAnchors => g.lenientAnchors
  | .rootDir => g.rootDir.isSome
  | .verbose | .help | .version => false

def giveValue (g : Given) (f : Flag) (value : String) : Except UsageError Given :=
  if g.has f then .error (.repeated f)
  else match f with
    | .format => do return { g with format := some (← readFormat value) }
    | .config => do return { g with config := some (← readPath f.display value) }
    | .outDir => do return { g with outDir := some (← readPath f.display value) }
    | .space => do return { g with space := some (← readSpace value) }
    | .ignored => .ok { g with ignored := some value }
    | .rootDir => do return { g with rootDir := some (← readPath f.display value) }
    | _ => .error (.unexpectedValue value f)

def give (g : Given) (command : Option CommandName) (f : Flag) : Except UsageStop Given :=
  if g.has f then .error (.wrong (.repeated f))
  else match f with
    | .help => .error (.help command)
    | .version => .error (.version command)
    | .verbose => .ok { g with verbosity := g.verbosity + 1 }
    | .quiet => .ok { g with quiet := true }
    | .noWrite => .ok { g with noWrite := true }
    | .lenientAnchors => .ok { g with lenientAnchors := true }
    | _ => .error (.wrong (.noValue f.display))

def giveOperands (g : Given) (slot : String) (values : List String) : Except UsageError Given := do
  let paths ← values.mapM (readPath slot)
  return { g with operands := g.operands ++ paths }

end Given

inductive Pending where
  | nothing
  | value (f : Flag) (v : Option String)
  | operands (values : List String)
  deriving DecidableEq, Repr

/-- Reading on one side of the name of the command. -/
structure Reading where
  command : Option CommandName
  given : Given
  pending : Pending
  deriving DecidableEq, Repr

namespace Reading

def start (command : Option CommandName) : Reading := ⟨command, .nothing, .nothing⟩

def slot (r : Reading) : String := (r.command.map CommandName.operands).getD ""

/-- Looks at what was put off. -/
def settle (r : Reading) : Except UsageStop Reading := do
  let g ← match r.pending with
    | .nothing => .ok r.given
    | .value f none => .error (.wrong (.noValue f.display))
    | .value f (some v) => (r.given.giveValue f v).mapError .wrong
    | .operands vs => (r.given.giveOperands r.slot vs).mapError .wrong
  return { r with given := g, pending := .nothing }

def awaitsValue (r : Reading) : Bool :=
  match r.pending with
  | .value _ none => true
  | _ => false

/-- A known flag with the value that is attached to it, if there is one. -/
def flag (r : Reading) (f : Flag) (attached : Option String) : Except UsageStop Reading :=
  match f.value?, attached with
  | some _, some v => do
    let r ← r.settle
    return { r with given := ← (r.given.giveValue f v).mapError .wrong }
  | some _, none => do
    let r ← r.settle
    return { r with pending := .value f none }
  | none, some v => .error (.wrong (.unexpectedValue v f))
  | none, none => do
    let r ← r.settle
    return { r with given := ← r.given.give r.command f }

def long (r : Reading) (cs : List Char) : Except UsageStop Reading :=
  let name := String.ofList (cs.takeWhile (· != '='))
  let attached := match cs.dropWhile (· != '=') with
    | _ :: v => some (String.ofList v)
    | [] => none
  match Flag.ofLong? r.command name with
  | some f => r.flag f attached
  | none => .error (.wrong (.unexpected ("--" ++ name)))

/-- Letters after one hyphen. What follows the letter of a flag with a value is the value. -/
def letters (r : Reading) : List Char → Except UsageStop Reading
  | [] => .ok r
  | c :: cs =>
    match Flag.ofShort? r.command c with
    | none => .error (.wrong (.unexpected (String.ofList ['-', c])))
    | some f =>
      if f.value?.isSome then
        r.flag f (match cs with
          | [] => none
          | '=' :: v => some (String.ofList v)
          | v => some (String.ofList v))
      else do letters (← r.flag f none) cs

/-- An operand; `escaped` says that it follows two hyphens alone. -/
def operand (r : Reading) (escaped : Bool) (a : String) : Except UsageStop Reading :=
  match r.command with
  | none =>
    let isCommand := a = "help" ∨ (CommandName.ofText? a).isSome
    .error (.wrong (if escaped ∧ isCommand then .unexpected a else .unknownCommand a))
  | some c =>
    match r.pending with
    | .operands vs =>
      if c.takesMany then .ok { r with pending := .operands (vs ++ [a]) }
      else .error (.wrong (.unexpected a))
    | _ =>
      if !c.takesMany && !r.given.operands.isEmpty then .error (.wrong (.unexpected a))
      else do
        let r ← r.settle
        return { r with pending := .operands [a] }

/-- The help that names after the word for it ask for. -/
def helpOn : List String → UsageStop
  | [] => .help none
  | name :: rest =>
    match CommandName.ofText? name, rest with
    | some c, [] => .help (some c)
    | some _, other :: _ => .wrong (.unknownCommand other)
    | none, _ => if name = "help" then helpOn rest else .wrong (.unknownCommand name)

/-- Reads arguments up to the name of a command, which is given with the arguments after it. -/
def arguments (r : Reading) (escaped : Bool) :
    List String → Except UsageStop (Reading × Option (CommandName × List String))
  | [] => .ok (r, none)
  | a :: rest =>
    let atCommand := r.command.isNone && !r.awaitsValue && !escaped
    match if atCommand then CommandName.ofText? a else none with
    | some c => .ok (r, some (c, rest))
    | none =>
      if atCommand && a == "help" then .error (helpOn rest)
      else if escaped then do arguments (← r.operand true a) true rest
      else match a.toList, r.pending with
        | ['-', '-'], _ => arguments r true rest
        | '-' :: '-' :: cs, _ => do arguments (← r.long cs) false rest
        | '-' :: c :: cs, _ => do arguments (← r.letters (c :: cs)) false rest
        | _, .value f none => arguments { r with pending := .value f (some a) } false rest
        | _, _ => do arguments (← r.operand false a) false rest

/-- What was given, once all is read. A settings file that the environment names must have a name. -/
def finish (r : Reading) (configuredFile : Option String) : Except UsageStop Given := do
  let g := (← r.settle).given
  if g.config.isNone && configuredFile == some "" then .error (.wrong (.noValue Flag.config.display))
  else return g

end Reading

end YamlInclude
