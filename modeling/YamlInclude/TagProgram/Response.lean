import YamlInclude.Json.Printer
import YamlInclude.Json.Skip
import YamlInclude.Text.Quoted

/-! # Responses of tag programs

A program answers with one line of JSON: whether it succeeded, the data that takes the place of the
node, and an error. A list of the three is an answer as well.
-/

namespace YamlInclude

structure TagResponse where
  success : Bool
  data : Option Json
  error : Option String
  deriving DecidableEq

namespace TagResponse

def succeeded (data : Json) : TagResponse := ⟨true, some data, none⟩

def failed (message : String) : TagResponse := ⟨false, none, some message⟩

/-- Parts that are missing are left out. -/
def toJson (r : TagResponse) : Json :=
  .object ([("success", .bool r.success)] ++ (r.data.map fun d => ("data", d)).toList ++
    (r.error.map fun e => ("error", .string e)).toList)

def line (r : TagResponse) : String := r.toJson.compact

/-! ## Reading -/

open Json

def numeral : NumeralLayout := ⟨false⟩

def describeNumber : Number → String
  | .int n => "integer `" ++ String.ofList n.text ++ "`"
  | .float x => "floating point `" ++ String.ofList (numeral.write x) ++ "`"

/-- The error that a value of another type is found, once its scalar is read. -/
def failType (expected : String) (cs : List Char) : Except ReadError α :=
  let fail (found : String) (rest : List Char) : Except ReadError α :=
    failAt (.invalidType found expected) rest
  match cs with
  | [] => failNext .endInValue []
  | 'n' :: r => do fail "null" (← readWord ['u', 'l', 'l'] r)
  | 't' :: r => do fail "boolean `true`" (← readWord ['r', 'u', 'e'] r)
  | 'f' :: r => do fail "boolean `false`" (← readWord ['a', 'l', 's', 'e'] r)
  | '"' :: r => do
    let (s, r) ← readString r
    fail ("string " ++ quoted s) r
  | '[' :: _ => fail "sequence" cs
  | '\x7b' :: _ => fail "map" cs
  | c :: _ =>
    if c = '-' ∨ c.isDigit then do
      let (n, r) ← readNumber cs
      fail (describeNumber n) r
    else failNext .expectedValue cs

def readBool (cs : List Char) : Except ReadError (Bool × List Char) :=
  match skipSpace cs with
  | 't' :: r => do .ok (true, ← readWord ['r', 'u', 'e'] r)
  | 'f' :: r => do .ok (false, ← readWord ['a', 'l', 's', 'e'] r)
  | r => failType "a boolean" r

/-- Null stands for nothing. -/
def readOptional (one : Reader α) (cs : List Char) : Except ReadError (Option α × List Char) :=
  match skipSpace cs with
  | 'n' :: r => do .ok (none, ← readWord ['u', 'l', 'l'] r)
  | r => do
    let (a, r) ← one r
    .ok (some a, r)

def readText (cs : List Char) : Except ReadError (String × List Char) :=
  match skipSpace cs with
  | '"' :: r => readString r
  | r => failType "a string" r

/-- How deep the data may nest, inside the response itself. -/
def dataDepth : Nat := depthLimit - 1

def readData : Reader (Option Json) := readOptional (readValue dataDepth)

def readError : Reader (Option String) := readOptional readText

/-- The parts that were read so far. -/
structure Partial where
  success : Option Bool
  data : Option (Option Json)
  error : Option (Option String)

/-- A step over one member, or the fault of the whole with the text where it was found. -/
inductive MemberStep where
  | next (parts : Partial) (rest : List Char)
  | stop (fault : Fault) (rest : List Char)

def readMember (parts : Partial) (name : String) (cs : List Char) : Except ReadError MemberStep :=
  match name with
  | "success" =>
    if parts.success.isSome then .ok (.stop (.duplicateField name) cs)
    else do
      let (b, cs) ← readBool (← readColon cs)
      .ok (.next { parts with success := some b } cs)
  | "data" =>
    if parts.data.isSome then .ok (.stop (.duplicateField name) cs)
    else do
      let (d, cs) ← readData (← readColon cs)
      .ok (.next { parts with data := some d } cs)
  | "error" =>
    if parts.error.isSome then .ok (.stop (.duplicateField name) cs)
    else do
      let (e, cs) ← readError (← readColon cs)
      .ok (.next { parts with error := some e } cs)
  | _ => do .ok (.next parts (← skipValue (← readColon cs)))

/-- The members up to the closing brace; `fuel` bounds their number. -/
def readMembers (first : Bool) (parts : Partial) : Nat → List Char → Except ReadError MemberStep
  | 0, cs => failAt .endInObject cs
  | fuel + 1, cs => do
    match ← nextMember first cs with
    | none =>
      .ok (if parts.success.isSome then .next parts cs else .stop (.missingField "success") cs)
    | some cs =>
      let (name, cs) ← readString cs
      match ← readMember parts name cs with
      | .next parts cs => readMembers false parts fuel cs
      | stop => .ok stop

/-- The text after a closing bracket, as far as there is one. -/
def afterClosing (closing : Char) (cs : List Char) : List Char :=
  match skipSpace cs with
  | c :: r => if c = closing then r else if c = ',' ∧ closing = ']' then skipSpace r else c :: r
  | [] => []

/-- A response in braces, after the opening one. A fault of the whole is placed after the object. -/
def readObject (cs : List Char) : Except ReadError (TagResponse × List Char) := do
  match ← readMembers true ⟨none, none, none⟩ (cs.length + 1) cs with
  | .stop fault rest => failAt fault (afterClosing '\x7d' rest)
  | .next parts rest =>
    .ok (⟨parts.success.getD false, parts.data.join, parts.error.join⟩, ← endObject rest)

def readItem (first : Bool) (count : Nat) (one : Reader α) (cs : List Char) :
    Except ReadError (α × List Char) := do
  match ← nextItem first cs with
  | some cs => one cs
  | none => failAt (.invalidLength count "struct PluginResponse with 3 elements") (afterClosing ']' cs)

def readList (cs : List Char) : Except ReadError (TagResponse × List Char) := do
  let (success, cs) ← readItem true 0 readBool cs
  let (data, cs) ← readItem false 1 readData cs
  let (error, cs) ← readItem false 2 readError cs
  .ok (⟨success, data, error⟩, ← endList cs)

def parse (text : List Char) : Except ReadError TagResponse := do
  let (r, rest) ← match skipSpace text with
    | '[' :: r => readList r
    | '\x7b' :: r => readObject r
    | r => failType "struct PluginResponse" r
  readEnd rest
  .ok r

end TagResponse

end YamlInclude
