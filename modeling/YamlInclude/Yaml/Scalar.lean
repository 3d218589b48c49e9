import YamlInclude.Yaml.Value.Basic
import YamlInclude.Yaml.Event.Basic
import YamlInclude.Text.Quoted

/-! # Scalars

What a plain scalar stands for: null, a boolean, an integer, a float, or else its own text. A core
tag forces one of the first four.
-/

namespace YamlInclude.Yaml

inductive ScalarFault where
  | tooWide (n : Int)
  | notOf (text : String) (kind : String)
  deriving DecidableEq, Repr

namespace ScalarFault

def message : ScalarFault → String
  | tooWide n =>
    "invalid type: integer `" ++ toString n ++ (if n < 0 then "` as i128" else "` as u128") ++
      ", expected any YAML value"
  | notOf text kind => "invalid value: string " ++ quoted text ++ ", expected " ++ kind

end ScalarFault

namespace Scalar

/-- Floats are written without the sign of a positive exponent. -/
def numeral : NumeralLayout := ⟨false⟩

def numberText : Number → String
  | .int n => String.ofList n.text
  | .float x =>
    if x.isNaN then ".nan"
    else if x.isInfinite then (if x.isNegative then "-.inf" else ".inf")
    else String.ofList (numeral.write x)

def isNull (cs : List Char) : Bool :=
  ["null", "Null", "NULL", "~"].any fun s => s.toList = cs

def bool? (cs : List Char) : Option Bool :=
  if ["true", "True", "TRUE"].any fun s => s.toList = cs then some true
  else if ["false", "False", "FALSE"].any fun s => s.toList = cs then some false
  else none

def splitSign : List Char → Bool × List Char
  | '-' :: cs => (true, cs)
  | '+' :: cs => (false, cs)
  | cs => (false, cs)

/-- Digits after a zero, which make a text and no number. -/
def hasLeadingZero (cs : List Char) : Bool :=
  match (splitSign cs).2 with
  | '0' :: c :: cs => (c :: cs).all Char.isDigit
  | _ => false

/-- The natural number of a numeral without sign: decimal, or with `0x`, `0o` or `0b` before its digits. -/
def natural? : List Char → Option Nat
  | '0' :: 'x' :: cs => readNatural? 16 cs
  | '0' :: 'o' :: cs => readNatural? 8 cs
  | '0' :: 'b' :: cs => readNatural? 2 cs
  | cs => if hasLeadingZero cs then none else readNatural? 10 cs

/-- The integer of a numeral, if it fits into 128 bits. -/
def integer? (cs : List Char) : Option Int :=
  let (negative, digits) := splitSign cs
  (natural? digits).bind fun n =>
    if negative then (if n ≤ Nat.pow 2 127 then some (-n) else none)
    else (if n < Nat.pow 2 128 then some n else none)

/-- The float of a numeral, infinity or the value that is not a number. -/
def float? (cs : List Char) : Option Binary64 :=
  let s := String.ofList cs
  if [".inf", ".Inf", ".INF", "+.inf", "+.Inf", "+.INF"].contains s then some (.infinity false)
  else if ["-.inf", "-.Inf", "-.INF"].contains s then some (.infinity true)
  else if [".nan", ".NaN", ".NAN"].contains s then some .nan
  else (Decimal.read? cs).bind fun d =>
    let x := d.toBinary64
    if x.isFinite then some x else none

def ofInteger (n : Int) : Except ScalarFault Value :=
  match WideInt.ofInt? n with
  | some w => .ok (.number (.int w))
  | none => .error (.tooWide n)

def ofPlain (s : String) : Except ScalarFault Value :=
  let cs := s.toList
  if cs.isEmpty || isNull cs then .ok .null else
    match bool? cs with
    | some b => .ok (.bool b)
    | none =>
      match integer? cs with
      | some n => ofInteger n
      | none =>
        if hasLeadingZero cs then .ok (.string s) else
          match float? cs with
          | some x => .ok (.number (.float x))
          | none => .ok (.string s)

/-- The tags of the core schema, without their common beginning. -/
def coreTag? (tag : String) : Option String :=
  (["bool", "int", "float", "null"].find? fun k => tag = "tag:yaml.org,2002:" ++ k)

/-- The value of a scalar under a tag of the core schema. -/
def ofCore (kind : String) (s : String) : Except ScalarFault Value :=
  let cs := s.toList
  if kind = "bool" then
    match bool? cs with
    | some b => .ok (.bool b)
    | none => .error (.notOf s "a boolean")
  else if kind = "int" then
    match integer? cs with
    | some n => ofInteger n
    | none => .error (.notOf s "an integer")
  else if kind = "float" then
    match float? cs with
    | some x => .ok (.number (.float x))
    | none => .error (.notOf s "a float")
  else if isNull cs then .ok .null
  else .error (.notOf s "null")

/-- The value of a scalar with a tag that does not make it a tagged value. Octets that are no text but begin
with an exclamation mark leave a plain scalar as it is. -/
def value (tag : Option Tag) (s : String) (plain : Bool) : Except ScalarFault Value :=
  match tag with
  | none => if plain then ofPlain s else .ok (.string s)
  | some (.text t) =>
    match coreTag? t with
    | some kind => ofCore kind s
    | none => .ok (.string s)
  | some (.octets os) => if plain && os.head? == some 33 then ofPlain s else .ok (.string s)

end Scalar

end YamlInclude.Yaml
