import YamlInclude.Json.Basic

/-! # JSON text

An indent of 0 gives one line. Otherwise every item and member has a line of its own, and an
empty array or object stays on one line.
-/

namespace YamlInclude

namespace Json

/-- Floats are written with the sign of a positive exponent. -/
def numeral : NumeralLayout := ⟨true⟩

def writeNumber : Number → List Char
  | .int n => n.text
  | .float x => numeral.write x

def hexDigit (n : Nat) : Char := Nat.digitChar n

def writeChar (c : Char) : List Char :=
  if c = '"' then ['\\', '"']
  else if c = '\\' then ['\\', '\\']
  else if c = '\x08' then ['\\', 'b']
  else if c = '\x0c' then ['\\', 'f']
  else if c = '\n' then ['\\', 'n']
  else if c = '\x0d' then ['\\', 'r']
  else if c = '\t' then ['\\', 't']
  else if c.toNat < 32 then ['\\', 'u', '0', '0', hexDigit (c.toNat / 16), hexDigit (c.toNat % 16)]
  else [c]

def writeChars : List Char → List Char
  | [] => []
  | c :: cs => writeChar c ++ writeChars cs

def writeString (s : String) : List Char := '"' :: (writeChars s.toList ++ ['"'])

def lineBreak (indent depth : Nat) : List Char :=
  if indent = 0 then [] else '\n' :: List.replicate (indent * depth) ' '

def colon (indent : Nat) : List Char := if indent = 0 then [':'] else [':', ' ']

mutual

/-- The text of a value at nesting `depth`. -/
def write (indent depth : Nat) : Json → List Char
  | null => ['n', 'u', 'l', 'l']
  | bool true => ['t', 'r', 'u', 'e']
  | bool false => ['f', 'a', 'l', 's', 'e']
  | number n => writeNumber n
  | string s => writeString s
  | array [] => ['[', ']']
  | array (v :: vs) =>
    '[' :: (lineBreak indent (depth + 1) ++ write indent (depth + 1) v ++
      writeItems indent (depth + 1) vs ++ lineBreak indent depth ++ [']'])
  | object [] => ['{', '}']
  | object ((k, v) :: ms) =>
    '{' :: (lineBreak indent (depth + 1) ++ writeString k ++ colon indent ++
      write indent (depth + 1) v ++ writeMembers indent (depth + 1) ms ++ lineBreak indent depth ++ ['}'])

def writeItems (indent depth : Nat) : List Json → List Char
  | [] => []
  | v :: vs => ',' :: (lineBreak indent depth ++ write indent depth v ++ writeItems indent depth vs)

def writeMembers (indent depth : Nat) : List (String × Json) → List Char
  | [] => []
  | (k, v) :: ms =>
    ',' :: (lineBreak indent depth ++ writeString k ++ colon indent ++ write indent depth v ++
      writeMembers indent depth ms)

end

/-- The text of a value with lines indented by multiples of `indent`. -/
def render (indent : Nat) (v : Json) : String := String.ofList (write indent 0 v)

def compact (v : Json) : String := render 0 v

end Json

end YamlInclude
