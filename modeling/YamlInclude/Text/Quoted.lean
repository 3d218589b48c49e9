import YamlInclude.Text.Escaped

/-! # Quoted text

Text between double quotes, as messages show it.
-/

namespace YamlInclude

namespace Quoted

def escape (c : Char) : List Char :=
  if c = '"' then ['\\', '"']
  else if c = '\\' then ['\\', '\\']
  else if c = '\n' then ['\\', 'n']
  else if c = '\x0d' then ['\\', 'r']
  else if c = '\t' then ['\\', 't']
  else if c.toNat = 0 then ['\\', '0']
  else if ' ' ≤ c ∧ c ≤ '~' then [c]
  else if isEscaped c then
    ['\\', 'u', Char.ofNat 0x7B] ++ Nat.toDigits 16 c.toNat ++ [Char.ofNat 0x7D]
  else [c]

end Quoted

/-- A text between double quotes, with quotes, backslashes and unprintable characters escaped. -/
def quoted (s : String) : String :=
  String.ofList ('"' :: (s.toList.flatMap Quoted.escape ++ ['"']))

end YamlInclude
