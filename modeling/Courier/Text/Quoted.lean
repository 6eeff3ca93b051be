/-
  Courier/Text/Quoted.lean
  ========================
  **Quoted words.**

  A message that quotes a word from outside puts it between double quotes and
  escapes what would not show: the quotes and backslashes in it, line ends, tabs,
  and the other control characters by their code.
-/

namespace Courier.Text

/-- A character of a quoted word. -/
def quotedChar (c : Char) : List Char :=
  if c = '"' then ['\\', '"']
  else if c = '\\' then ['\\', '\\']
  else if c = '\n' then ['\\', 'n']
  else if c = '\r' then ['\\', 'r']
  else if c = '\t' then ['\\', 't']
  else if c = '\x00' then ['\\', '0']
  else if c.toNat < 0x20 || (0x7f ≤ c.toNat && c.toNat < 0xa0) then
    ['\\', 'u', '\x7b'] ++ Nat.toDigits 16 c.toNat ++ ['\x7d']
  else [c]

/-- A word between double quotes. -/
def quotedWord (word : String) : String :=
  String.ofList ('"' :: word.toList.flatMap quotedChar ++ ['"'])

end Courier.Text
