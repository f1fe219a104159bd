import Extraction.Text.Invisible

/-! # Texts as they are shown in messages

Inside a message a text stands between quotation marks, with every character
that would not show by itself escaped.
-/

namespace Extraction.Text

/-- A character as it is shown between quotation marks. -/
def displayChar (c : Char) : List Char :=
  if c = '\x00' then ['\\', '0']
  else if c = '\t' then ['\\', 't']
  else if c = '\n' then ['\\', 'n']
  else if c = '\r' then ['\\', 'r']
  else if c = '"' ∨ c = '\\' then ['\\', c]
  else if isInvisible c then
    '\\' :: 'u' :: '\x7b' :: (Nat.toDigits 0x10 c.toNat ++ ['\x7d'])
  else [c]

/-- A text between quotation marks. -/
def display (s : List Char) : String := String.ofList ('"' :: s.flatMap displayChar ++ ['"'])

end Extraction.Text
