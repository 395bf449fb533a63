import CommandFiles.Text.LetterCase

/-!
# Quoted texts

A text as messages show it: in double quotes, with escapes for what could not be read otherwise.
-/

namespace CommandFiles.Text

/-- Whether a character is shown by its code point: it has no printed form, or it would change the
character before it. -/
def isShownByCode (c : Char) : Bool :=
  c.toNat < 32 || c.toNat == 127 || (128 ≤ c.toNat &&
    (inRuns unprinted c.toNat || inRuns combiningMarks c.toNat || inRuns otherExtenders c.toNat))

/-- A character as it stands in a quoted text. -/
def quoteChar (c : Char) : List Char :=
  if c == '"' then ['\\', '"']
  else if c == '\\' then ['\\', '\\']
  else if c == '\n' then ['\\', 'n']
  else if c == '\r' then ['\\', 'r']
  else if c == '\t' then ['\\', 't']
  else if c == '\x00' then ['\\', '0']
  else if isShownByCode c then ['\\', 'u', '\x7b'] ++ Nat.toDigits 16 c.toNat ++ ['\x7d']
  else [c]

/-- A text in quotes. -/
def quoted (s : String) : String :=
  String.ofList ('"' :: s.toList.flatMap quoteChar ++ ['"'])

end CommandFiles.Text
