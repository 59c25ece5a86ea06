import Replay.Text.Unseen

/-!
A text as it is shown in diagnostics: in double quotes, on one line, with everything that would
not show escaped.
-/

namespace Replay.Text

/-- The lower-case hexadecimal digits of a number, without leading zeros. -/
def hexDigits (n : Nat) : String := String.ofList (Nat.toDigits 16 n)

def quotedChar (c : Char) : String :=
  if c = '"' then "\\\""
  else if c = '\\' then "\\\\"
  else if c = '\n' then "\\n"
  else if c = '\r' then "\\r"
  else if c = '\t' then "\\t"
  else if c.toNat = 0 then "\\0"
  else if unseen c then "\\u\x7b" ++ hexDigits c.toNat ++ "\x7d"
  else String.singleton c

def quoted (s : String) : String :=
  "\"" ++ String.join (s.toList.map quotedChar) ++ "\""

end Replay.Text
