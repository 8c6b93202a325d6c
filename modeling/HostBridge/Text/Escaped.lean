import HostBridge.Text.Hex

/-!
# Escaped texts

In a log a text stands between quotes, and a quote, a backslash or a control character inside it is
escaped, so that it takes one line and can be told from what surrounds it.
-/

namespace HostBridge.Text

/-- A character as it stands in an escaped text. -/
def escapeChar (c : Char) : String :=
  if c = '"' then "\\\""
  else if c = '\\' then "\\\\"
  else if c = '\t' then "\\t"
  else if c = '\n' then "\\n"
  else if c = '\r' then "\\r"
  else if c.toNat = 0 then "\\0"
  else if c.toNat < 0x20 ∨ c.toNat = 0x7f then "\\u\x7b" ++ hexDigits c.toNat ++ "\x7d"
  else c.toString

/-- A text between quotes. -/
def escaped (s : String) : String :=
  "\"" ++ String.join (s.toList.map escapeChar) ++ "\""

end HostBridge.Text
