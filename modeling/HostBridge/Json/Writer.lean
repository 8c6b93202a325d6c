import HostBridge.Json.Value

/-!
# Writing JSON

A value is written in one of two layouts. The compact layout has no space between tokens. The
indented layout has one element or member on a line, indented by two spaces for each open container,
and writes an empty container without a line break. A part that could not be read is written as the
absent value.
-/

namespace HostBridge.Json

/-- A character as it stands in a string. -/
def quoteChar (c : Char) : String :=
  if c = '"' then "\\\""
  else if c = '\\' then "\\\\"
  else if c = '\x08' then "\\b"
  else if c = '\x0c' then "\\f"
  else if c = '\n' then "\\n"
  else if c = '\r' then "\\r"
  else if c = '\t' then "\\t"
  else if c.toNat < 0x20 then
    "\\u00" ++ String.ofList [Nat.digitChar (c.toNat / 16), Nat.digitChar (c.toNat % 16)]
  else c.toString

/-- A text between quotes. -/
def quote (s : String) : String :=
  s.toList.foldl (fun out c => out ++ quoteChar c) "\"" ++ "\""

/-- The line break of the indented layout, with the indentation of the next line. -/
def newline (depth : Nat) : String := String.ofList ('\n' :: List.replicate (2 * depth) ' ')

mutual

/-- Writes a value at the end of `out`, in the indented layout if a depth is given. -/
def writeTo (depth : Option Nat) (out : String) : Json → String
  | null => out ++ "null"
  | bool b => out ++ toString b
  | integer n => out ++ toString n
  | decimal digits => out ++ digits
  | text s => out ++ quote s
  | unreadable => out ++ "null"
  | array [] => out ++ "[]"
  | array (x :: xs) =>
    let inner := depth.map (· + 1)
    let out := writeElements inner (writeTo inner (out ++ "[" ++ (inner.map newline).getD "") x) xs
    out ++ (depth.map newline).getD "" ++ "]"
  | object [] => out ++ "\x7b\x7d"
  | object (m :: ms) =>
    let inner := depth.map (· + 1)
    let out := writeMembers inner (writeMember inner (out ++ "\x7b") m) ms
    out ++ (depth.map newline).getD "" ++ "\x7d"

/-- Writes the elements after the first one. -/
def writeElements (depth : Option Nat) (out : String) : List Json → String
  | [] => out
  | x :: xs => writeElements depth (writeTo depth (out ++ "," ++ (depth.map newline).getD "") x) xs

/-- Writes a member. -/
def writeMember (depth : Option Nat) (out : String) : String × Json → String
  | (name, value) =>
    writeTo depth
      (out ++ (depth.map newline).getD "" ++ quote name ++ if depth.isSome then ": " else ":") value

/-- Writes the members after the first one. -/
def writeMembers (depth : Option Nat) (out : String) : List (String × Json) → String
  | [] => out
  | m :: ms => writeMembers depth (writeMember depth (out ++ ",") m) ms

end

/-- The compact layout of a value. -/
def compact (j : Json) : String := writeTo none "" j

/-- The indented layout of a value. -/
def indented (j : Json) : String := writeTo (some 0) "" j

end HostBridge.Json
