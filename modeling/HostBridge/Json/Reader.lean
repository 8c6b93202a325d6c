import HostBridge.Json.Number
import HostBridge.Text.CodePoint
import HostBridge.Text.Hex

/-!
# Reading JSON

A text is read character by character, without going back. `Scanner` collects the characters of one
token, and `Builder` puts the tokens together, holding the containers that are still open in a list.
Both are folds, so reading always ends.

A text is refused when it does not follow the grammar: this includes a control character inside a
string and anything after the value. What follows the grammar and cannot be held is read as
`Json.unreadable`; among this is every container inside `maxDepth` others.
-/

namespace HostBridge.Json

/-! ### Tokens -/

/-- A token of a JSON text. -/
inductive Token where
  | openArray
  | closeArray
  | openObject
  | closeObject
  | comma
  | colon
  /-- A string, whose text is absent if there is half of a surrogate pair in it. -/
  | text (value : Option String)
  /-- A number or one of the three words. -/
  | scalar (value : Json)

/-- Whether the character may stand between tokens. -/
def isSpace (c : Char) : Bool := c == ' ' || c == '\t' || c == '\n' || c == '\r'

/-- Whether the character may stand in a number or a word. -/
def isBare (c : Char) : Bool := c.isAlphanum || c == '+' || c == '-' || c == '.'

/-- The value of a word or a number. -/
def scalar? (cs : List Char) : Option Json :=
  match String.ofList cs with
  | "null" => some null
  | "true" => some (bool true)
  | "false" => some (bool false)
  | _ => number? cs

/-! ### Characters into tokens -/

/-- Where the scanner is. What has been read of an unfinished token is held in reverse. -/
inductive Mode where
  | between
  /-- In a number or a word. -/
  | bare (taken : List Char)
  /-- In a string, after some code points. -/
  | quoted (taken : List Nat)
  /-- After a backslash in a string. -/
  | escape (taken : List Nat)
  /-- In the four hexadecimal digits of an escape, `count` of which have been read. -/
  | unicode (taken : List Nat) (count value : Nat)

/-- The scanner: the tokens read so far in reverse, and where it is. -/
structure Scanner where
  /-- The finished tokens, the last one first. -/
  tokens : List Token := []
  mode : Mode := .between

namespace Scanner

/-- Finishes a token. -/
def push (s : Scanner) (token : Token) : Scanner := ⟨token :: s.tokens, .between⟩

/-- Reads a character between tokens. -/
def start (s : Scanner) (c : Char) : Option Scanner :=
  if isSpace c then some s
  else if c = '[' then some (s.push .openArray)
  else if c = ']' then some (s.push .closeArray)
  else if c = '\x7b' then some (s.push .openObject)
  else if c = '\x7d' then some (s.push .closeObject)
  else if c = ',' then some (s.push .comma)
  else if c = ':' then some (s.push .colon)
  else if c = '"' then some { s with mode := .quoted [] }
  else if isBare c then some { s with mode := .bare [c] }
  else none

/-- Finishes a number or a word. -/
def finishBare (s : Scanner) (taken : List Char) : Option Scanner :=
  (scalar? taken.reverse).map fun value => s.push (.scalar value)

/-- The character that a one-letter escape stands for. -/
def escaped? (c : Char) : Option Char :=
  [('"', '"'), ('\\', '\\'), ('/', '/'), ('b', '\x08'), ('f', '\x0c'), ('n', '\n'), ('r', '\r'),
    ('t', '\t')].lookup c

/-- Reads one character. -/
def step (s : Scanner) (c : Char) : Option Scanner :=
  match s.mode with
  | .between => s.start c
  | .bare taken =>
    if isBare c then some { s with mode := .bare (c :: taken) }
    -- the character that ends a number or a word starts something else
    else (s.finishBare taken).bind (·.start c)
  | .quoted taken =>
    if c = '"' then some (s.push (.text (Text.ofCodePoints? taken.reverse)))
    else if c = '\\' then some { s with mode := .escape taken }
    else if c.toNat < 0x20 then none
    else some { s with mode := .quoted (c.toNat :: taken) }
  | .escape taken =>
    if c = 'u' then some { s with mode := .unicode taken 0 0 }
    else (escaped? c).map fun e => { s with mode := .quoted (e.toNat :: taken) }
  | .unicode taken count value =>
    (Text.hexDigit? c).map fun digit =>
      let value := 16 * value + digit
      if count < 3 then { s with mode := .unicode taken (count + 1) value }
      else { s with mode := .quoted (Text.consEscaped value taken) }

/-- The tokens of a text that ends here. -/
def finish (s : Scanner) : Option (List Token) :=
  match s.mode with
  | .between => some s.tokens.reverse
  | .bare taken => (s.finishBare taken).map (·.tokens.reverse)
  | _ => none

end Scanner

/-- The tokens of a text. -/
def tokens? (text : String) : Option (List Token) :=
  (text.toList.foldlM Scanner.step {}).bind Scanner.finish

/-! ### Tokens into values -/

/-- A container that is still open, its contents in reverse. A name is absent if its text is. -/
inductive Container where
  | array (elements : List Json)
  /-- An object before the name of a member. -/
  | object (members : List (Option String × Json))
  /-- An object after the name of a member. -/
  | member (members : List (Option String × Json)) (name : Option String)

/-- What may come next. -/
inductive Expected where
  | value
  /-- A value, or the end of the list that has just been opened. -/
  | firstElement
  /-- A name, or the end of the object that has just been opened. -/
  | firstName
  | name
  | colon
  /-- A comma or the end of a container, or the end of the text if none is open. -/
  | separator
deriving DecidableEq

/-- The builder: the open containers, the innermost first, their number, what may come next, and the
value once it is complete. -/
structure Builder where
  stack : List Container := []
  depth : Nat := 0
  expected : Expected := .value
  result : Option Json := none

/-- How many containers may be inside each other. -/
def maxDepth : Nat := 127

/-- The object with some members, each of which must have a name. -/
def ofMembers (members : List (Option String × Json)) : Json :=
  let named (member : Option String × Json) : Option (String × Json) := member.1.map (·, member.2)
  ((members.mapM named).map object).getD unreadable

namespace Builder

def enter (b : Builder) (container : Container) (expected : Expected) : Builder :=
  { b with stack := container :: b.stack, depth := b.depth + 1, expected }

/-- Puts a complete value where it belongs. -/
def put (b : Builder) (value : Json) : Option Builder :=
  match b.stack with
  | [] => some { b with expected := .separator, result := some value }
  | .array elements :: stack =>
    some { b with stack := .array (value :: elements) :: stack, expected := .separator }
  | .member members name :: stack =>
    some { b with stack := .object ((name, value) :: members) :: stack, expected := .separator }
  | .object _ :: _ => none

/-- Closes the innermost container and leaves the others. Its value is lost if it is too deep. -/
def leave (b : Builder) (stack : List Container) (value : Json) : Option Builder :=
  put { b with stack, depth := b.depth - 1 } (if b.depth ≤ maxDepth then value else .unreadable)

def step (b : Builder) (token : Token) : Option Builder :=
  let takesValue := b.expected = .value ∨ b.expected = .firstElement
  match token, b.stack with
  | .scalar value, _ => if takesValue then b.put value else none
  | .openArray, _ => if takesValue then some (b.enter (.array []) .firstElement) else none
  | .openObject, _ => if takesValue then some (b.enter (.object []) .firstName) else none
  | .text value, stack =>
    if takesValue then b.put ((value.map .text).getD .unreadable)
    else
      match stack with
      | .object members :: rest =>
        if b.expected = .firstName ∨ b.expected = .name then
          some { b with stack := .member members value :: rest, expected := .colon }
        else none
      | _ => none
  | .colon, _ => if b.expected = .colon then some { b with expected := .value } else none
  | .comma, .array _ :: _ =>
    if b.expected = .separator then some { b with expected := .value } else none
  | .comma, .object _ :: _ =>
    if b.expected = .separator then some { b with expected := .name } else none
  | .closeArray, .array elements :: stack =>
    if b.expected = .separator ∨ b.expected = .firstElement then
      b.leave stack (.array elements.reverse)
    else none
  | .closeObject, .object members :: stack =>
    if b.expected = .separator ∨ b.expected = .firstName then
      b.leave stack (ofMembers members.reverse)
    else none
  | _, _ => none

end Builder

def read? (text : String) : Option Json := do
  let b ← (← tokens? text).foldlM Builder.step {}
  b.result

end HostBridge.Json
