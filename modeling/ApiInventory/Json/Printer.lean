import ApiInventory.Json.Value

/-!
# Writing JSON

The compact form has no blanks. The pretty form puts each item on a line of its own,
indented by two spaces for each level; empty arrays and objects stay on their line. Only
the quote, the backslash and control characters are escaped.
-/

namespace ApiInventory.Json

def hexDigit (n : Nat) : Char :=
  if n < 10 then Char.ofNat ('0'.toNat + n) else Char.ofNat ('a'.toNat + (n - 10))

/-- How a character is written inside a string literal. -/
def escaped (c : Char) : List Char :=
  if c = '\x22' then ['\\', '\x22']
  else if c = '\\' then ['\\', '\\']
  else if c = '\x08' then ['\\', 'b']
  else if c = '\t' then ['\\', 't']
  else if c = '\n' then ['\\', 'n']
  else if c = '\x0c' then ['\\', 'f']
  else if c = '\r' then ['\\', 'r']
  else if c.toNat < 0x20 then
    ['\\', 'u', '0', '0', hexDigit (c.toNat / 16), hexDigit (c.toNat % 16)]
  else [c]

def quoted (text : List Char) : List Char :=
  '\x22' :: (text.flatMap escaped ++ ['\x22'])

def quotedText (s : String) : List Char := quoted s.toList

/-- How items are set apart. -/
structure Style where
  /-- What stands before an item at a depth. -/
  gap : Nat → List Char
  /-- What stands between a key and its value. -/
  colon : List Char

def compactStyle : Style := { gap := fun _ => [], colon := [':'] }

def prettyStyle : Style where
  gap depth := '\n' :: List.replicate (2 * depth) ' '
  colon := [':', ' ']

/-- Items between brackets, those already written. -/
def bracketed (style : Style) (depth : Nat) (opening closing : Char) (items : List (List Char)) :
    List Char :=
  match items with
  | [] => [opening, closing]
  | first :: rest =>
    opening :: (style.gap (depth + 1) ++ first ++
      (rest.flatMap fun i => ',' :: (style.gap (depth + 1) ++ i)) ++
      style.gap depth ++ [closing])

/-- A string literal that spells no text is written empty. -/
def keyText (key : Option String) : List Char := quotedText (key.getD "")

mutual

def write (style : Style) (depth : Nat) : Json → List Char
  | .null => "null".toList
  | .bool true => "true".toList
  | .bool false => "false".toList
  | .number spelling => spelling.toList
  | .string text => keyText text
  | .array items => bracketed style depth '[' ']' (writeItems style (depth + 1) items)
  | .object members =>
    bracketed style depth '\x7b' '\x7d' (writeMembers style (depth + 1) members)

def writeItems (style : Style) (depth : Nat) : List Json → List (List Char)
  | [] => []
  | v :: rest => write style depth v :: writeItems style depth rest

def writeMembers (style : Style) (depth : Nat) :
    List (Option String × Json) → List (List Char)
  | [] => []
  | (key, v) :: rest =>
    (keyText key ++ style.colon ++ write style depth v) :: writeMembers style depth rest

end

def compact (v : Json) : String := String.ofList (write compactStyle 0 v)

def pretty (v : Json) : String := String.ofList (write prettyStyle 0 v)

end ApiInventory.Json
