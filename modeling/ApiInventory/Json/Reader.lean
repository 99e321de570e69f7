import ApiInventory.Json.Value
import ApiInventory.Text.Utf8

/-!
# Reading JSON

The reader takes exactly one document: a value with nothing but blanks around it. It is
strict about numbers, escapes and commas. It reads characters that may be marked as
ill-formed; such a mark may stand inside a string literal, which then has no text.
-/

namespace ApiInventory.Json

/-- The text to read: characters, or marks for ill-formed bytes. -/
abbrev Input := List (Option Char)

def isSpace (c : Option Char) : Bool :=
  c == some ' ' || c == some '\n' || c == some '\t' || c == some '\r'

def skipSpace (input : Input) : Input := input.dropWhile isSpace

/-- What follows a word that the input begins with. -/
def afterWord? : List Char → Input → Option Input
  | [], rest => some rest
  | c :: cs, some d :: rest => if c = d then afterWord? cs rest else none
  | _ :: _, _ => none

/-! ## Numbers -/

def isDigit (c : Option Char) : Bool := (c.map Char.isDigit).getD false

/-- The digits at the front, and what follows them. -/
def spanDigits (input : Input) : List Char × Input :=
  ((input.takeWhile isDigit).filterMap id, input.dropWhile isDigit)

/-- One or more digits. -/
def digits? (input : Input) : Option (List Char × Input) :=
  match spanDigits input with
  | ([], _) => none
  | found => some found

/-- A whole number: a zero alone, or digits that do not begin with one. -/
def whole? (input : Input) : Option (List Char × Input) :=
  match input with
  | some '0' :: rest => if (rest.head?.map isDigit).getD false then none else some (['0'], rest)
  | _ => digits? input

/-- The part after a point, if there is a point. -/
def fraction? (input : Input) : Option (List Char × Input) :=
  match input with
  | some '.' :: rest => (digits? rest).map fun (ds, rest) => ('.' :: ds, rest)
  | _ => some ([], input)

/-- The exponent, if there is one. -/
def exponent? (input : Input) : Option (List Char × Input) :=
  match input with
  | some e :: rest =>
    if e = 'e' || e = 'E' then
      match rest with
      | some s :: more =>
        if s = '+' || s = '-' then (digits? more).map fun (ds, rest) => (e :: s :: ds, rest)
        else (digits? rest).map fun (ds, rest) => (e :: ds, rest)
      | _ => none
    else some ([], input)
  | _ => some ([], input)

def number? (input : Input) : Option (String × Input) :=
  let (sign, body) :=
    match input with
    | some '-' :: rest => (['-'], rest)
    | _ => ([], input)
  match whole? body with
  | none => none
  | some (w, rest) =>
    match fraction? rest with
    | none => none
    | some (f, rest) =>
      (exponent? rest).map fun (e, rest) => (String.ofList (sign ++ w ++ f ++ e), rest)

/-! ## Strings -/

def hexValue (c : Char) : Option Nat :=
  if c.isDigit then some (c.toNat - '0'.toNat)
  else if 'a' ≤ c && c ≤ 'f' then some (c.toNat - 'a'.toNat + 10)
  else if 'A' ≤ c && c ≤ 'F' then some (c.toNat - 'A'.toNat + 10)
  else none

/-- The code unit of four hexadecimal digits. -/
def unit? : Input → Option (Nat × Input)
  | some a :: some b :: some c :: some d :: rest =>
    match hexValue a, hexValue b, hexValue c, hexValue d with
    | some a, some b, some c, some d => some (((a * 16 + b) * 16 + c) * 16 + d, rest)
    | _, _, _, _ => none
  | _ => none

/-- A piece of a string literal: a code unit that was named, a character that stands for
itself, or an ill-formed spot. -/
inductive Piece where
  | unit (value : Nat)
  | char (c : Char)
  | illFormed
deriving DecidableEq

/-- The character that a letter after a backslash stands for. -/
def simpleEscape : Char → Option Char
  | '\x22' => some '\x22'
  | '\\' => some '\\'
  | '/' => some '/'
  | 'b' => some '\x08'
  | 'f' => some '\x0c'
  | 'n' => some '\n'
  | 'r' => some '\r'
  | 't' => some '\t'
  | _ => none

/-- The pieces of a string literal after its opening quote, in reverse. -/
def pieces? (done : List Piece) : Input → Option (List Piece × Input)
  | [] => none
  | none :: rest => pieces? (.illFormed :: done) rest
  | some '\x22' :: rest => some (done, rest)
  | some '\\' :: some 'u' :: some a :: some b :: some c :: some d :: rest =>
    match unit? [some a, some b, some c, some d] with
    | some (u, _) => pieces? (.unit u :: done) rest
    | none => none
  | some '\\' :: some e :: rest =>
    match simpleEscape e with
    | some c => pieces? (.char c :: done) rest
    | none => none
  | some c :: rest =>
    if c = '\\' || c.toNat < 0x20 then none else pieces? (.char c :: done) rest

/-- The text that pieces spell. Units of a surrogate pair belong together; half a pair
spells nothing. -/
def spell : List Piece → Option (List Char)
  | [] => some []
  | .char c :: rest => (spell rest).map (c :: ·)
  | .illFormed :: _ => none
  | .unit u :: rest =>
    if 0xdc00 ≤ u && u ≤ 0xdfff then none
    else if 0xd800 ≤ u && u ≤ 0xdbff then
      match rest with
      | .unit v :: rest =>
        if 0xdc00 ≤ v && v ≤ 0xdfff then
          (spell rest).map (Char.ofNat (0x10000 + (u - 0xd800) * 0x400 + (v - 0xdc00)) :: ·)
        else none
      | _ => none
    else (spell rest).map (Char.ofNat u :: ·)

/-- A string literal after its opening quote. -/
def literal? (input : Input) : Option (Option String × Input) :=
  (pieces? [] input).map fun (pieces, rest) => ((spell pieces.reverse).map String.ofList, rest)

/-! ## Values -/

mutual

/-- A value, and what follows it. -/
def value? : Nat → Input → Option (Json × Input)
  | 0, _ => none
  | fuel + 1, input =>
    match skipSpace input with
    | some '\x22' :: rest => (literal? rest).map fun (t, rest) => (.string t, rest)
    | some '[' :: rest =>
      match skipSpace rest with
      | some ']' :: rest => some (.array [], rest)
      | rest => (items? fuel rest).map fun (items, rest) => (.array items, rest)
    | some '\x7b' :: rest =>
      match skipSpace rest with
      | some '\x7d' :: rest => some (.object [], rest)
      | rest => (members? fuel rest).map fun (members, rest) => (.object members, rest)
    | some 'n' :: rest => (afterWord? "ull".toList rest).map fun rest => (.null, rest)
    | some 't' :: rest => (afterWord? "rue".toList rest).map fun rest => (.bool true, rest)
    | some 'f' :: rest => (afterWord? "alse".toList rest).map fun rest => (.bool false, rest)
    | rest => (number? rest).map fun (spelling, rest) => (.number spelling, rest)

/-- The items of an array, at least one, up to its closing bracket. -/
def items? : Nat → Input → Option (List Json × Input)
  | 0, _ => none
  | fuel + 1, input =>
    match value? fuel input with
    | none => none
    | some (v, rest) =>
      match skipSpace rest with
      | some ',' :: rest => (items? fuel rest).map fun (vs, rest) => (v :: vs, rest)
      | some ']' :: rest => some ([v], rest)
      | _ => none

/-- The members of an object, at least one, up to its closing brace. -/
def members? : Nat → Input → Option (List (Option String × Json) × Input)
  | 0, _ => none
  | fuel + 1, input =>
    match skipSpace input with
    | some '\x22' :: rest =>
      match literal? rest with
      | none => none
      | some (key, rest) =>
        match skipSpace rest with
        | some ':' :: rest =>
          match value? fuel rest with
          | none => none
          | some (v, rest) =>
            match skipSpace rest with
            | some ',' :: rest =>
              (members? fuel rest).map fun (ms, rest) => ((key, v) :: ms, rest)
            | some '\x7d' :: rest => some ([(key, v)], rest)
            | _ => none
        | _ => none
    | _ => none

end

/-- Enough steps for any value in an input. -/
def fuelFor (input : Input) : Nat := 2 * input.length + 2

/-- One document. -/
def read? (input : Input) : Option Json :=
  match value? (fuelFor input) input with
  | none => none
  | some (v, rest) => if skipSpace rest = [] then some v else none

def ofText? (s : String) : Option Json := read? (s.toList.map some)

def ofBytes? (bytes : ByteArray) : Option Json := read? (Text.marked bytes.toList)

end ApiInventory.Json
