import ApiInventory.Source.Identifier
import ApiInventory.Source.Layout
import ApiInventory.Syntax.Parse

/-!
# Tokens

The layout is asked first; then blanks are passed and the longest token among those
allowed is taken. Of two tokens of one length a literal wins over a pattern. A word
is a keyword if the keyword is allowed at its place or reserved everywhere, and a
name otherwise.
-/

namespace ApiInventory.Source

open Syntax (Numbered Lexer Lexeme)

/-- The terminals of the grammar, by name. -/
structure Vocabulary where
  newline : Nat
  indent : Nat
  dedent : Nat
  stringStart : Nat
  stringContent : Nat
  doubledBrace : Nat
  stringEnd : Nat
  closers : List Nat
  handler : Nat
  identifier : Nat
  integer : Nat
  float : Nat
  escape : Nat
  backslash : Nat
  formatText : Nat
  conversion : Nat
  words : List (String × Nat)
  /-- Longer marks first. -/
  marks : List (List Char × Nat)

namespace Vocabulary

/-- Words that never are names. -/
def reserved : List String := [
  "False", "None", "True", "and", "as", "assert", "async", "await", "break", "class",
  "continue", "def", "del", "elif", "else", "except", "finally", "for", "from", "global",
  "if", "import", "in", "is", "lambda", "nonlocal", "not", "or", "pass", "raise", "return",
  "try", "while", "with", "yield"]

def isWord (spelling : String) : Bool :=
  match spelling.toList with
  | [] => false
  | c :: cs => Identifier.isStart c && cs.all Identifier.isContinue

def ofGrammar (g : Numbered) (literals : List String) : Vocabulary :=
  let numbered := literals.map fun l => (l, g.terminal l)
  let marks := (numbered.filter fun l => !isWord l.1).map fun (l, n) => (l.toList, n)
  { newline := g.terminal "_newline"
    indent := g.terminal "_indent"
    dedent := g.terminal "_dedent"
    stringStart := g.terminal "string_start"
    stringContent := g.terminal "_string_content"
    doubledBrace := g.terminal "escape_interpolation"
    stringEnd := g.terminal "string_end"
    closers := [g.terminal ")", g.terminal "]", g.terminal "\x7d"]
    handler := g.terminal "except"
    identifier := g.terminal "identifier"
    integer := g.terminal "integer"
    float := g.terminal "float"
    escape := g.terminal "escape_sequence"
    backslash := g.terminal "_not_escape_sequence"
    formatText := g.terminal "_format_text"
    conversion := g.terminal "type_conversion"
    words := numbered.filter fun l => isWord l.1
    marks := marks.mergeSort fun a b => b.1.length ≤ a.1.length }

def expected (v : Vocabulary) (allowed : Nat → Bool) : Layout.Expected where
  newline := allowed v.newline
  indent := allowed v.indent
  dedent := allowed v.dedent
  stringStart := allowed v.stringStart
  stringContent := allowed v.stringContent
  doubledBrace := allowed v.doubledBrace
  closing := v.closers.any allowed
  handler := allowed v.handler

def layoutTerminal (v : Vocabulary) : Layout.Token → Nat
  | .newline => v.newline
  | .indent => v.indent
  | .dedent => v.dedent
  | .stringStart => v.stringStart
  | .stringContent => v.stringContent
  | .doubledBrace => v.doubledBrace
  | .stringEnd => v.stringEnd

end Vocabulary

/-! ## Numbers -/

namespace Number

/-- One more digit, perhaps with an underscore in front, as often as it goes. The
count is of the characters passed. -/
def grouped (digit : Char → Bool) : Nat → List Char → Nat × List Char
  | n, '_' :: c :: cs => if digit c then grouped digit (n + 2) cs else (n, '_' :: c :: cs)
  | n, c :: cs => if digit c then grouped digit (n + 1) cs else (n, c :: cs)
  | n, [] => (n, [])

/-- Decimal digits with single underscores between them, and perhaps one at the end. -/
def digits (text : List Char) : Option (Nat × List Char) :=
  match text with
  | c :: cs =>
    if c.isDigit then
      match grouped Char.isDigit 1 cs with
      | (n, '_' :: rest) => some (n + 1, rest)
      | found => some found
    else none
  | [] => none

def afterOne (allowed : List Char) (found : Nat × List Char) : Nat × List Char :=
  match found with
  | (n, c :: cs) => if allowed.contains c then (n + 1, cs) else (n, c :: cs)
  | (n, []) => (n, [])

/-- Digits of a base given in front, as in `0x1f`. -/
def based (letters : List Char) (digit : Char → Bool) (text : List Char) : Option Nat :=
  match text with
  | '0' :: x :: rest =>
    if letters.contains x then
      match grouped digit 2 rest with
      | (2, _) => none
      | found => some (afterOne ['l', 'L'] found).1
    else none
  | _ => none

def isHexDigit (c : Char) : Bool :=
  c.isDigit || ('a' ≤ c && c ≤ 'f') || ('A' ≤ c && c ≤ 'F')

/-- The length of the integer at the front, the longest of its forms. -/
def integer (text : List Char) : Option Nat :=
  let forms := [
    based ['x', 'X'] isHexDigit text,
    based ['o', 'O'] (fun c => '0' ≤ c && c ≤ '7') text,
    based ['b', 'B'] (fun c => c == '0' || c == '1') text,
    (digits text).map fun found => (afterOne ['l', 'L', 'j', 'J'] found).1]
  (forms.filterMap id).max?

/-- An exponent, or nothing. -/
def exponent (found : Nat × List Char) : Option (Nat × List Char) :=
  match found with
  | (n, e :: cs) =>
    if e = 'e' || e = 'E' then
      let (m, rest) := afterOne ['+', '-'] (n + 1, cs)
      (digits rest).map fun (k, rest) => (m + k, rest)
    else none
  | (_, []) => none

def imaginary (found : Nat × List Char) : Nat := (afterOne ['j', 'J'] found).1

/-- What may follow the point. -/
def fraction (needed : Bool) (found : Nat × List Char) : Option (Nat × List Char) :=
  match found with
  | (n, '.' :: cs) =>
    match digits cs with
    | some (k, rest) =>
      let found := (n + 1 + k, rest)
      some ((exponent found).getD found)
    | none => if needed then none else some ((exponent (n + 1, cs)).getD (n + 1, cs))
  | _ => none

/-- The length of the floating point number at the front. -/
def float (text : List Char) : Option Nat :=
  match digits text with
  | none => (fraction true (0, text)).map imaginary
  | some found =>
    match fraction false found with
    | some whole => some (imaginary whole)
    | none => (exponent found).map imaginary

end Number

/-! ## Escapes -/

namespace Escape

def fixed (count : Nat) (text : List Char) : Bool :=
  (text.take count).length == count && (text.take count).all Number.isHexDigit

/-- The length of an escape sequence, its backslash included. -/
def length (text : List Char) : Option Nat :=
  match text with
  | '\\' :: c :: rest =>
    if c = 'u' then (if fixed 4 rest then some 6 else none)
    else if c = 'U' then (if fixed 8 rest then some 10 else none)
    else if c = 'x' then (if fixed 2 rest then some 4 else none)
    else if c = 'N' then
      match rest with
      | '\x7b' :: name =>
        let inside := name.takeWhile (· != '\x7d')
        if !inside.isEmpty && inside.length < name.length then some (inside.length + 4) else none
      | _ => none
    else if c.isDigit then some (2 + ((rest.take 2).takeWhile Char.isDigit).length)
    else if c = '\n' then some 2
    else if c = '\r' then
      match rest with
      | '\n' :: _ => some 3
      | _ => none
    else if "\x27\x22abfnrtv\\".contains c then some 2
    else none
  | _ => none

end Escape

/-! ## The lexer -/

namespace Vocabulary

/-- Blanks between tokens. -/
def isBlank (c : Char) : Bool :=
  ('\t' ≤ c && c ≤ '\r') || c == ' ' || c == '\u200b' || c == '\u2060' || c == '\ufeff'

/-- The text of a format specifier. -/
def isFormatChar (c : Char) : Bool :=
  !Layout.isBrace c && c != '\n' && c != Layout.zero

/-- A token that could be read here. -/
structure Candidate where
  length : Nat
  /-- Decides between candidates of one length. -/
  priority : Int
  role : Lexeme.Role

def longest : List Candidate → Option Candidate
  | [] => none
  | c :: cs =>
    match longest cs with
    | none => some c
    | some d =>
      if d.length > c.length || (d.length == c.length && d.priority > c.priority) then some d
      else some c

def startsWith : List Char → List Char → Bool
  | [], _ => true
  | _ :: _, [] => false
  | a :: as, b :: bs => a == b && startsWith as bs

/-- The length of a line join: a backslash at the end of a line. -/
def lineJoin (text : List Char) : Option Nat :=
  match text with
  | '\\' :: '\n' :: _ => some 2
  | '\\' :: '\r' :: '\n' :: _ => some 3
  | '\\' :: c :: _ => if c = Layout.zero then some 2 else none
  | _ => none

/-- The keyword or name that a word is. -/
def word (v : Vocabulary) (allowed : Nat → Bool) (spelling : String) : Nat :=
  match v.words.lookup spelling with
  | none => v.identifier
  | some k => if allowed k || reserved.contains spelling then k else v.identifier

/-- The tokens that could be read at the front. `immediate` says that no blank has been
passed; escapes are read only then. -/
def candidates (v : Vocabulary) (allowed : Nat → Bool) (immediate : Bool) (text : List Char) :
    List Candidate :=
  let pattern := fun (t : Nat) (priority : Int) (length : Option Nat) =>
    if allowed t then (length.map fun n => ⟨n, priority, .terminal t⟩ : Option Candidate)
    else none
  let extra := fun (kind : String) (length : Option Nat) =>
    (length.map fun n => ⟨n, 0, .extra kind⟩ : Option Candidate)
  match text with
  | [] => []
  | c :: cs =>
    if Identifier.isStart c then
      let name := c :: cs.takeWhile Identifier.isContinue
      [⟨name.length, 0, .terminal (v.word allowed (String.ofList name))⟩]
    else
      let mark := v.marks.find? fun (m, t) => startsWith m text && allowed t
      let found := [
        mark.map fun (m, t) => ⟨m.length, 1, .terminal t⟩,
        if c = '#' then
          extra "comment" (some (1 + (cs.takeWhile fun d => d != '\n' && d != Layout.zero).length))
        else none,
        extra "line_continuation" (lineJoin text),
        if immediate then pattern v.escape 2 (Escape.length text) else none,
        if immediate && c = '\\' then pattern v.backslash (-1) (some 1) else none,
        pattern v.integer 0 (Number.integer text),
        pattern v.float (-1) (Number.float text),
        if c = '!' then
          pattern v.conversion 0 (cs.head?.bind fun d =>
            if 'a' ≤ d && d ≤ 'z' then some 2 else none)
        else none]
      found.filterMap id

/-- Pass blanks and take the longest token. -/
def plain (v : Vocabulary) (allowed : Nat → Bool) (layout : Layout) :
    Nat → List Char → Option (Lexeme Layout)
  | passed, [] =>
    if allowed 0 then some ⟨.terminal 0, "", passed, [], layout⟩ else none
  | passed, c :: cs =>
    if allowed v.formatText && isFormatChar c then
      let text := (c :: cs).takeWhile isFormatChar
      some
        ⟨.terminal v.formatText, String.ofList text, passed + text.length,
          (c :: cs).dropWhile isFormatChar, layout⟩
    else if isBlank c then plain v allowed layout (passed + 1) cs
    else
      (longest (v.candidates allowed (passed == 0) (c :: cs))).map fun best =>
        ⟨best.role, String.ofList ((c :: cs).take best.length), passed + best.length,
          (c :: cs).drop best.length, layout⟩

/-- The next token or extra. -/
def next (v : Vocabulary) (allowed : Nat → Bool) (layout : Layout) (text : List Char) :
    Option (Lexeme Layout) :=
  match layout.scan (v.expected allowed) text with
  | some found =>
    some
      ⟨.terminal (v.layoutTerminal found.token), String.ofList (text.take found.taken),
        found.taken, found.rest, found.layout⟩
  | none => v.plain allowed layout 0 text

def lexer (v : Vocabulary) : Lexer Layout where
  initial := .initial
  next := v.next

end Vocabulary

end ApiInventory.Source
