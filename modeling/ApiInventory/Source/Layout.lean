/-!
# Line structure and strings

Some tokens hang on more than the characters in front: the ends of lines, the depth
of indentation, and the inside of string literals. `Layout.scan` finds them. It keeps
the open indentation levels and the open string literals, and which of its tokens may
come next decides what it looks for: inside brackets no line ends.

A tab counts eight columns, and a form feed or carriage return starts the count anew.
Comment lines and blank lines have no indentation of their own. A code point
of zero ends any run of characters, as the end of the text does.
-/

namespace ApiInventory.Source

/-- An open string literal. -/
structure Quote where
  mark : Char
  triple : Bool
  raw : Bool
  bytes : Bool
  interpolated : Bool
deriving DecidableEq, Repr

/-- The open indentation levels, innermost first, and the open string literals. -/
structure Layout where
  levels : List Nat
  quotes : List Quote
  /-- Whether the string literal begun last is interpolated and still open. -/
  interpolating : Bool
deriving DecidableEq, Repr

namespace Layout

inductive Token where
  | newline
  | indent
  | dedent
  | stringStart
  | stringContent
  | doubledBrace
  | stringEnd
deriving DecidableEq, Repr

/-- What may come next, as far as line structure and strings go. -/
structure Expected where
  newline : Bool
  indent : Bool
  dedent : Bool
  stringStart : Bool
  stringContent : Bool
  doubledBrace : Bool
  /-- A closing bracket. -/
  closing : Bool
  /-- A handler clause. -/
  handler : Bool

structure Found where
  token : Token
  taken : Nat
  rest : List Char
  layout : Layout

def initial : Layout := { levels := [], quotes := [], interpolating := false }

/-- The column of the innermost open block. -/
def column (s : Layout) : Nat := s.levels.headD 0

def zero : Char := '\x00'

def isBrace (c : Char) : Bool := c == '\x7b' || c == '\x7d'

/-- What the body of a string literal comes to. -/
inductive Run where
  | content (taken : Nat) (rest : List Char)
  | closed (taken : Nat) (rest : List Char)
  | nothing
  /-- The text is over before the literal is. -/
  | over (taken : Nat) (rest : List Char)

/-- Run through the body of a literal. `passed` says that some content has been.

In a raw literal a backslash takes a quote, a backslash or a line break with it. In a
bytes literal the named escapes are plain text. Any other backslash ends the
content, and so does a brace in an interpolated literal. -/
def run (q : Quote) (taken : Nat) (passed : Bool) : List Char → Run
  | [] => .over taken []
  | c :: cs =>
    if c = zero then .over taken (c :: cs)
    else if q.interpolated && isBrace c then
      if passed then .content taken (c :: cs) else .nothing
    else if c = '\\' then
      if q.raw then
        match cs with
        | '\r' :: '\n' :: ds => run q (taken + 3) passed ds
        | '\r' :: ds => run q (taken + 2) passed ds
        | '\n' :: ds => run q (taken + 2) passed ds
        | d :: ds =>
          if d = q.mark || d = '\\' then
            match ds with
            | '\r' :: '\n' :: es => run q (taken + 4) passed es
            | '\r' :: es => run q (taken + 3) passed es
            | '\n' :: es => run q (taken + 3) passed es
            | es => run q (taken + 2) passed es
          else run q (taken + 1) passed (d :: ds)
        | [] => run q (taken + 1) passed []
      else if q.bytes then
        match cs with
        | d :: ds =>
          if d = 'N' || d = 'u' || d = 'U' then
            match ds with
            | _ :: es => run q (taken + 3) true es
            | [] => run q (taken + 2) true []
          else if passed then .content taken (c :: d :: ds) else .nothing
        | [] => if passed then .content taken [c] else .nothing
      else if passed then .content taken (c :: cs) else .nothing
    else if c = q.mark then
      if q.triple then
        match cs with
        | d :: e :: rest =>
          if d = q.mark then
            if e = q.mark then
              if passed then .content taken (c :: d :: e :: rest) else .closed (taken + 3) rest
            else .content (taken + 2) (e :: rest)
          else .content (taken + 1) (d :: e :: rest)
        | [d] => if d = q.mark then .content (taken + 2) [] else .content (taken + 1) [d]
        | [] => .content (taken + 1) []
      else if passed then .content taken (c :: cs) else .closed (taken + 1) cs
    else if c = '\n' && passed && !q.triple then .nothing
    else run q (taken + 1) true cs

/-- Blanks and comments passed so far. -/
structure Blank where
  lineEnded : Bool
  column : Nat
  /-- The column of the first comment that has a line to itself. -/
  comment : Option Nat

/-- Pass blanks, line joins and, if they may be passed here, comments. `none` says
that no token of the layout can follow. -/
def passBlank (comments : Bool) :
    (inComment : Bool) → Blank → Nat → List Char → Option (Blank × Nat × List Char)
  | _, b, taken, [] => some ({ b with lineEnded := true, column := 0 }, taken, [])
  | true, b, taken, c :: cs =>
    if c = '\n' || c = zero then passBlank comments false { b with column := 0 } (taken + 1) cs
    else passBlank comments true b (taken + 1) cs
  | false, b, taken, c :: cs =>
    if c = '\n' then
      passBlank comments false { b with lineEnded := true, column := 0 } (taken + 1) cs
    else if c = ' ' then
      passBlank comments false { b with column := b.column + 1 } (taken + 1) cs
    else if c = '\r' || c = '\x0c' then
      passBlank comments false { b with column := 0 } (taken + 1) cs
    else if c = '\t' then
      passBlank comments false { b with column := b.column + 8 } (taken + 1) cs
    else if c = '#' && comments then
      if b.lineEnded then
        let b := { b with comment := b.comment <|> some b.column }
        passBlank comments true b (taken + 1) cs
      else none
    else if c = '\\' then
      match cs with
      | [] => passBlank comments false b (taken + 1) []
      | ['\r'] => passBlank comments false b (taken + 2) []
      | '\n' :: ds => passBlank comments false b (taken + 2) ds
      | '\r' :: '\n' :: ds => passBlank comments false b (taken + 3) ds
      | _ => none
    else some (b, taken, c :: cs)

/-- The letters in front of a string literal. -/
def flags : Quote → Nat → List Char → Quote × Nat × List Char
  | q, taken, [] => (q, taken, [])
  | q, taken, c :: cs =>
    if c = 'f' || c = 'F' || c = 't' || c = 'T' then
      flags { q with interpolated := true } (taken + 1) cs
    else if c = 'r' || c = 'R' then flags { q with raw := true } (taken + 1) cs
    else if c = 'b' || c = 'B' then flags { q with bytes := true } (taken + 1) cs
    else if c = 'u' || c = 'U' then flags q (taken + 1) cs
    else (q, taken, c :: cs)

def isMark (c : Char) : Bool := c == '\x22' || c == '\x27' || c == '\x60'

/-- The opening of a string literal. -/
def opening (text : List Char) : Option (Quote × Nat × List Char) :=
  match flags ⟨zero, false, false, false, false⟩ 0 text with
  | (_, _, []) => none
  | (q, taken, c :: cs) =>
    if c = '\x60' then some ({ q with mark := c }, taken + 1, cs)
    else if isMark c then
      match cs with
      | d :: e :: rest =>
        if d = c && e = c then some ({ q with mark := c, triple := true }, taken + 3, rest)
        else some ({ q with mark := c }, taken + 1, cs)
      | _ => some ({ q with mark := c }, taken + 1, cs)
    else none

/-- The tokens of line ends and the openings of strings. Line ends, indents and dedents
take no characters. -/
def scanBlank (e : Expected) (s : Layout) (before : Nat) (text : List Char) : Option Found :=
  let comments := e.indent || e.dedent || e.newline || e.handler
  match passBlank comments false ⟨false, 0, none⟩ 0 text with
  | none => none
  | some (b, taken, rest) =>
    let here := fun token layout => some (⟨token, before, text, layout⟩ : Found)
    let atQuote := (rest.head?.map isMark).getD false
    let dedents := e.dedent || (!e.newline && !(e.stringStart && atQuote) && !e.closing)
    let commentsLeft := (b.comment.map (decide <| · < s.column)).getD true
    if b.lineEnded && e.indent && b.column > s.column then
      here .indent { s with levels := b.column :: s.levels }
    else if b.lineEnded && dedents && b.column < s.column && !s.interpolating && commentsLeft then
      here .dedent { s with levels := s.levels.tail }
    else if b.lineEnded && e.newline then here .newline s
    else if b.comment.isNone && e.stringStart then
      match opening rest with
      | none => none
      | some (q, n, rest) =>
        some
          { token := .stringStart
            taken := before + taken + n
            rest
            layout := { s with quotes := q :: s.quotes, interpolating := q.interpolated } }
    else none

/-- The token of the layout at the front of a text, if there is one. -/
def scan (e : Expected) (s : Layout) (text : List Char) : Option Found :=
  match s.quotes, text with
  | [], _ => scanBlank e s 0 text
  | q :: quotes, text =>
    let braces :=
      match text with
      | c :: _ => e.doubledBrace && q.interpolated && isBrace c
      | [] => false
    if braces then
      match text with
      | c :: d :: rest => if c = d then some ⟨.doubledBrace, 2, rest, s⟩ else none
      | _ => none
    else if e.stringContent then
      match run q 0 false text with
      | .content taken rest => some ⟨.stringContent, taken, rest, s⟩
      | .closed taken rest =>
        some ⟨.stringEnd, taken, rest, { s with quotes, interpolating := false }⟩
      | .nothing => none
      | .over taken rest => scanBlank e s taken rest
    else scanBlank e s 0 text

end Layout

end ApiInventory.Source
