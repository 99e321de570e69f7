import ApiInventory.Text.Split
import ApiInventory.Text.Utf8

/-!
# Web addresses

An address on the web is read leniently and kept in one form: blanks around it and line
breaks inside do not count, backslashes are slashes, the scheme and the host are in lower
case, dots in the path are resolved, and characters that may not stand in a path or
query are written as percent and two digits for each byte.
-/

namespace ApiInventory.Index

structure Address where
  isSecure : Bool
  host : String
  hostPort : Nat
  /-- The path with its leading slash. -/
  path : String
  query : Option String
deriving DecidableEq, Repr

namespace Address

/-! ## Percent encoding -/

def upperHexDigit (n : Nat) : Char :=
  if n < 10 then Char.ofNat ('0'.toNat + n) else Char.ofNat ('A'.toNat + (n - 10))

def percentByte (b : UInt8) : List Char :=
  ['%', upperHexDigit (b.toNat / 16), upperHexDigit (b.toNat % 16)]

/-- A character as it is, or byte by byte if it is one of those to encode. -/
def encodeChar (isEncoded : Char → Bool) (c : Char) : List Char :=
  if isEncoded c then (Text.encode (String.singleton c)).toList.flatMap percentByte else [c]

/-- Controls and everything beyond the ASCII range. -/
def isOutside (c : Char) : Bool := c.toNat < 0x20 || 0x7e < c.toNat

def isQueryEncoded (c : Char) : Bool := isOutside c || " \x22#<>'".toList.contains c

def isPathEncoded (c : Char) : Bool := isOutside c || " \x22#<>?^\x60\x7b\x7d".toList.contains c

/-! ## Parts of an address -/

/-- Blanks and controls around an address do not count, nor do tabs and line breaks in it. -/
def cleanedText (text : List Char) : List Char :=
  let isEdge := fun c : Char => c.toNat ≤ 0x20
  let inner := ((text.dropWhile isEdge).reverse.dropWhile isEdge).reverse
  inner.filter fun c => c ≠ '\t' && c ≠ '\n' && c ≠ '\r'

def isSchemeChar (c : Char) : Bool := c.isAlphanum || c == '+' || c == '-' || c == '.'

/-- The scheme in lower case, and what follows its colon. -/
def scheme? (text : List Char) : Option (String × List Char) :=
  let name := text.takeWhile isSchemeChar
  match name, text.drop name.length with
  | first :: _, ':' :: rest =>
    if first.isAlpha then some (String.ofList (name.map Char.toLower), rest) else none
  | _, _ => none

def isSlash (c : Char) : Bool := c == '/' || c == '\\'

/-- What stands after the last at sign. -/
def afterUser (authority : List Char) : List Char :=
  (authority.reverse.takeWhile (· ≠ '@')).reverse

/-- The number after the colon of a host, which may be left out for the usual one. -/
def hostPort? (usual : Nat) (digits : List Char) : Option Nat :=
  if !digits.all Char.isDigit then none
  else if digits = [] then some usual
  else
    let n := digits.foldl (fun n c => 10 * n + (c.toNat - '0'.toNat)) 0
    if n < 65536 then some n else none

/-- The host and what follows its colon. A colon inside brackets is part of the host. -/
def splitPort (text : List Char) : List Char × List Char :=
  let inBrackets := text.takeWhile (· ≠ ']')
  let start := if text.head? = some '[' then inBrackets.length else 0
  let host := text.take start ++ (text.drop start).takeWhile (· ≠ ':')
  (host, (text.drop host.length).drop 1)

def hexDigitValue (c : Char) : Option Nat :=
  if c.isDigit then some (c.toNat - '0'.toNat)
  else if 'a' ≤ c.toLower && c.toLower ≤ 'f' then some (c.toLower.toNat - 'a'.toNat + 10)
  else none

/-- The bytes of a text in which a percent sign and two digits stand for a byte. -/
def percentDecoded : List Char → List UInt8
  | '%' :: a :: b :: rest =>
    match hexDigitValue a, hexDigitValue b with
    | some x, some y => UInt8.ofNat (16 * x + y) :: percentDecoded rest
    | _, _ => 0x25 :: percentDecoded (a :: b :: rest)
  | c :: rest => (Text.encode (String.singleton c)).toList ++ percentDecoded rest
  | [] => []

def isForbiddenInHost (c : Char) : Bool :=
  c.toNat ≤ 0x20 || c.toNat == 0x7f || "#/<>?@[\\]^|%:".toList.contains c

/-- A host name in lower case. -/
def host? (text : List Char) : Option String :=
  if text.head? = some '[' then
    if text.getLast? = some ']' then some (String.ofList (text.map Char.toLower)) else none
  else
    let name := (Text.decodeLossy ⟨(percentDecoded text).toArray⟩).toList.map Char.toLower
    if name = [] || name.any isForbiddenInHost then none else some (String.ofList name)

/-! ## Paths -/

/-- A segment in which encoded dots are written as dots. -/
def withDots : List Char → List Char
  | '%' :: '2' :: e :: rest =>
    if e = 'e' || e = 'E' then '.' :: withDots rest else '%' :: '2' :: e :: withDots rest
  | c :: rest => c :: withDots rest
  | [] => []

/-- Resolve dots among segments. `done` is in reverse. A path that ends in dots is one of
a directory. -/
def resolveDots (done : List (List Char)) : List (List Char) → List (List Char)
  | [] => done.reverse
  | s :: rest =>
    let dots := withDots s
    let isLast := rest.isEmpty
    if dots = ['.', '.'] then
      resolveDots (if isLast then [] :: done.drop 1 else done.drop 1) rest
    else if dots = ['.'] then resolveDots (if isLast then [] :: done else done) rest
    else resolveDots (s :: done) rest

/-- The path of a text that is empty or begins with a slash. -/
def pathOf (text : List Char) : String :=
  let segments :=
    (Text.pieces '/' (text.map fun c => if isSlash c then '/' else c)).drop 1
  let encoded := segments.map fun s => s.flatMap (encodeChar isPathEncoded)
  String.ofList ('/' :: Text.join '/' (resolveDots [] encoded))

/-! ## Reading -/

/-- What follows the authority of an address. -/
def rest? (isSecure : Bool) (host : String) (hostPort : Nat) (text : List Char) : Address :=
  let visible := text.takeWhile (· ≠ '#')
  let path := visible.takeWhile (· ≠ '?')
  { isSecure, host, hostPort
    path := pathOf path
    query :=
      match visible.drop path.length with
      | [] => none
      | _ :: query => some (String.ofList (query.flatMap (encodeChar isQueryEncoded))) }

def usualPort (isSecure : Bool) : Nat := if isSecure then 443 else 80

/-- An address of one of the two schemes of the web. -/
def parse? (text : String) : Option Address :=
  (scheme? (cleanedText text.toList)).bind fun (scheme, rest) =>
    if scheme ≠ "http" && scheme ≠ "https" then none
    else
      let isSecure := decide (scheme = "https")
      let body := rest.dropWhile isSlash
      let authority := body.takeWhile fun c => !isSlash c && c ≠ '?' && c ≠ '#'
      let (host, hostPort) := splitPort (afterUser authority)
      match host? host, hostPort? (usualPort isSecure) hostPort with
      | some host, some hostPort => some (rest? isSecure host hostPort (body.drop authority.length))
      | _, _ => none

/-- What is asked of the host: the path, and the query if there is one. -/
def target (a : Address) : String :=
  match a.query with
  | none => a.path
  | some q => a.path ++ "?" ++ q

end Address

end ApiInventory.Index
