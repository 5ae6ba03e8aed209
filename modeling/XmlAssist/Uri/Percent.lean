/-!
# Percent encoding

Characters that a part of a URI may not hold are written as the bytes of their UTF-8 form, each as
`%` and two hexadecimal digits. Each part has its own set of such characters; control characters
and all that is not ASCII belong to every set.
-/

namespace XmlAssist.Uri

/-- The uppercase hexadecimal digit of a number below sixteen. -/
def upperHex (n : Nat) : Char := if n < 10 then Char.ofNat (48 + n) else Char.ofNat (55 + n)

/-- A byte as `%` and two digits. -/
def percentByte (b : UInt8) : List Char := ['%', upperHex (b.toNat / 16), upperHex (b.toNat % 16)]

/-- The bytes of a text. -/
def bytes (s : String) : List UInt8 := s.toUTF8.data.toList

/-- A character, encoded if it is in the set. -/
def encodeChar (inSet : Char → Bool) (c : Char) : List Char :=
  if c.toNat < 0x20 || 0x7E < c.toNat || inSet c then (bytes (String.singleton c)).flatMap percentByte
  else [c]

/-- A text with the characters of the set encoded. -/
def encode (inSet : Char → Bool) (cs : List Char) : List Char := cs.flatMap (encodeChar inSet)

/-- Only the characters of every set. -/
def controlSet (_ : Char) : Bool := false

/-- The characters that a fragment may not hold. -/
def fragmentSet (c : Char) : Bool := c == ' ' || c == '"' || c == '<' || c == '>' || c.toNat == 0x60

/-- The characters that a segment of a path may not hold. -/
def pathSet (c : Char) : Bool := fragmentSet c || c == '#' || c == '?' || c == '{' || c == '}'

/-- The characters that a user name or a password may not hold. -/
def userSet (c : Char) : Bool :=
  pathSet c || c == '/' || c == ':' || c == ';' || c == '=' || c == '@' || c == '[' || c == '\\' ||
    c == ']' || c == '^' || c == '|'

/-- The characters that a query may not hold. -/
def querySet (c : Char) : Bool := c == ' ' || c == '"' || c == '#' || c == '<' || c == '>'

/-- The characters that a query of a special scheme may not hold. -/
def specialQuerySet (c : Char) : Bool := querySet c || c == '\''

/-- The value of a hexadecimal digit. -/
def hexValue? (c : Char) : Option Nat :=
  if c.isDigit then some (c.toNat - 48)
  else if 'a' ≤ c && c ≤ 'f' then some (c.toNat - 87)
  else if 'A' ≤ c && c ≤ 'F' then some (c.toNat - 55)
  else none

/-- The bytes that a text with encoded characters stands for; a `%` without two digits is itself. -/
def decodeBytes : List Char → List UInt8
  | '%' :: a :: b :: rest =>
    match hexValue? a, hexValue? b with
    | some x, some y => UInt8.ofNat (x * 16 + y) :: decodeBytes rest
    | _, _ => 0x25 :: decodeBytes (a :: b :: rest)
  | c :: rest => bytes (String.singleton c) ++ decodeBytes rest
  | [] => []

/-- The text that a text with encoded characters stands for, if its bytes are one. -/
def decode? (cs : List Char) : Option String := String.fromUTF8? ⟨(decodeBytes cs).toArray⟩

end XmlAssist.Uri
