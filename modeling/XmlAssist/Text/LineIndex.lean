import XmlAssist.Text.Bytes
import XmlAssist.Text.Span

/-!
# Lines of a text

Conversion between byte offsets and positions. A line ends at its line feed, which belongs to it;
offsets and positions that denote no place of the text are refused with the reason.

Offsets, lines and characters are natural numbers. An editor sends and gets them in 32 bits: what is
said here is meant for texts below 2 ^ 32 bytes, in which no offset, line or character is too large
for that.
-/

namespace XmlAssist

/-- Why an offset or a position denotes no place of the text. -/
inductive BadLocation where
  | line (line lineCount : Nat)
  | character (line character : Nat)
  | offset (offset length : Nat)
  | insideCharacter (offset : Nat)
deriving DecidableEq, Repr, Inhabited

/-- The wording of the reason. -/
def BadLocation.message : BadLocation → String
  | .line l n => s!"line {l} is out of range (document has {n} lines)"
  | .character l c => s!"character {c} is out of range on line {l}"
  | .offset o n => s!"offset {o} is out of range (document length is {n})"
  | .insideCharacter o => s!"offset {o} is not on a character boundary"

/-- The number of UTF-16 units of a character. -/
def Text.units16 (c : Char) : Nat := if c.toNat < 0x10000 then 1 else 2

/-- The number of UTF-16 units of a text. -/
def Text.length16 (s : String) : Nat := s.toList.foldl (fun n c => n + Text.units16 c) 0

/-- The offsets of the line feeds of a text, in order, and its length. -/
structure LineIndex where
  feeds : Array Nat
  length : Nat
deriving Repr, Inhabited

namespace LineIndex

/-- The offsets from `i` on that satisfy `p`, behind those already found. -/
def offsetsWhere (p : UInt8 → Bool) (s : String) (i : Nat) (found : Array Nat) : Array Nat :=
  if h : i < s.utf8ByteSize then
    offsetsWhere p s (i + 1) (if p (s.getUTF8Byte ⟨i⟩ h) then found.push i else found)
  else found
termination_by s.utf8ByteSize - i

/-- The lines of `s`. -/
def ofText (s : String) : LineIndex := ⟨offsetsWhere (· == 10) s 0 #[], Text.size s⟩

/-- The number of lines, one more than there are line feeds. -/
def lineCount (x : LineIndex) : Nat := x.feeds.size + 1

/-- The offset of the first character of a line. -/
def lineStart? (x : LineIndex) : Nat → Option Nat
  | 0 => some 0
  | n + 1 => x.feeds[n]?.map (· + 1)

/-- The offset of the line feed that ends a line, or of the end of the text. -/
def lineEnd? (x : LineIndex) (line : Nat) : Option Nat :=
  if line < x.lineCount then some (x.feeds[line]?.getD x.length) else none

/-- The line of an offset: the number of line feeds before it. -/
def lineOf (x : LineIndex) (offset : Nat) : Nat := x.feeds.countP (· < offset)

/-- The position of an offset. -/
def positionAt (x : LineIndex) (s : String) (offset : Nat) : Except BadLocation Position :=
  if x.length < offset then .error (.offset offset x.length)
  else if !Text.isBoundary s offset then .error (.insideCharacter offset)
  else
    let line := x.lineOf offset
    let start := (x.lineStart? line).getD 0
    .ok ⟨line, Text.length16 (Text.slice s start offset)⟩

/-- The offset `character` units after `offset`, in a line that goes on with `rest`. -/
def seek (offset character : Nat) : List Char → Option Nat
  | [] => if character = 0 then some offset else none
  | c :: rest =>
    if character = 0 then some offset
    else if character < Text.units16 c then none
    else seek (offset + c.utf8Size) (character - Text.units16 c) rest

/-- The offset of a position. A character behind the end of its line, or inside a surrogate pair,
is refused. -/
def offsetAt (x : LineIndex) (s : String) (p : Position) : Except BadLocation Nat :=
  match x.lineStart? p.line, x.lineEnd? p.line with
  | some start, some stop =>
    match seek start p.character (Text.slice s start stop).toList with
    | some o => .ok o
    | none => .error (.character p.line p.character)
  | _, _ => .error (.line p.line x.lineCount)

end LineIndex

end XmlAssist
