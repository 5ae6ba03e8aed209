import XmlAssist.Text.Bytes
import XmlAssist.Markup.Token

/-!
# The state of the lexer

The lexer cuts a text into tokens one after the other. Between two tokens it is at an offset and in
a mode, which says what may follow there; a scan can start at any offset in any mode. All its
decisions are about ASCII bytes.
-/

namespace XmlAssist

namespace Lexer

/-- How far a document type is read. -/
inductive DoctypeStage where
  | start
  | named
  | publicKeyword
  | systemKeyword
  | publicId
  | ids
  | subset
deriving DecidableEq, Repr, Inhabited

/-- How far a declaration is read. -/
inductive DeclarationStage where
  | elementStart
  | elementNamed
  | elementContent
  | elementDone
  | attlistStart
  | attributeName
  | attributeType
  | attributeDefault
  | entityStart
  | entityNamed
  | entityPublic
  | entitySystem
  | entityPublicId
  | entityDone
  | notationStart
  | notationNamed
  | notationPublic
  | notationSystem
  | notationPublicId
  | notationDone
deriving DecidableEq, Repr, Inhabited

/-- What the lexer expects next. -/
inductive Mode where
  | content
  | afterStartTagOpen
  | afterEndTagOpen
  | inTag
  | inEndTag
  | afterAttributeName
  | beforeAttributeValue
  | inComment
  | inCData
  | afterInstructionOpen
  | inInstruction
  | inProlog
  | dtdContent
  | doctype (stage : DoctypeStage)
  | declaration (stage : DeclarationStage)
deriving DecidableEq, Repr, Inhabited

/-- White space of markup: blank, tab, carriage return and line feed. -/
def isSpace (b : UInt8) : Bool := b == 0x20 || b == 0x09 || b == 0x0D || b == 0x0A

/-- Bytes of a name: ASCII letters and digits, `_ : - .`, and all that is not ASCII. -/
def isName (b : UInt8) : Bool :=
  (0x30 ≤ b && b ≤ 0x39) || (0x41 ≤ b && b ≤ 0x5A) || (0x61 ≤ b && b ≤ 0x7A) ||
    b == 0x5F || b == 0x3A || b == 0x2D || b == 0x2E || 0x80 ≤ b

/-- Bytes that start a name: those of a name but `-` and `.`. -/
def isNameStart (b : UInt8) : Bool := isName b && b != 0x2D && b != 0x2E

/-- A single or a double quote. -/
def isQuoteByte (b : UInt8) : Bool := b == 0x22 || b == 0x27

end Lexer

/-- A place in a text, with all that the tokens before it determine about those behind it. -/
structure Lexer where
  /-- The offset at which the next token starts. -/
  pos : Nat
  mode : Lexer.Mode
  /-- White space was read since the tag name or the last attribute. -/
  spaced : Bool := false
  /-- The attributes are those of the XML declaration. -/
  inProlog : Bool := false
  /-- Between the brackets of a document type. -/
  inSubset : Bool := false
  /-- The whole text is declarations. -/
  dtdFile : Bool := false
deriving DecidableEq, Repr, Inhabited

/-- A token's kind and fault, and the lexer behind it. -/
structure Lexed where
  kind : Token.Kind
  lexer : Lexer
  fault : Option Token.Fault := none
deriving DecidableEq, Repr, Inhabited

namespace Lexer

/-- The lexer at offset `offset` of `s` in a mode; an offset behind the end means the end. -/
def restart (s : String) (offset : Nat) (mode : Mode) : Lexer :=
  { pos := min offset (Text.size s), mode, inProlog := mode == .inProlog }

/-- The lexer at the start of a document. -/
def document : Lexer := { pos := 0, mode := .content }

/-- The lexer at the start of a file of declarations. -/
def declarations : Lexer := { pos := 0, mode := .dtdContent, dtdFile := true }

/-- Declarations are expected between the tokens here. -/
def inDtd (x : Lexer) : Bool := x.dtdFile || x.inSubset

/-- The mode between two pieces of markup. -/
def contentMode (x : Lexer) : Mode := if x.inDtd then .dtdContent else .content

/-- The mode between two attributes. -/
def tagMode (x : Lexer) : Mode := if x.inProlog then .inProlog else .inTag

/-- The byte under the cursor. -/
def peek (s : String) (x : Lexer) : Option UInt8 := Text.byte? s x.pos

/-- The byte under the cursor is `b`. -/
def sees (s : String) (x : Lexer) (b : UInt8) : Bool := x.peek s == some b

/-- The offset behind the name at `i`, if one starts there. -/
def name? (s : String) (i : Nat) : Option Nat :=
  match Text.byte? s i with
  | some b => if isNameStart b then some (Text.skipWhile isName s i) else none
  | none => none

/-- The offset behind the white space at `i`, if there is any. -/
def space? (s : String) (i : Nat) : Option Nat :=
  let j := Text.skipWhile isSpace s i
  if i < j then some j else none

/-- The offset behind the literal `lit` at `i`, if it stands there. -/
def literal? (lit : String) (s : String) (i : Nat) : Option Nat :=
  if Text.startsAt s i (Text.bytesOf lit) then some (i + Text.size lit) else none

/-- The offset behind the keyword `word` at `i`, if it stands there and no byte of a name follows. -/
def keyword? (word : String) (s : String) (i : Nat) : Option Nat :=
  match literal? word s i with
  | some j =>
    match Text.byte? s j with
    | some b => if isName b then none else some j
    | none => some j
  | none => none

/-- The offset of the next `lit` from `i` on, or the end of the text, and whether it was found. -/
def until? (lit : String) (s : String) (i : Nat) : Nat × Bool :=
  match Text.find? (Text.bytesOf lit) s i with
  | some j => (j, true)
  | none => (Text.size s, false)

/-- The offset of the next byte from `i` on that is in `stops`, or the end of the text. -/
def untilAny (stops : List UInt8) (s : String) (i : Nat) : Nat := Text.skipUntil stops.contains s i

/-- The offset behind the quoted literal at `i`, and whether its closing quote was found. The
literal ends at the latest before the first byte of `stops`. -/
def quoted? (stops : List UInt8) (s : String) (i : Nat) : Option (Nat × Bool) :=
  match Text.byte? s i with
  | some q =>
    if isQuoteByte q then
      let j := untilAny (q :: stops) s (i + 1)
      if Text.byte? s j == some q then some (j + 1, true) else some (j, false)
    else none
  | none => none

/-- The offset of the parenthesis that closes the group open at depth `depth`, or of the first
angle bracket, or the end of the text. -/
def groupEnd (s : String) (i depth : Nat) : Nat :=
  if h : i < s.utf8ByteSize then
    let b := s.getUTF8Byte ⟨i⟩ h
    if b == 0x28 then groupEnd s (i + 1) (depth + 1)
    else if b == 0x29 then if depth = 0 then i else groupEnd s (i + 1) (depth - 1)
    else if b == 0x3C || b == 0x3E then i
    else groupEnd s (i + 1) depth
  else i
termination_by s.utf8ByteSize - i

/-- The offset behind the group whose opening parenthesis is at `i`. -/
def groupStop (s : String) (i : Nat) : Nat :=
  let j := groupEnd s (i + 1) 0
  if Text.byte? s j == some 0x29 then j + 1 else j

/-- The token that ends at `pos` and leaves the lexer in `mode`. -/
def emit (x : Lexer) (kind : Token.Kind) (pos : Nat) (mode : Mode) (fault : Option Token.Fault := none) :
    Lexed :=
  ⟨kind, { x with pos, mode }, fault⟩

/-- White space up to `pos`, behind which the mode is the same. -/
def emitSpace (x : Lexer) (pos : Nat) (fault : Option Token.Fault := none) : Lexed :=
  x.emit .blank pos x.mode fault

end Lexer

end XmlAssist
