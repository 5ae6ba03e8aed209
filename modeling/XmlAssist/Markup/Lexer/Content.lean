import XmlAssist.Markup.Lexer

/-!
# Content and tags

The tokens between pieces of markup, of tags and their attributes, and of comments, CDATA sections
and processing instructions. Where a construct breaks off, the lexer goes on with what the next
byte starts: the functions call each other only downwards, tags to content.
-/

namespace XmlAssist.Lexer

/-- What the first of the literals that stands at the cursor starts. -/
def firstOpener (s : String) (x : Lexer) : List (String × Token.Kind × Mode) → Option Lexed
  | [] => none
  | (lit, kind, mode) :: rest =>
    match literal? lit s x.pos with
    | some pos => some (x.emit kind pos mode)
    | none => firstOpener s x rest

/-- The markup that starts in the content of a document. -/
def contentOpeners : List (String × Token.Kind × Mode) := [
  ("<!--", .commentOpen, .inComment),
  ("<![CDATA[", .cdataOpen, .inCData),
  ("<!DOCTYPE", .dtd .doctypeOpen, .doctype .start),
  ("</", .endTagOpen, .afterEndTagOpen),
  ("<?", .instructionOpen, .afterInstructionOpen),
  ("<", .startTagOpen, .afterStartTagOpen)]

/-- The markup that starts between declarations. -/
def dtdOpeners : List (String × Token.Kind × Mode) := [
  ("<!ELEMENT", .dtd .elementOpen, .declaration .elementStart),
  ("<!ATTLIST", .dtd .attlistOpen, .declaration .attlistStart),
  ("<!ENTITY", .dtd .entityOpen, .declaration .entityStart),
  ("<!NOTATION", .dtd .notationOpen, .declaration .notationStart),
  ("<!--", .commentOpen, .inComment),
  ("<?", .instructionOpen, .afterInstructionOpen)]

/-- A token of the content of a document: markup, or text up to the next `<`. -/
def content (s : String) (x : Lexer) : Lexed :=
  match firstOpener s x contentOpeners with
  | some r => r
  | none => x.emit .text (untilAny [0x3C] s x.pos) x.mode

/-- The tag of an element starts at the cursor. -/
def seesTag (s : String) (x : Lexer) : Bool :=
  x.sees s 0x3C &&
    match Text.byte? s (x.pos + 1) with
    | some b => b == 0x2F || isNameStart b
    | none => false

/-- A token between declarations. A tag inside the brackets of a document type ends it. -/
def dtdContent (s : String) (x : Lexer) : Lexed :=
  match space? s x.pos with
  | some pos => x.emitSpace pos
  | none =>
    if x.inSubset && x.sees s 0x5D then
      { x with inSubset := false }.emit (.dtd .subsetClose) (x.pos + 1) (.doctype .subset)
    else match firstOpener s x dtdOpeners with
      | some r => r
      | none =>
        if x.inSubset && x.seesTag s then content s { x with inSubset := false, mode := .content }
        else
          let start := if x.sees s 0x3C then x.pos + 1 else x.pos
          x.emit .text (untilAny (if x.inSubset then [0x3C, 0x5D] else [0x3C]) s start) x.mode

/-- A token between pieces of markup, of a document or of declarations. -/
def betweenMarkup (s : String) (x : Lexer) : Lexed :=
  if x.inDtd then dtdContent s { x with mode := .dtdContent } else content s { x with mode := .content }

/-- A token between the attributes of a tag or of the XML declaration. -/
def insideTag (s : String) (x : Lexer) : Lexed :=
  match space? s x.pos with
  | some pos => { x with spaced := true }.emitSpace pos
  | none =>
  match if x.inProlog then literal? "?>" s x.pos else none with
  | some pos => { x with inProlog := false }.emit .prologClose pos x.contentMode
  | none =>
  match if x.spaced then name? s x.pos else none with
  | some pos => { x with spaced := false }.emit .attributeName pos .afterAttributeName
  | none =>
  match if x.inProlog then none else literal? "/>" s x.pos with
  | some pos => x.emit .startTagSelfClose pos .content
  | none =>
    if !x.inProlog && x.sees s 0x3E then x.emit .startTagClose (x.pos + 1) .content
    else if x.sees s 0x3C then betweenMarkup s { x with inProlog := false }
    else
      { x with spaced := false }.emit .unknown (Text.nextChar s x.pos) x.mode
        (some .unexpectedCharacterInTag)

/-- The tag goes on with something that is not part of an attribute. -/
def backInTag (s : String) (x : Lexer) : Lexed := insideTag s { x with mode := x.tagMode }

/-- A token behind `<`: the name of the element. -/
def startTag (s : String) (x : Lexer) : Lexed :=
  match name? s x.pos with
  | some pos => { x with spaced := false }.emit .startTagName pos .inTag
  | none =>
    match space? s x.pos with
    | some pos => x.emitSpace pos (some .tagNameMustFollowBracket)
    | none => insideTag s { x with mode := .inTag, spaced := false }

/-- A token behind the name of an end tag. -/
def insideEndTag (s : String) (x : Lexer) : Lexed :=
  match space? s x.pos with
  | some pos => x.emitSpace pos
  | none =>
    if x.sees s 0x3E then x.emit .endTagClose (x.pos + 1) .content
    else if x.sees s 0x3C then content s { x with mode := .content }
    else x.emit .unknown (untilAny [0x3C, 0x3E] s x.pos) x.mode (some .closingBracketExpected)

/-- A token behind `</`: the name of the element. -/
def endTag (s : String) (x : Lexer) : Lexed :=
  match name? s x.pos with
  | some pos => x.emit .endTagName pos .inEndTag
  | none =>
    match space? s x.pos with
    | some pos => x.emitSpace pos (some .tagNameMustFollowBracket)
    | none => insideEndTag s { x with mode := .inEndTag }

/-- A token behind the name of an attribute. -/
def attributeAssign (s : String) (x : Lexer) : Lexed :=
  match space? s x.pos with
  | some pos => { x with spaced := true }.emitSpace pos
  | none =>
    if x.sees s 0x3D then x.emit .assign (x.pos + 1) .beforeAttributeValue else backInTag s x

/-- Bytes of an attribute value without quotes. -/
def isUnquotedValue (b : UInt8) : Bool :=
  !isSpace b && !isQuoteByte b && b != 0x60 && b != 0x3D && b != 0x3C && b != 0x3E

/-- The end of the attribute value without quotes at `i`. The slash of `/>` is not part of it. -/
def unquotedStop (s : String) (i : Nat) : Nat :=
  let j := Text.skipWhile isUnquotedValue s i
  if Text.byte? s j == some 0x3E && i + 1 < j && Text.byte? s (j - 1) == some 0x2F then j - 1 else j

/-- The end of the attribute value whose opening quote `q` is at `i`, and whether it is closed. A
value without a closing quote before the next tag ends before the first `>`, so that the tag can
still be closed. -/
def quotedValueStop (q : UInt8) (s : String) (i : Nat) : Nat × Bool :=
  let j := untilAny [q, 0x3C] s (i + 1)
  if Text.byte? s j == some q then (j + 1, true)
  else (min j (untilAny [0x3E] s (i + 1)), false)

/-- A token behind the `=` of an attribute. -/
def attributeValue (s : String) (x : Lexer) : Lexed :=
  match space? s x.pos with
  | some pos => x.emitSpace pos
  | none =>
    match (x.peek s).filter isQuoteByte with
    | some q =>
      let (pos, closed) := quotedValueStop q s x.pos
      { x with spaced := false }.emit .attributeValue pos x.tagMode
        (if closed then none else some .unterminatedAttributeValue)
    | none =>
      let pos := unquotedStop s x.pos
      if x.pos < pos && !(pos == x.pos + 1 && x.sees s 0x2F) then
        { x with spaced := false }.emit .attributeValue pos x.tagMode
      else backInTag s { x with spaced := false }

/-- The text up to `close`, or `close` itself when it stands at the cursor. -/
def delimited (close : String) (inside closing : Token.Kind) (fault : Token.Fault) (s : String)
    (x : Lexer) : Lexed :=
  match literal? close s x.pos with
  | some pos => x.emit closing pos x.contentMode
  | none =>
    let (pos, closed) := until? close s x.pos
    x.emit inside pos x.mode (if closed then none else some fault)

/-- A token behind the target of a processing instruction. -/
def insideInstruction (s : String) (x : Lexer) : Lexed :=
  match space? s x.pos with
  | some pos => x.emitSpace pos
  | none => delimited "?>" .instructionContent .instructionClose .unterminatedInstruction s x

/-- The target at the cursor is that of the XML declaration: `xml`, and white space, `?` or the end
of the text behind it. -/
def seesPrologName (s : String) (x : Lexer) : Bool :=
  Text.startsAt s x.pos (Text.bytesOf "xml") &&
    match Text.byte? s (x.pos + 3) with
    | some b => isSpace b || b == 0x3F
    | none => true

/-- A token behind `<?`: the target. The XML declaration is the one at the start of the text. -/
def instruction (s : String) (x : Lexer) : Lexed :=
  if x.pos == 2 && x.seesPrologName s then
    { x with inProlog := true, spaced := false }.emit .prologName (x.pos + 3) .inProlog
  else
    match name? s x.pos with
    | some pos => x.emit .instructionTarget pos .inInstruction
    | none => insideInstruction s { x with mode := .inInstruction }

end XmlAssist.Lexer
