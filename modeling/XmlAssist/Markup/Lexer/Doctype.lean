import XmlAssist.Markup.Lexer.Content

/-!
# Document types and declarations

The tokens of `<!DOCTYPE …>` outside its brackets, and of the declarations of elements, attribute
lists, entities and notations.
-/

namespace XmlAssist.Lexer

/-- The fault of a literal whose closing quote was not found. -/
def literalFault (closed : Bool) : Option Token.Fault :=
  if closed then none else some .unterminatedLiteral

/-- Parameters that fit nowhere, up to the next byte of `stops`, and at least one character. -/
def unrecognized (stops : List UInt8) (s : String) (x : Lexer) : Lexed :=
  let j := untilAny stops s x.pos
  x.emit (.dtd .unrecognized) (if j == x.pos then Text.nextChar s x.pos else j) x.mode
    (some .unrecognizedParameters)

/-- A parameter of a document type. -/
def doctypeParameter (s : String) (x : Lexer) (stage : DoctypeStage) : Lexed :=
  let stops : List UInt8 := [0x3C, 0x3E, 0x5B]
  let orElse (r : Option Lexed) : Lexed := r.getD (unrecognized stops s x)
  match stage with
  | .start => orElse <| (name? s x.pos).map fun pos =>
      x.emit (.dtd .doctypeName) pos (.doctype .named)
  | .named =>
    match keyword? "PUBLIC" s x.pos with
    | some pos => x.emit (.dtd .doctypePublic) pos (.doctype .publicKeyword)
    | none => orElse <| (keyword? "SYSTEM" s x.pos).map fun pos =>
        x.emit (.dtd .doctypeSystem) pos (.doctype .systemKeyword)
  | .publicKeyword => orElse <| (quoted? stops s x.pos).map fun (pos, closed) =>
      x.emit (.dtd .doctypePublicId) pos (.doctype .publicId) (literalFault closed)
  | .publicId | .systemKeyword => orElse <| (quoted? stops s x.pos).map fun (pos, closed) =>
      x.emit (.dtd .doctypeSystemId) pos (.doctype .ids) (literalFault closed)
  | .ids | .subset => unrecognized stops s x

/-- A token of a document type outside its brackets. The next `<` ends it. -/
def doctype (s : String) (x : Lexer) (stage : DoctypeStage) : Lexed :=
  match space? s x.pos with
  | some pos => x.emitSpace pos
  | none =>
    if stage != .subset && x.sees s 0x5B then
      { x with inSubset := true }.emit (.dtd .subsetOpen) (x.pos + 1) .dtdContent
    else if x.sees s 0x3E then
      { x with inSubset := false }.emit (.dtd .doctypeClose) (x.pos + 1) .content
    else if x.sees s 0x3C then content s { x with inSubset := false, mode := .content }
    else doctypeParameter s x stage

/-- The offset behind the type of an attribute: a group, `NOTATION` and a group, or a name. -/
def attributeType? (s : String) (i : Nat) : Option Nat :=
  if Text.byte? s i == some 0x28 then some (groupStop s i)
  else match keyword? "NOTATION" s i with
    | some j =>
      let k := Text.skipWhile isSpace s j
      some (if Text.byte? s k == some 0x28 then groupStop s k else j)
    | none => name? s i

/-- The offset behind the default of an attribute, and whether its literal is closed. -/
def attributeDefault? (s : String) (i : Nat) : Option (Nat × Bool) :=
  match keyword? "#FIXED" s i with
  | some j => some ((quoted? [0x3C, 0x3E] s (Text.skipWhile isSpace s j)).getD (j, true))
  | none =>
    match keyword? "#REQUIRED" s i with
    | some j => some (j, true)
    | none =>
      match keyword? "#IMPLIED" s i with
      | some j => some (j, true)
      | none => quoted? [0x3C, 0x3E] s i

/-- A token of the content model of an element: the closing parenthesis with its occurrence mark,
or all that stands before it. -/
def elementContent (s : String) (x : Lexer) : Lexed :=
  if x.sees s 0x29 then
    let pos := x.pos + 1
    let marked := match Text.byte? s pos with
      | some b => b == 0x3F || b == 0x2A || b == 0x2B
      | none => false
    x.emit (.dtd .contentClose) (if marked then pos + 1 else pos) (.declaration .elementDone)
  else x.emit (.dtd .contentBody) (groupEnd s x.pos 0) x.mode

/-- A parameter of a declaration. -/
def declarationParameter (s : String) (x : Lexer) (stage : DeclarationStage) : Lexed :=
  let junk := unrecognized (if x.inSubset then [0x3C, 0x3E, 0x5D] else [0x3C, 0x3E]) s x
  let name (kind : Token.DtdKind) (next : DeclarationStage) : Lexed :=
    ((name? s x.pos).map fun pos => x.emit (.dtd kind) pos (.declaration next)).getD junk
  let literal (stops : List UInt8) (kind : Token.DtdKind) (next : DeclarationStage) : Option Lexed :=
    (quoted? stops s x.pos).map fun (pos, closed) =>
      x.emit (.dtd kind) pos (.declaration next) (literalFault closed)
  let keyword (word : String) (kind : Token.DtdKind) (next : DeclarationStage) : Option Lexed :=
    (keyword? word s x.pos).map fun pos => x.emit (.dtd kind) pos (.declaration next)
  let brackets : List UInt8 := [0x3C, 0x3E]
  match stage with
  | .elementStart => name .elementName .elementNamed
  | .elementNamed =>
    if x.sees s 0x28 then x.emit (.dtd .contentOpen) (x.pos + 1) (.declaration .elementContent)
    else (keyword "EMPTY" .elementCategory .elementDone).getD
      ((keyword "ANY" .elementCategory .elementDone).getD junk)
  | .elementContent => elementContent s x
  | .elementDone => junk
  | .attlistStart => name .attlistElement .attributeName
  | .attributeName => name .attributeName .attributeType
  | .attributeType =>
    ((attributeType? s x.pos).map fun pos =>
      x.emit (.dtd .attributeType) pos (.declaration .attributeDefault)).getD junk
  | .attributeDefault =>
    ((attributeDefault? s x.pos).map fun (pos, closed) =>
      x.emit (.dtd .attributeDefault) pos (.declaration .attributeName) (literalFault closed)).getD junk
  | .entityStart =>
    if x.sees s 0x25 && ((Text.byte? s (x.pos + 1)).map isSpace).getD false then
      x.emit (.dtd .entityPercent) (x.pos + 1) x.mode
    else name .entityName .entityNamed
  | .entityNamed =>
    (keyword "PUBLIC" .entityPublic .entityPublic).getD
      ((keyword "SYSTEM" .entitySystem .entitySystem).getD
        ((literal [] .entityValue .entityDone).getD junk))
  | .entityPublic => (literal brackets .entityPublicId .entityPublicId).getD junk
  | .entityPublicId | .entitySystem => (literal brackets .entitySystemId .entityDone).getD junk
  | .entityDone => junk
  | .notationStart => name .notationName .notationNamed
  | .notationNamed =>
    (keyword "PUBLIC" .notationPublic .notationPublic).getD
      ((keyword "SYSTEM" .notationSystem .notationSystem).getD junk)
  | .notationPublic => (literal brackets .notationPublicId .notationPublicId).getD junk
  | .notationPublicId | .notationSystem => (literal brackets .notationSystemId .notationDone).getD junk
  | .notationDone => junk

/-- A token of a declaration. The next `<`, and inside the brackets of a document type the next
`]`, ends it. -/
def declaration (s : String) (x : Lexer) (stage : DeclarationStage) : Lexed :=
  match space? s x.pos with
  | some pos => x.emitSpace pos
  | none =>
    if x.sees s 0x3E then x.emit (.dtd .declarationClose) (x.pos + 1) .dtdContent
    else if x.sees s 0x3C || (x.inSubset && x.sees s 0x5D) then
      dtdContent s { x with mode := .dtdContent }
    else declarationParameter s x stage

end XmlAssist.Lexer
