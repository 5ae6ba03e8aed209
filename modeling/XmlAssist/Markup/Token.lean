import XmlAssist.Text.Span

/-!
# Tokens of XML and DTD markup

A token is a kind, the span it covers and, where the markup is broken there, a fault. The kinds of
the declarations of a document type form a family of their own.
-/

namespace XmlAssist

namespace Token

/-- The kinds of token of a document type and its declarations. -/
inductive DtdKind where
  | doctypeOpen
  | doctypeName
  | doctypePublic
  | doctypeSystem
  | doctypePublicId
  | doctypeSystemId
  | doctypeClose
  | subsetOpen
  | subsetClose
  | elementOpen
  | elementName
  | elementCategory
  | contentOpen
  | contentBody
  | contentClose
  | attlistOpen
  | attlistElement
  | attributeName
  | attributeType
  | attributeDefault
  | entityOpen
  | entityPercent
  | entityName
  | entityValue
  | entityPublic
  | entitySystem
  | entityPublicId
  | entitySystemId
  | notationOpen
  | notationName
  | notationPublic
  | notationSystem
  | notationPublicId
  | notationSystemId
  | unrecognized
  | declarationClose
deriving DecidableEq, Repr, Inhabited

/-- The kinds of token. -/
inductive Kind where
  | commentOpen
  | commentText
  | commentClose
  | cdataOpen
  | cdataText
  | cdataClose
  | startTagOpen
  | startTagClose
  | startTagSelfClose
  | startTagName
  | endTagOpen
  | endTagClose
  | endTagName
  | assign
  | attributeName
  | attributeValue
  | instructionOpen
  | prologName
  | instructionTarget
  | instructionContent
  | instructionClose
  | prologClose
  | text
  | blank
  | unknown
  | eos
  | dtd (kind : DtdKind)
deriving DecidableEq, Repr, Inhabited

/-- The token belongs to a document type or one of its declarations. -/
def Kind.isDtd : Kind → Bool
  | .dtd _ => true
  | _ => false

/-- The name under which listings show a kind of a document type. -/
def DtdKind.label : DtdKind → String
  | .doctypeOpen => "DtdStartDoctypeTag"
  | .doctypeName => "DtdDoctypeName"
  | .doctypePublic => "DtdDocTypeKindPublic"
  | .doctypeSystem => "DtdDocTypeKindSystem"
  | .doctypePublicId => "DtdDoctypePublicId"
  | .doctypeSystemId => "DtdDoctypeSystemId"
  | .doctypeClose => "DtdEndDoctypeTag"
  | .subsetOpen => "DtdStartInternalSubset"
  | .subsetClose => "DtdEndInternalSubset"
  | .elementOpen => "DtdStartElement"
  | .elementName => "DtdElementDeclName"
  | .elementCategory => "DtdElementCategory"
  | .contentOpen => "DtdStartElementContent"
  | .contentBody => "DtdElementContent"
  | .contentClose => "DtdEndElementContent"
  | .attlistOpen => "DtdStartAttlist"
  | .attlistElement => "DtdAttlistElementName"
  | .attributeName => "DtdAttlistAttributeName"
  | .attributeType => "DtdAttlistAttributeType"
  | .attributeDefault => "DtdAttlistAttributeValue"
  | .entityOpen => "DtdStartEntity"
  | .entityPercent => "DtdEntityPercent"
  | .entityName => "DtdEntityName"
  | .entityValue => "DtdEntityValue"
  | .entityPublic => "DtdEntityKindPublic"
  | .entitySystem => "DtdEntityKindSystem"
  | .entityPublicId => "DtdEntityPublicId"
  | .entitySystemId => "DtdEntitySystemId"
  | .notationOpen => "DtdStartNotation"
  | .notationName => "DtdNotationName"
  | .notationPublic => "DtdNotationKindPublic"
  | .notationSystem => "DtdNotationKindSystem"
  | .notationPublicId => "DtdNotationPublicId"
  | .notationSystemId => "DtdNotationSystemId"
  | .unrecognized => "DtdUnrecognizedParameters"
  | .declarationClose => "DtdEndTag"

/-- The name under which listings show a kind. -/
def Kind.label : Kind → String
  | .commentOpen => "StartCommentTag"
  | .commentText => "Comment"
  | .commentClose => "EndCommentTag"
  | .cdataOpen => "CDataTagOpen"
  | .cdataText => "CDataContent"
  | .cdataClose => "CDataTagClose"
  | .startTagOpen => "StartTagOpen"
  | .startTagClose => "StartTagClose"
  | .startTagSelfClose => "StartTagSelfClose"
  | .startTagName => "StartTag"
  | .endTagOpen => "EndTagOpen"
  | .endTagClose => "EndTagClose"
  | .endTagName => "EndTag"
  | .assign => "DelimiterAssign"
  | .attributeName => "AttributeName"
  | .attributeValue => "AttributeValue"
  | .instructionOpen => "StartPrologOrPI"
  | .prologName => "PrologName"
  | .instructionTarget => "PIName"
  | .instructionContent => "PIContent"
  | .instructionClose => "PIEnd"
  | .prologClose => "PrologEnd"
  | .text => "Content"
  | .blank => "Whitespace"
  | .unknown => "Unknown"
  | .eos => "Eos"
  | .dtd kind => kind.label

/-- What is broken about the markup under a token. -/
inductive Fault where
  | tagNameMustFollowBracket
  | unexpectedCharacterInTag
  | closingBracketExpected
  | unterminatedComment
  | unterminatedCData
  | unterminatedInstruction
  | unterminatedAttributeValue
  | unterminatedLiteral
  | unrecognizedParameters
  | unexpectedCharacter
deriving DecidableEq, Repr, Inhabited

/-- The wording of a fault. -/
def Fault.message : Fault → String
  | .tagNameMustFollowBracket => "Tag name must directly follow the open bracket."
  | .unexpectedCharacterInTag => "Unexpected character in tag."
  | .closingBracketExpected => "Closing bracket expected."
  | .unterminatedComment => "Comment is not closed."
  | .unterminatedCData => "CDATA section is not closed."
  | .unterminatedInstruction => "Processing instruction is not closed."
  | .unterminatedAttributeValue => "Attribute value is not closed."
  | .unterminatedLiteral => "Quoted literal is not closed."
  | .unrecognizedParameters => "Unrecognized parameters in declaration."
  | .unexpectedCharacter => "Unexpected character."

/-- The identifier of a fault in reports. -/
def Fault.code : Fault → String
  | .tagNameMustFollowBracket => "TagNameMustFollowBracket"
  | .unexpectedCharacterInTag => "UnexpectedCharacterInTag"
  | .closingBracketExpected => "ClosingBracketExpected"
  | .unterminatedComment => "UnterminatedComment"
  | .unterminatedCData => "UnterminatedCData"
  | .unterminatedInstruction => "UnterminatedProcessingInstruction"
  | .unterminatedAttributeValue => "UnterminatedAttributeValue"
  | .unterminatedLiteral => "UnterminatedLiteral"
  | .unrecognizedParameters => "UnrecognizedParameters"
  | .unexpectedCharacter => "UnexpectedCharacter"

end Token

/-- A piece of markup. -/
structure Token where
  kind : Token.Kind
  start : Nat
  stop : Nat
  fault : Option Token.Fault := none
deriving DecidableEq, Repr, Inhabited

/-- The bytes under the token. -/
def Token.span (t : Token) : Span := ⟨t.start, t.stop⟩

end XmlAssist
