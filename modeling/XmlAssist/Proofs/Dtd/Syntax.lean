import XmlAssist.Proofs.Written.Forest
import XmlAssist.Text.Blank

/-!
# Written declarations

The declarations of a document type as they are written, in a file of their own (`Dtd.print`) or
between the brackets of a document type (`Dtd.printIn`). Names, white space and literals carry the
proof that they can be told apart, so that all that can be built here is well-formed. The white
space between parameters and the quotes around literals are part of the written form.
-/

namespace XmlAssist.Written

open Text (bytesOf)

/-! ## Parts of declarations -/

structure Name where
  text : String
  valid : isName text = true := by decide

/-- White space, or nothing. -/
structure Space where
  text : String
  valid : isSpace text = true := by decide

/-- White space between two parameters. -/
structure Gap extends Space where
  ne_empty : text ≠ "" := by decide

def Quote.byte : Quote → UInt8
  | .single => 0x27
  | .double => 0x22

/-- None of the bytes `stops` occurs in the text. -/
def lacks (stops : List UInt8) (text : String) : Bool := (bytesOf text).all fun b => !stops.contains b

/-- A text in quotes in which neither its quote nor a byte of `stops` occurs. -/
structure Literal (stops : List UInt8) where
  quote : Quote
  text : String
  free : lacks (quote.byte :: stops) text = true := by decide

/-- The bytes `<` and `>`, which only the values of entities may contain. -/
abbrev brackets : List UInt8 := [0x3C, 0x3E]

inductive Occurs where
  | optional
  | many
  | atLeastOnce

/-- A piece of a content model without parentheses. -/
inductive Particle where
  | name (name : Name)
  | characters
  | space (space : Space)
  | choice
  | sequence
  | occurs (occurs : Occurs)

/-- What stands between the parentheses of a content model. -/
inductive Model where
  | nil
  | particle (piece : Particle) (others : Model)
  | group (inside others : Model)

inductive Contents where
  | empty
  | any
  | model (inside : Model) (occurs : Option Occurs)

/-- A value of an enumeration, with the white space around it. -/
structure Choice where
  before : Space
  name : Name
  behind : Space
  visible : name.text.toList.any Text.isBlank = false := by decide

inductive AttType where
  | name (name : Name)
  | enumeration (choices : List Choice)
  | notations (gap : Gap) (choices : List Choice)

inductive Default where
  | required
  | implied
  | value (literal : Literal brackets)
  | fixed (gap : Gap) (literal : Literal brackets)

/-- The definition of an attribute, with the white space before each of its parameters. -/
structure AttDef where
  before : Gap
  name : Name
  beforeType : Gap
  type : AttType
  beforeDefault : Gap
  default : Default

inductive External where
  | systemId (gap : Gap) (id : Literal brackets)
  | publicId (gap : Gap) (id : Literal brackets) (behind : Option (Gap × Literal brackets))

inductive EntityContent where
  | value (literal : Literal [])
  | external (ids : External)

/-- What stands in a declaration behind its keyword. -/
inductive DeclBody where
  | element (name : Name) (gap : Gap) (contents : Contents)
  | attlist (element : Name) (definitions : List AttDef)
  /-- A parameter entity has white space behind its `%`. -/
  | entity (percent : Option Gap) (name : Name) (gap : Gap) (content : EntityContent)
  | notationDecl (name : Name) (gap : Gap) (ids : External)

/-- A declaration, with the white space before it, behind its keyword and before its `>`. -/
structure Decl where
  before : Space
  gap : Gap
  body : DeclBody
  behind : Space

/-- The declarations of a document type, with the white space behind them. -/
structure Dtd where
  declarations : List Decl
  space : Space

/-! ## Printing -/

def Literal.print {stops : List UInt8} (l : Literal stops) : String :=
  l.quote.print ++ (l.text ++ l.quote.print)

def Occurs.print : Occurs → String
  | .optional => "?"
  | .many => "*"
  | .atLeastOnce => "+"

def Particle.print : Particle → String
  | .name n => n.text
  | .characters => "#PCDATA"
  | .space s => s.text
  | .choice => "|"
  | .sequence => ","
  | .occurs o => o.print

def Model.print : Model → String
  | .nil => ""
  | .particle piece others => piece.print ++ others.print
  | .group inside others => "(" ++ (inside.print ++ (")" ++ others.print))

def printOccurs (o : Option Occurs) : String := (o.map (·.print)).getD ""

def Contents.print : Contents → String
  | .empty => "EMPTY"
  | .any => "ANY"
  | .model inside occurs => "(" ++ (inside.print ++ (")" ++ printOccurs occurs))

def Choice.print (c : Choice) : String := c.before.text ++ (c.name.text ++ c.behind.text)

/-- The values of an enumeration between its parentheses. -/
def printChoices : List Choice → String
  | [] => ""
  | [c] => c.print
  | c :: d :: cs => c.print ++ ("|" ++ printChoices (d :: cs))

def printGroup (choices : List Choice) : String := "(" ++ (printChoices choices ++ ")")

def AttType.print : AttType → String
  | .name n => n.text
  | .enumeration choices => printGroup choices
  | .notations gap choices => "NOTATION" ++ (gap.text ++ printGroup choices)

def Default.print : Default → String
  | .required => "#REQUIRED"
  | .implied => "#IMPLIED"
  | .value literal => literal.print
  | .fixed gap literal => "#FIXED" ++ (gap.text ++ literal.print)

def AttDef.print (d : AttDef) : String :=
  d.before.text ++ (d.name.text ++ (d.beforeType.text ++ (d.type.print ++
    (d.beforeDefault.text ++ d.default.print))))

def printDefinitions : List AttDef → String
  | [] => ""
  | d :: ds => d.print ++ printDefinitions ds

/-- The system identifier behind a public one. -/
def printBehind (behind : Option (Gap × Literal brackets)) : String :=
  (behind.map fun (gap, id) => gap.text ++ id.print).getD ""

def External.print : External → String
  | .systemId gap id => "SYSTEM" ++ (gap.text ++ id.print)
  | .publicId gap id behind => "PUBLIC" ++ (gap.text ++ (id.print ++ printBehind behind))

def EntityContent.print : EntityContent → String
  | .value literal => literal.print
  | .external ids => ids.print

def printPercent (percent : Option Gap) : String := (percent.map fun gap => "%" ++ gap.text).getD ""

def DeclBody.opener : DeclBody → String
  | .element .. => "<!ELEMENT"
  | .attlist .. => "<!ATTLIST"
  | .entity .. => "<!ENTITY"
  | .notationDecl .. => "<!NOTATION"

def DeclBody.print : DeclBody → String
  | .element name gap contents => name.text ++ (gap.text ++ contents.print)
  | .attlist owner definitions => owner.text ++ printDefinitions definitions
  | .entity percent name gap content =>
    printPercent percent ++ (name.text ++ (gap.text ++ content.print))
  | .notationDecl name gap ids => name.text ++ (gap.text ++ ids.print)

/-- The declaration from its `<!` to its `>`. -/
def Decl.markup (d : Decl) : String :=
  d.body.opener ++ (d.gap.text ++ (d.body.print ++ (d.behind.text ++ ">")))

def Decl.print (d : Decl) : String := d.before.text ++ d.markup

def printDeclarations : List Decl → String
  | [] => ""
  | d :: ds => d.print ++ printDeclarations ds

def Dtd.print (w : Dtd) : String := printDeclarations w.declarations ++ w.space.text

/-- The document type with a name and the declarations between its brackets. -/
def Dtd.printIn (w : Dtd) (root : Name) : String :=
  "<!DOCTYPE" ++ (" " ++ (root.text ++ (" " ++ ("[" ++ (w.print ++ ("]" ++ ">"))))))

/-! ## What is written -/

/-- The keyword for what the element may contain. -/
def Contents.category? : Contents → Option String
  | .empty => some "EMPTY"
  | .any => some "ANY"
  | .model .. => none

/-- The content model, with its parentheses and its occurrence mark. -/
def Contents.content? : Contents → Option String
  | .empty | .any => none
  | .model inside occurs => some (Contents.model inside occurs).print

def AttType.values : AttType → List String
  | .name _ => []
  | .enumeration choices | .notations _ choices => choices.map (·.name.text)

def External.keyword : External → String
  | .systemId .. => "SYSTEM"
  | .publicId .. => "PUBLIC"

def External.publicId? : External → Option (Literal brackets)
  | .systemId .. => none
  | .publicId _ id _ => some id

def External.systemId? : External → Option (Literal brackets)
  | .systemId _ id => some id
  | .publicId _ _ behind => behind.map (·.2)

/-- The value of an entity that stands in its declaration. -/
def EntityContent.value? : EntityContent → Option (Literal [])
  | .value literal => some literal
  | .external _ => none

def EntityContent.external? : EntityContent → Option External
  | .value _ => none
  | .external ids => some ids

end XmlAssist.Written
