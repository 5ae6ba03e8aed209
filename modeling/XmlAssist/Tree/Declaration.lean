import XmlAssist.Text.Alphanumeric
import XmlAssist.Text.Blank
import XmlAssist.Text.Bytes
import XmlAssist.Text.Quoted
import XmlAssist.Text.Span

/-!
# Document types and their declarations

A declaration is a sequence of parameters, each kept as it is written and with its span. What the
parameters say (names, identifiers, content models, enumerations) is read off them.
-/

namespace XmlAssist

/-- A parameter of a declaration, such as the name in `<!ELEMENT name …>`. -/
structure Parameter where
  span : Span
  text : String
deriving DecidableEq, Repr, Inhabited

namespace Parameter

/-- A literal without its first and last character. -/
def inner (p : Parameter) : String := Text.inner p.text

/-- The text without the quotes around it. -/
def unquoted (p : Parameter) : String := Text.stripQuotes p.text

end Parameter

/-- The keyword of an external identifier. -/
inductive ExternalKind where
  | publicId
  | systemId
  | invalid
deriving DecidableEq, Repr, Inhabited

/-- The meaning of a keyword. -/
def ExternalKind.ofKeyword (word : String) : ExternalKind :=
  if word = "PUBLIC" then .publicId else if word = "SYSTEM" then .systemId else .invalid

/-- A keyword and the literals behind it, as far as they are written. -/
structure ExternalId where
  keyword : Option Parameter := none
  publicId : Option Parameter := none
  systemId : Option Parameter := none
deriving DecidableEq, Repr, Inhabited

/-- The kind of identifier, if a keyword is written. -/
def ExternalId.kind (x : ExternalId) : Option ExternalKind :=
  x.keyword.map fun p => .ofKeyword p.text

/-- `<!DOCTYPE name PUBLIC "…" "…" [ … ]>`. -/
structure Doctype where
  name : Option Parameter := none
  external : ExternalId := {}
  /-- The offset of `[`. -/
  subsetStart : Option Nat := none
  /-- The offset behind `]`. -/
  subsetStop : Option Nat := none
  parameters : List Parameter := []
  unrecognized : Option Parameter := none
  closed : Bool := false
  /-- Stands for a whole file of declarations. -/
  synthetic : Bool := false
deriving DecidableEq, Repr, Inhabited

namespace Doctype

/-- The public identifier without its quotes. -/
def publicId (d : Doctype) : Option String := d.external.publicId.map Parameter.inner

/-- The system identifier without its quotes. -/
def systemId (d : Doctype) : Option String := d.external.systemId.map Parameter.inner

/-- The span of the brackets; up to the end of the document while they are not closed. -/
def subsetSpan (d : Doctype) (documentStop : Nat) : Option Span :=
  d.subsetStart.map fun start => ⟨start, d.subsetStop.getD documentStop⟩

/-- There are declarations in brackets. -/
def hasSubset (d : Doctype) : Bool := d.subsetStart.isSome

end Doctype

/-- The name, type and default of an attribute in `<!ATTLIST …>`. -/
structure AttributeDef where
  name : Option Parameter := none
  type : Option Parameter := none
  value : Option Parameter := none
deriving DecidableEq, Repr, Inhabited

namespace AttributeDef

/-- Every element must have the attribute. -/
def isRequired (d : AttributeDef) : Bool := (d.value.map (·.text)) == some "#REQUIRED"

/-- The values of an enumeration such as `(a|b|c)`. -/
def enumeration (d : AttributeDef) : List String :=
  match d.type with
  | none => []
  | some t =>
    match Text.splitAtFirst '(' t.text.toList with
    | none => []
    | some (_, behind) =>
      let inside := (behind.reverse.dropWhile (· == ')')).reverse
      ((Text.pieces '|' inside).map fun piece => Text.trim (String.ofList piece)).filter (· ≠ "")

end AttributeDef

namespace Declaration

/-- `<!ELEMENT name category>` or `<!ELEMENT name (content)>`. -/
structure ElementBody where
  name : Option Parameter := none
  category : Option Parameter := none
  /-- From the opening parenthesis to the closing one and its occurrence mark. -/
  content : Option Parameter := none
deriving DecidableEq, Repr, Inhabited

/-- `<!ATTLIST element name type default …>`. -/
structure AttlistBody where
  element : Option Parameter := none
  definitions : List AttributeDef := []
deriving DecidableEq, Repr, Inhabited

/-- `<!ENTITY % name "value">` or `<!ENTITY name SYSTEM "…">`. -/
structure EntityBody where
  percent : Option Parameter := none
  name : Option Parameter := none
  value : Option Parameter := none
  external : ExternalId := {}
deriving DecidableEq, Repr, Inhabited

/-- The replacement text of an entity, without its quotes. -/
def EntityBody.replacement (b : EntityBody) : Option String := b.value.map Parameter.inner

/-- `<!NOTATION name PUBLIC "…">`. -/
structure NotationBody where
  name : Option Parameter := none
  external : ExternalId := {}
deriving DecidableEq, Repr, Inhabited

/-- What a declaration declares. -/
inductive Body where
  | element (body : ElementBody)
  | attlist (body : AttlistBody)
  | entity (body : EntityBody)
  | notationDecl (body : NotationBody)
deriving DecidableEq, Repr, Inhabited

/-- The parameter that names what is declared, or the element of an attribute list. -/
def Body.name : Body → Option Parameter
  | .element b => b.name
  | .attlist b => b.element
  | .entity b => b.name
  | .notationDecl b => b.name

/-- A character of a name in a content model; `#` starts a reserved word. -/
def isContentName (c : Char) : Bool :=
  Text.isAlphanumeric c || c == '_' || c == ':' || c == '-' || c == '.' || c == '#'

/-- The runs of name characters of a text that starts at `offset`, with a run already begun. Runs
are given with their offset and in order. -/
def nameRuns (offset : Nat) (begun : Option (Nat × List Char)) : List Char → List (Nat × List Char)
  | [] => begun.toList.map fun (start, run) => (start, run.reverse)
  | c :: cs =>
    let next := offset + c.utf8Size
    if isContentName c then
      match begun with
      | some (start, run) => nameRuns next (some (start, c :: run)) cs
      | none => nameRuns next (some (offset, [c])) cs
    else
      match begun with
      | some (start, run) => (start, run.reverse) :: nameRuns next none cs
      | none => nameRuns next none cs

/-- The names of elements in the content model. -/
def ElementBody.contentNames (b : ElementBody) : List Parameter :=
  match b.content with
  | none => []
  | some content =>
    (nameRuns content.span.start none content.text.toList).filterMap fun (start, run) =>
      if run.head? == some '#' then none
      else
        let name := String.ofList run
        some ⟨⟨start, start + Text.size name⟩, name⟩

end Declaration

/-- A declaration of a document type. -/
structure Declaration where
  body : Declaration.Body
  parameters : List Parameter := []
  unrecognized : Option Parameter := none
  closed : Bool := false
deriving DecidableEq, Repr, Inhabited

end XmlAssist
