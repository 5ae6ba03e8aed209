import XmlAssist.Grammar.Provider
import XmlAssist.Uri.SystemId

/-!
# Grammars from document types

The declarations in a document and in the file that its document type names make a grammar. The
first declaration of an element or an attribute counts, and those in the document come first. The
comment before a declaration is its documentation.
-/

namespace XmlAssist.Grammar

variable [Library]

/-- The address of the file of declarations that a document names. -/
def externalUri? (d : Document) : Option String := do
  let doctype ← d.doctypeData?
  if doctype.synthetic then none
  let systemId ← doctype.systemId
  if systemId = "" then none
  Uri.resolve? d.uri systemId

namespace DocumentType

/-- Declarations while they are collected. -/
structure Collected where
  elements : List Element := []
  /-- Attributes with the name of their element, in order. -/
  attributes : List (String × Attribute) := []
  /-- The comment that stands before the next declaration. -/
  comment : Option String := none

/-- The declaration of an element, if it is the first with its name. -/
def Collected.addElement (x : Collected) (d : Document) (source : Option String)
    (body : Declaration.ElementBody) (doc : Option String) : Collected :=
  match body.name with
  | none => x
  | some name =>
    if x.elements.any (·.name == name.text) then x
    else
      let children := (body.contentNames.map (·.text)).foldl
        (fun found c => if found.contains c then found else found ++ [c]) []
      let element : Element := {
        name := name.text
        children
        isEmpty := body.category.map (·.text) == some "EMPTY"
        documentation := doc
        source
        location := (d.rangeOf name.span).toOption.map fun range => { uri := d.uri, range } }
      { x with elements := x.elements ++ [element] }

/-- The default of an attribute, without quotes; a reserved word is none. -/
def defaultOf (definition : AttributeDef) : Option String :=
  match definition.value with
  | none => none
  | some v =>
    if v.text.startsWith '#' then none
    else some (String.ofList (Text.trimList Text.isQuote v.text.toList))

/-- The definitions of an attribute list. -/
def Collected.addAttributes (x : Collected) (body : Declaration.AttlistBody) (doc : Option String) :
    Collected :=
  match body.element with
  | none => x
  | some element =>
    let found := body.definitions.filterMap fun definition =>
      definition.name.map fun name => (element.text, ({
        name := name.text
        default := defaultOf definition
        values := definition.enumeration
        required := definition.isRequired
        documentation := doc } : Attribute))
    { x with attributes := x.attributes ++ found }

/-- The next child of a document type. A comment is kept for what follows, white space is passed
over, and everything else uses the comment up. -/
def Collected.step (d : Document) (source : Option String) (x : Collected) (id : Nat) : Collected :=
  let node := d.node id
  match node.kind with
  | .comment _ => { x with comment := (d.content? id).map Text.trim }
  | .text =>
    if Text.trim (d.source id) = "" then x else { x with comment := none }
  | .declaration declaration =>
    let doc := x.comment.filter (· ≠ "")
    let x := { x with comment := none }
    match declaration.body with
    | .element body => x.addElement d source body doc
    | .attlist body => x.addAttributes body doc
    | _ => x
  | _ => { x with comment := none }

/-- The elements with an attribute added to the first of a name, unless it has the attribute. -/
def addAttribute (elements : List Element) (owner : String) (a : Attribute) : List Element :=
  match elements with
  | [] => []
  | e :: rest =>
    if e.name == owner then
      (if e.attributes.any (·.name == a.name) then e
        else { e with attributes := e.attributes ++ [a] }) :: rest
    else e :: addAttribute rest owner a

/-- The elements declared so far, and those that a document declares; its attributes are added to
both. -/
def collect (elements : List Element) (d : Document) (source : Option String) : List Element :=
  match d.doctype? with
  | none => elements
  | some doctype =>
    let found := (d.children doctype).foldl (Collected.step d source) { elements }
    found.attributes.foldl (fun es (owner, a) => addAttribute es owner a) found.elements

/-- The file of declarations at an address. -/
def load (lookup : Lookup) (uri : String) : Except Failure Document :=
  match lookup uri with
  | some d => .ok d
  | none => .error (.unavailable ("Cannot find DTD '" ++ uri ++ "'.") none)

/-- The grammar of declared elements, any of which may be outermost. -/
def ofElements (uri : String) (elements : List Element) : Grammar :=
  { uri, elements, globals := elements }

/-- The grammar that a document declares and refers to. The declarations in the document do without
a file that is not at hand, if there are any. -/
def ofDocument (lookup : Lookup) (d : Document) : Except Failure (Option Grammar) :=
  let own := collect [] d none
  match externalUri? d with
  | none => .ok (some (ofElements d.uri own))
  | some uri =>
    match load lookup uri with
    | .ok dtd => .ok (some (ofElements uri (collect own dtd (some uri))))
    | .error e => if own.isEmpty then .error e else .ok (some (ofElements uri own))

/-- The grammar in a file of declarations. -/
def ofSystemId (lookup : Lookup) (systemId : String) : Except Failure (Option Grammar) := do
  if !Document.isDtdUri systemId then return none
  let dtd ← load lookup systemId
  return some (ofElements systemId (collect [] dtd (some systemId)))

/-- Document types as a source of grammars. -/
def provider : Provider where
  adapts d := d.doctype?.isSome && !d.isDtd
  ofDocument := ofDocument
  ofSystemId := ofSystemId

end DocumentType

end XmlAssist.Grammar
