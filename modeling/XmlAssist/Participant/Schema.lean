import XmlAssist.Participant
import XmlAssist.Schema.DataType

/-!
# Types in schemas

In a schema some attributes name types: those that the schema declares and the datatypes that need
no declaration. Their values are proposed, described and followed to the declaration.
-/

namespace XmlAssist.Participant.FromSchema

/-- The types that an attribute may name. -/
inductive Binding where
  | complex
  | simple
  | both
deriving DecidableEq, Repr, Inhabited

/-- The attribute may name a type that an element with this local name declares. -/
def Binding.accepts (b : Binding) (kind : String) : Bool :=
  match b with
  | .complex => kind == "complexType"
  | .simple => kind == "simpleType"
  | .both => true

/-- The local name of an element. -/
def localName? (d : Document) (id : Nat) : Option String := (d.element? id).bind (·.localName)

/-- The element is one of the schema language. -/
def isSchemaElement (d : Document) (id : Nat) : Bool :=
  ((d.element? id).bind (d.namespace? id ·)) == some Document.schemaNamespace

/-- The types that an attribute of an element may name, if it names any. -/
def binding? (d : Document) (owner : Nat) (name : String) : Option Binding :=
  if !isSchemaElement d owner then none
  else
    match localName? d owner with
    | none => none
    | some kind =>
      if name = "type" ∧ kind = "element" then some .both
      else if (name = "type" ∧ kind = "attribute") ∨ (name = "itemType" ∧ kind = "list") then some .simple
      else if name = "base" ∧ (kind = "restriction" ∨ kind = "extension") then
        match (d.parentElement? owner).bind (localName? d) with
        | some "complexContent" => some .complex
        | some "simpleType" => some .simple
        | _ => some .both
      else none

/-- A type that the schema declares. -/
structure NamedType where
  /-- `complexType` or `simpleType`. -/
  kind : String
  /-- The attribute with its name. -/
  name : Attribute

/-- The types that a schema declares. -/
def namedTypes (d : Document) : List NamedType :=
  d.elements.filterMap fun id => do
    let kind ← localName? d id
    if (kind == "complexType" || kind == "simpleType") && isSchemaElement d id then
      let (_, name) ← d.attribute? id "name"
      return { kind, name }
    else none

/-- The prefix of the namespace that the schema describes. -/
def targetPrefix? (d : Document) : Option String := do
  let root ← d.root?
  d.prefixFor? root (← d.attributeValue? root "targetNamespace")

/-- The text shown for a declared type. -/
def typeDocumentation (kind name : String) : String :=
  let shown := if kind = "complexType" then "Complex Type" else "Simple Type"
  "**" ++ name ++ "**\n - Type: `" ++ shown ++ "`"

/-- A name under a prefix. -/
def qualified (pre : Option String) (name : String) : String :=
  match pre with
  | some p => p ++ ":" ++ name
  | none => name

/-- The types proposed for an attribute, with their texts. -/
def typesFor (d : Document) (b : Binding) : List (String × String) :=
  let declared := (namedTypes d).filterMap fun t =>
    match t.name.value with
    | some name =>
      if b.accepts t.kind then some (qualified (targetPrefix? d) name, typeDocumentation t.kind name) else none
    | none => none
  let known := if b = .complex then [] else
    Schema.DataType.all.map fun t => (qualified d.schemaPrefix? t.name, t.documentation)
  declared ++ known

/-- The proposals at a place. -/
def complete (place : Completion.Place) (r : Completion.Request) (response : Completion.Response) :
    Completion.Response :=
  match place with
  | .attributeValue _ =>
    let d := r.document
    if !d.isXsd || r.toRequest.element?.isNone then response
    else
      let bound : Option Binding := do
        let (_, a) ← d.attribute? r.node (← r.currentAttribute)
        binding? d r.node a.name
      match bound with
      | none => response
      | some b => response.addAll ((typesFor d b).map fun (name, doc) =>
          let text := r.valueText name
          { label := name, kind := .value, filterText := some text, edit := some ⟨r.range, text⟩
            documentation := some { kind := .markdown, value := doc } })
  | _ => response

/-- A name as its prefix and its local part. -/
def splitName (value : String) : Option String × String :=
  match Text.splitOnce? ':' value with
  | some (pre, name) => (some pre, name)
  | none => (none, value)

/-- The attribute under the cursor and the types that it may name. -/
def boundAttribute? (r : Request) : Option (Attribute × Binding) := do
  let a ← r.attribute?
  let owner ← Request.ownerElement? r.document r.node
  return (a, ← binding? r.document owner a.name)

/-- The text for the type that the value under the cursor names. -/
def hover (target : Hover.Target) (r : Hover.Request) : Option String := do
  let d := r.document
  if target ≠ .attributeValue || !d.isXsd then none
  let (a, _) ← boundAttribute? r.toRequest
  let (pre, name) := splitName (← a.value)
  let known := if pre = d.schemaPrefix? then Schema.DataType.ofName? name else none
  match known with
  | some t => return t.documentation
  | none =>
    let t ← (namedTypes d).find? (·.name.value == some name)
    return typeDocumentation t.kind name

/-- From the value under the cursor to the names of the types that it may mean. -/
def define (r : Request) (cancel : Cancel) : Contribution LocationLink :=
  let d := r.document
  match boundAttribute? r with
  | none => { cancel }
  | some (a, b) =>
    match a.value, a.valueSpan with
    | some value, some origin =>
      let name := (splitName value).2
      .ofAttempts cancel ((namedTypes d).filterMap fun t =>
        match t.name.valueSpan with
        | some target =>
          if t.name.value == some name && b.accepts t.kind then
            some (do
              let origin ← d.rangeOf origin
              let target ← d.rangeOf target
              return { origin, targetUri := d.uri, target })
          else none
        | none => none)
    | _, _ => { cancel }

/-- The participant for schemas. -/
def participant : Participant where
  complete := complete
  hover target r := .ok (hover target r)
  appliesTo d := d.isXsd
  define := define

end XmlAssist.Participant.FromSchema
