import XmlAssist.Grammar.Snippet
import XmlAssist.Participant

/-!
# Attributes for schema instances

Four attributes of their own namespace tell how a document relates to its schema. They are proposed
under the prefix of that namespace; where it has none, the declaration of the prefix is proposed.
-/

namespace XmlAssist.Participant.FromInstance

/-- The namespace of the attributes. -/
def instanceNamespace : String := "http://www.w3.org/2001/XMLSchema-instance"

/-- An attribute for schema instances. -/
structure InstanceAttribute where
  localName : String
  documentation : String
  values : List String := []
  /-- Stands on the outermost element only. -/
  outermostOnly : Bool := false
deriving DecidableEq, Repr, Inhabited

/-- The attributes in the order in which they are proposed. -/
def instanceAttributes : List InstanceAttribute := [
  { localName := "type"
    documentation := "Names the type of this element. It must be derived from the type its declaration gives it." },
  { localName := "nil"
    documentation := "When `true`, this element has no content even though its declaration is nillable."
    values := ["true", "false"] },
  { localName := "schemaLocation"
    documentation :=
      "Pairs of a namespace URI and the location of a schema for that namespace, separated by whitespace."
    outermostOnly := true },
  { localName := "noNamespaceSchemaLocation"
    documentation := "Location of a schema for elements that are in no namespace."
    outermostOnly := true }]

/-- The attribute that a name means on an element. -/
def attributeFor? (d : Document) (element : Nat) (name : String) : Option InstanceAttribute := do
  let (pre, localName) ← Text.splitOnce? ':' name
  if d.namespaceFor? element (some pre) = some instanceNamespace then
    instanceAttributes.find? (·.localName == localName)
  else none

/-- The proposal of an attribute under a prefix. -/
def nameItem (r : Completion.Request) (withValue : Bool) (pre : String) (a : InstanceAttribute) :
    Completion.Item :=
  let name := pre ++ ":" ++ a.localName
  { label := name, kind := .value, filterText := some name
    documentation := some { kind := r.settings.markupKind, value := a.documentation }
    edit := some ⟨r.range, if withValue then name ++ Grammar.attributeValue none a.values true else name⟩
    isSnippet := withValue }

/-- The proposal to declare a prefix. -/
def declarationItem (r : Completion.Request) (withValue : Bool) : Completion.Item :=
  let name := "xmlns:xsi"
  { label := name, kind := .value, filterText := some name
    edit := some ⟨r.range, if withValue then name ++ "=\"" ++ instanceNamespace ++ "\"" else name⟩ }

/-- The attributes proposed in the start tag of an element. -/
def nameItems (r : Completion.Request) (withValue : Bool) : List Completion.Item :=
  if r.toRequest.element?.isNone then []
  else
    let isOutermost := (r.document.parentElement? r.node).isNone
    match r.document.prefixFor? r.node instanceNamespace with
    | none => if isOutermost then [declarationItem r withValue] else []
    | some pre =>
      (instanceAttributes.filter fun a => isOutermost || !a.outermostOnly).map (nameItem r withValue pre)

/-- The values proposed for an attribute. -/
def valueItems (r : Completion.Request) : List Completion.Item :=
  match r.toRequest.parentElement?, r.currentAttribute with
  | some element, some name =>
    match attributeFor? r.document element name with
    | some a => a.values.map fun value =>
        let text := r.valueText value
        { label := value, kind := .value, filterText := some text, edit := some ⟨r.range, text⟩ }
    | none => []
  | _, _ => []

/-- The proposals at a place. -/
def complete (place : Completion.Place) (r : Completion.Request) (response : Completion.Response) :
    Completion.Response :=
  match place with
  | .attributeName withValue => (nameItems r withValue).foldl (·.addAttribute ·) response
  | .attributeValue _ => response.addAll (valueItems r)
  | _ => response

/-- The text for the attribute under the cursor. -/
def hover (target : Hover.Target) (r : Hover.Request) : Option String := do
  if target ≠ .attributeName || !r.settings.hover.documentation then none
  let a ← r.toRequest.attribute?
  let owner ← Request.ownerElement? r.document r.node
  return (← attributeFor? r.document owner a.name).documentation

/-- The participant for schema instances. -/
def participant : Participant where
  complete := complete
  hover target r := .ok (hover target r)

end XmlAssist.Participant.FromInstance
