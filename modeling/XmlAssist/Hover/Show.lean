import XmlAssist.Participant
import XmlAssist.Tree.TagName

/-!
# Hovers

What the cursor is on, and the texts that the participants have for it.
-/

namespace XmlAssist.Hover

/-- The name of a tag that the cursor is in or right behind, by reading the markup again from the
start of the element or of its end tag, and whether it is the start tag. -/
def rescannedTag? (d : Document) (id : Nat) (e : Element) (offset : Nat) : Option (Span × Bool) :=
  let found := match e.endOpen.filter (· ≤ offset) with
    | some start => (Lexer.spanReaching? d.text .endTagName start offset).map (·, false)
    | none => (Lexer.spanReaching? d.text .startTagName (d.span id).start offset).map (·, true)
  found.filter fun (span, _) => span.touches offset

/-- What the cursor is on, if there is something to show for it. -/
def target? (settings : Settings) (r : XmlAssist.Request) : Option (Target × Request) :=
  let d := r.document
  let request (span : Span) (isOpen : Bool) : Request :=
    { r with range := (d.rangeOf span).toOption, isOpen, settings }
  match r.attribute?, r.element? with
  | some a, _ =>
    match a.valueSpan.filter (·.touches r.offset) with
    | some span => some (.attributeValue, request span true)
    | none => some (.attributeName, request a.nameSpan true)
  | none, some e =>
    if e.tag.isNone then none
    else (rescannedTag? d r.node e r.offset).map fun (span, isOpen) => (.tag, request span isOpen)
  | none, none => none

/-- The text of a participant, if it has one. -/
def fragment (target : Target) (r : Request) (p : Participant) (cancel : Cancel) : Contribution String :=
  match p.hover target r with
  | .ok text => .ofList cancel (text.toList.filter (· ≠ ""))
  | .error e => { failure := some e, cancel }

/-- The line between two texts. -/
def separator : MarkupKind → String
  | .markdown => "\n\n___\n\n"
  | .plainText => "\n\n"

/-- The texts of all participants; nothing if none has one. -/
def show? (ps : List Participant) (target : Target) (r : Request) (cancel : Cancel) : Option Hover :=
  match (gather cancel (ps.map (fragment target r))).items with
  | [] => none
  | texts =>
    let kind := r.settings.markupKind
    some { contents := { kind, value := (separator kind).intercalate texts }, range := r.range }

end XmlAssist.Hover
