import XmlAssist.Completion.Locate
import XmlAssist.Participant

/-!
# Proposals

The proposals for what is completed come from the participants. End tags, the XML declaration and,
if nobody has a proposal, the tags of the document itself are added to them.
-/

namespace XmlAssist.Completion

/-- Asks the participants in order for proposals. If the request is given up before one of them,
the proposals are incomplete. -/
def consult (place : Place) (r : Request) (response : Response) (cancel : Cancel) :
    List Participant → Response
  | [] => response
  | p :: rest =>
    let (stop, cancel) := cancel.poll
    if stop then { response with isIncomplete := true }
    else consult place r (p.complete place r response) cancel rest

/-- The tags that occur in the start tags of elements other than the one completed, each once. -/
def usedTags (r : Request) : List String :=
  (r.document.elements.filterMap fun id =>
    match r.document.element? id with
    | some e => if id = r.node || !e.hasStartTag then none else e.tag
    | none => none).eraseDups

/-- The proposals for a start tag. -/
def suggestStartTag (ps : List Participant) (r : Request) (response : Response) (cancel : Cancel)
    (start stop : Nat) : Response :=
  let r := r.replacing start stop
  let response := consult .tagOpen r response cancel ps
  if response.hasItems then response
  else response.addAll ((usedTags r).map fun tag =>
    { label := tag, kind := .property, edit := some ⟨r.range, tag⟩ })

/-- The element waits for an end tag at the cursor: it has none, its end tag is being typed, or it
ends behind the cursor. -/
def awaitsEndTag (e : Element) (offset : Nat) : Bool :=
  !e.closed ||
    (match e.endTagSpan with
      | some span => span.touches offset
      | none => false) ||
    (match e.endOpen with
      | some o => decide (offset < o)
      | none => false)

/-- The proposal of the end tag for the innermost element that waits for one; the element being
typed itself is left out. -/
def suggestEndTag (r : Request) (response : Response) (start : Nat) (leaveOut : Bool) (stop : Nat) : Response :=
  let d := r.document
  match d.rangeOf ⟨start, stop⟩ with
  | .error _ => response
  | .ok range =>
    let around := if leaveOut then d.ancestors r.node else r.node :: d.ancestors r.node
    let waiting := around.findSome? fun id =>
      (d.element? id).bind fun e => if awaitsEndTag e r.offset then e.tag else none
    match waiting with
    | none => response
    | some tag =>
      let label := "/" ++ tag
      let closed := Lexer.isFollowedBy d.text stop .afterEndTagOpen .endTagClose
      response.add
        { label, kind := .property, filterText := some label
          edit := some ⟨range, if closed then label else label ++ ">"⟩ }

/-- The request about the value from `start` to `stop`, and the part of it before the cursor. Inside
quotes the quotes are left alone. -/
def valueRequest (r : Request) (start stop : Nat) : Request × String :=
  let s := r.document.text
  match Text.byte? s start with
  | some q =>
    if Lexer.isQuoteByte q ∧ start < r.offset then
      let inner := start + 1
      let innerStop := if inner < stop ∧ Text.byte? s (stop - 1) = some q then stop - 1 else stop
      if r.offset ≤ innerStop then
        ({ r with replaced := ⟨inner, innerStop⟩, quoted := true }, Text.slice s inner r.offset)
      else (r.replacing start stop, "")
    else (r.replacing start stop, "")
  | none => (r.replacing start stop, "")

/-- The end of what the XML declaration replaces: behind a `?>` or `>` that follows on the line. -/
def prologStop (s : String) (stop : Nat) : Nat :=
  let line := (Text.slice s stop (Text.size s)).toList.takeWhile (· != '\n')
  let blanks := line.takeWhile Text.isBlank
  let width := Text.size (String.ofList blanks)
  match line.dropWhile Text.isBlank with
  | '?' :: '>' :: _ => stop + width + 2
  | '>' :: _ => stop + width + 1
  | _ => stop

/-- The proposal of the XML declaration, unless it has attributes already. -/
def suggestProlog (r : Request) (response : Response) (start stop : Nat) : Response :=
  if !(r.document.attributes r.node).isEmpty then response
  else
    match r.document.rangeOf ⟨start, prologStop r.document.text stop⟩ with
    | .error _ => response
    | .ok range => response.add
        { label := "<?xml ... ?>", kind := .property, filterText := some "xml", isSnippet := true
          edit := some ⟨range, "xml version=\"1.0\" encoding=\"UTF-8\"?>$0"⟩ }

/-- The proposals for what is completed. -/
def suggest (ps : List Participant) (r : Request) (response : Response) (cancel : Cancel) : Spot → Response
  | .tag start stop =>
    suggestEndTag (r.replacing start stop) (suggestStartTag ps r response cancel start stop) start true stop
  | .startTag start stop => suggestStartTag ps r response cancel start stop
  | .endTag start stop => suggestEndTag r response start false stop
  | .attributeName start stop =>
    let withValue := !Lexer.isFollowedBy r.document.text stop .afterAttributeName .assign
    consult (.attributeName withValue) (r.replacing start stop) response cancel ps
  | .attributeValue start stop =>
    let (r, typed) := valueRequest r start stop
    consult (.attributeValue typed) r response cancel ps
  | .content => consult .content (r.replacing r.offset r.offset) response cancel ps
  | .counterpart offset tag =>
    match r.document.rangeOf ⟨offset, offset⟩ with
    | .error _ => response
    | .ok range => response.add
        { label := "</" ++ tag ++ ">", kind := .property, isSnippet := true
          edit := some ⟨range, "$0</" ++ tag ++ ">"⟩ }
  | .prolog start stop => suggestProlog r response start stop

/-- Participants are asked for proposals at a spot. -/
def Spot.asksParticipants : Spot → Bool
  | .endTag .. | .counterpart .. | .prolog .. => false
  | _ => true

/-- Where something is completed the participants are asked, or not; elsewhere they are not. -/
def asksParticipants (spot : Option Spot) : Bool := (spot.map Spot.asksParticipants).getD false

/-- The request for proposals at a position. -/
def requestAt (d : Document) (position : Position) (settings : Settings) : Except BadLocation Request := do
  let r ← XmlAssist.Request.behind d position
  return { r with settings, replaced := ⟨r.offset, r.offset⟩ }

/-- The text to insert behind `>` or `</`: the end tag that belongs there. -/
def tagToInsert (d : Document) (position : Position) (settings : Settings) :
    Except BadLocation (Option String) := do
  let offset ← d.offsetAt position
  if !settings.completion.autoCloseTags || offset == 0 then return none
  let node := d.nodeBefore offset
  if d.endsWith '>' offset then
    match d.element? node with
    | some e =>
      if !e.selfClosed && !e.hasEndTag && e.startClose == some (offset - 1) then
        return e.tag.map fun tag => "$0</" ++ tag ++ ">"
      else return none
    | none => return none
  else if d.endsWith '/' offset && d.endsWith '<' (offset - 1) then
    let unclosed := (node :: d.ancestors node).findSome? fun id =>
      (d.element? id).bind fun e => if e.closed then none else e.tag
    return unclosed.map (· ++ ">")
  else return none

end XmlAssist.Completion
