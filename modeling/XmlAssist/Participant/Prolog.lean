import XmlAssist.Participant

/-!
# Proposals in the XML declaration

The attributes of the XML declaration stand in a fixed order: `version`, `encoding`, `standalone`.
Without the first only it is proposed, and behind the last nothing is.
-/

namespace XmlAssist.Participant.Prolog

/-- The values of an attribute of the XML declaration, the usual one first. -/
def valuesOf (name : String) : List String :=
  if name = "version" then ["1.0", "1.1"]
  else if name = "encoding" then
    ["UTF-8", "UTF-16", "ISO-8859-1", "Shift_JIS", "EUC-JP", "EUC-KR", "Windows-1251", "Windows-1252"]
  else if name = "standalone" then ["yes", "no"]
  else []

/-- The proposal of an attribute. -/
def nameItem (r : Completion.Request) (withValue : Bool) (name : String) : Completion.Item :=
  let value := ((valuesOf name).head?).getD ""
  { label := name, kind := .value, filterText := some name
    edit := some ⟨r.range, if withValue then name ++ "=\"" ++ value ++ "\"" else name⟩ }

/-- An attribute `standalone` ends before the cursor. -/
def standaloneBefore (r : Completion.Request) : Bool :=
  (r.document.attributes r.node).any fun (id, a) =>
    a.name == "standalone" && decide ((r.document.span id).stop ≤ r.offset)

/-- The attributes that may be proposed, given those that are there. -/
def namesFor (response : Completion.Response) : List String :=
  if response.hasAttribute "version" then ["encoding", "standalone"] else ["version"]

/-- The values proposed for an attribute: not those that it has elsewhere in the declaration. -/
def valueItems (r : Completion.Request) (name : String) : List Completion.Item :=
  let used := (r.document.attributes r.node).filterMap fun (_, a) =>
    if a.name == name && !a.valueTouches r.offset then a.value else none
  ((valuesOf name).filter fun value => !used.contains value).map fun value =>
    let text := r.valueText value
    { label := value, kind := .value, filterText := some text, edit := some ⟨r.range, text⟩ }

/-- The proposals at a place. -/
def complete (place : Completion.Place) (r : Completion.Request) (response : Completion.Response) :
    Completion.Response :=
  if !(r.document.node r.node).isProlog then response
  else
    match place with
    | .attributeName withValue =>
      if standaloneBefore r then response
      else ((namesFor response).map (nameItem r withValue)).foldl (·.addAttribute ·) response
    | .attributeValue _ =>
      match r.currentAttribute with
      | some name => response.addAll (valueItems r name)
      | none => response
    | _ => response

/-- The participant for the XML declaration. -/
def participant : Participant where
  complete := complete

end XmlAssist.Participant.Prolog
