import XmlAssist.Participant
import XmlAssist.Tree.TagName

/-!
# Ways through a document

From a place to the places that belong to it. The two tags of an element belong together; all else
comes from the participants.
-/

namespace XmlAssist.Navigation

/-- The names in the tags of an element. -/
def tagSpans (d : Document) (id : Nat) : List Span :=
  match d.element? id with
  | some e => e.tagSpan.toList ++ e.endTagSpan.toList
  | none => []

/-- The link from the name in one tag to that in the other. -/
def pairLink (r : Request) : Except BadLocation (List LocationLink) :=
  let d := r.document
  match d.tagNameAt? r.offset with
  | none => .ok []
  | some name =>
    let other := (d.element? name.element).bind fun e => if name.inStartTag then e.endTagSpan else e.tagSpan
    match other with
    | none => .ok []
    | some target => do
      let origin ← d.rangeOf name.span
      let target ← d.rangeOf target
      return [{ origin, targetUri := d.uri, target }]

/-- The ranges of the names in the tags of the element at a place. -/
def pairRanges (r : Request) : Except BadLocation (List Range) :=
  match r.document.tagNameAt? r.offset with
  | none => .ok []
  | some name => (tagSpans r.document name.element).mapM r.document.rangeOf

/-- Where the thing at a place is defined. -/
def definitions (ps : List Participant) (r : Request) (cancel : Cancel) :
    Except BadLocation (List LocationLink) := do
  return (← pairLink r) ++ (gather cancel (ps.map fun p => p.definitions r)).items

/-- Where the type of the thing at a place is defined. -/
def typeDefinitions (ps : List Participant) (r : Request) (cancel : Cancel) : List LocationLink :=
  (gather cancel (ps.map fun p => p.typeDefine r)).items

/-- The places that refer to the thing at a place. -/
def references (ps : List Participant) (r : Request) (withDeclaration : Bool) (cancel : Cancel) : List Location :=
  (gather cancel (ps.map fun p => p.refer r withDeclaration)).items

/-- The ranges to highlight for a place. -/
def highlights (ps : List Participant) (r : Request) (cancel : Cancel) :
    Except BadLocation (List Highlight) := do
  let pair := (← pairRanges r).map fun range => ({ range, kind := .read } : Highlight)
  return pair ++ (gather cancel (ps.map fun p => p.highlight r)).items

/-- The edits that give the thing at a place another name. -/
def renameEdits (ps : List Participant) (r : Request) (newText : String) : Except BadLocation WorkspaceEdit := do
  let pair := (← pairRanges r).map fun range => ({ range, newText } : TextEdit)
  return { uri := r.document.uri, edits := pair ++ (gather .never (ps.map fun p => p.rename r newText)).items }

/-- The lenses of a document. -/
def lenses (ps : List Participant) (d : Document) (settings : Settings.CodeLens) (cancel : Cancel) : List CodeLens :=
  (gather cancel (ps.map fun p => p.lens d settings)).items

/-- The links of a document. -/
def links (ps : List Participant) (d : Document) : List DocumentLink :=
  (gather .never (ps.map fun p => p.link d)).items

end XmlAssist.Navigation
