import XmlAssist.Grammar.DocumentType
import XmlAssist.Participant

/-!
# Ways between declarations

An element is declared by `<!ELEMENT` and referred to by the attribute lists for it and by the
content models it occurs in. Main functions: from a name to its declaration, and from a name to all
places that have it.
-/

namespace XmlAssist.Participant.FromDoctype

/-- The nodes inside the document type. -/
def doctypeChildren (d : Document) : List Nat :=
  match d.doctype? with
  | some id => d.children id
  | none => []

/-- The names in the declarations of elements. -/
def declarations (d : Document) : List Parameter :=
  (doctypeChildren d).filterMap fun id => (d.node id).elementDecl?.bind (·.name)

/-- The names that refer to declarations of elements. -/
def references (d : Document) : List Parameter :=
  (doctypeChildren d).flatMap fun id =>
    match (d.node id).attlistDecl?, (d.node id).elementDecl? with
    | some b, _ => b.element.toList
    | none, some b => b.contentNames
    | none, none => []

/-- The document has declarations. -/
def applies (d : Document) : Bool := d.isDtd || d.doctype?.isSome

/-- The name of the element that the cursor is on, in a declaration or a reference. -/
def nameAt? (d : Document) (offset : Nat) : Option String :=
  (((declarations d).find? (·.span.touches offset)).or
    ((references d).find? (·.span.touches offset))).map (·.text)

/-- The name that a request is about, in a document with declarations. -/
def requestedName? (r : Request) : Option String :=
  if applies r.document then nameAt? r.document r.offset else none

/-- The declarations of a name. -/
def declarationsOf (d : Document) (name : String) : List Parameter :=
  (declarations d).filter (·.text == name)

/-- The references to a name. -/
def referencesTo (d : Document) (name : String) : List Parameter :=
  (references d).filter (·.text == name)

/-- From a reference to the declaration. -/
def define (r : Request) (cancel : Cancel) : Contribution LocationLink :=
  let d := r.document
  match (references d).find? (·.span.touches r.offset) with
  | none => { cancel }
  | some origin =>
    match (declarations d).find? (·.text == origin.text) with
    | none => { cancel }
    | some target => .ofAttempts cancel [do
        let origin ← d.rangeOf origin.span
        let target ← d.rangeOf target.span
        return { origin, targetUri := d.uri, target }]

/-- The range of a parameter as a location of the document. -/
def locate (d : Document) (p : Parameter) : Except BadLocation Location :=
  (d.rangeOf p.span).map fun range => { uri := d.uri, range }

/-- From a name to all references to it, and if asked for to its declarations first. -/
def refer (r : Request) (withDeclaration : Bool) (cancel : Cancel) : Contribution Location :=
  let d := r.document
  match requestedName? r with
  | none => { cancel }
  | some name =>
    let declared := if withDeclaration then (declarationsOf d name).map (locate d) else []
    (Contribution.ofAttempts cancel declared).andThen fun cancel =>
      Contribution.visit
        (fun p => if p.text == name then (locate d p).map ([·]) else .ok []) cancel (references d)

/-- The wording of a number of references. -/
def countTitle (count : Nat) : String := if count = 1 then "1 reference" else toString count ++ " references"

/-- The number of references above a declaration that has some. -/
def lensOf (d : Document) (supported : Bool) (declared : Parameter) : Except BadLocation (List CodeLens) :=
  let count := (referencesTo d declared.text).length
  if count = 0 then .ok []
  else
    (d.rangeOf declared.span).map fun range =>
      let command : Command :=
        if supported then
          { title := countTitle count, command := "xml.show.references"
            arguments := [.str d.uri, range.start.toJson] }
        else { title := countTitle count, command := "" }
      [{ range, command := some command }]

/-- The numbers of references above declarations. -/
def lens (d : Document) (settings : Settings.CodeLens) (cancel : Cancel) : Contribution CodeLens :=
  if !applies d then { cancel }
  else Contribution.visit (lensOf d (settings.supports "references")) cancel (declarations d)

/-- The declarations of a name and the references to it. -/
def highlight (r : Request) (cancel : Cancel) : Contribution Highlight :=
  let d := r.document
  let mark (kind : Highlight.Kind) (p : Parameter) : Except BadLocation Highlight :=
    (d.rangeOf p.span).map fun range => { range, kind }
  match requestedName? r with
  | none => { cancel }
  | some name =>
    .ofAttempts cancel
      ((declarationsOf d name).map (mark .write) ++ (referencesTo d name).map (mark .read))

/-- The span of a literal without its quotes. -/
def literalSpan (p : Parameter) : Span :=
  if 2 ≤ Text.size p.text ∧ p.text ≠ p.unquoted then ⟨p.span.start + 1, p.span.stop - 1⟩ else p.span

variable [Library]

/-- From the system identifier to the file of declarations. -/
def link (d : Document) (cancel : Cancel) : Contribution DocumentLink :=
  match d.doctypeData?.bind (·.external.systemId), Grammar.externalUri? d with
  | some p, some target =>
    .ofAttempts cancel [(d.rangeOf (literalSpan p)).map fun range => { range, target }]
  | _, _ => { cancel }

/-- The participant for document types. -/
def participant : Participant where
  appliesTo := applies
  define := define
  refer := refer
  lens := lens
  highlight := highlight
  link := link

end XmlAssist.Participant.FromDoctype
