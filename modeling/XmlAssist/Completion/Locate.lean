import XmlAssist.Completion.Request
import XmlAssist.Cancel
import XmlAssist.Tree.TagName

/-!
# What is completed

The markup is read again from the start of the node that the cursor is behind. The token with the
cursor decides what is completed there.
-/

namespace XmlAssist.Completion

/-- What is completed, with the span of the text that is replaced. -/
inductive Spot where
  /-- A name behind `<`, which may become a start tag or an end tag. -/
  | tag (start stop : Nat)
  /-- The name in a start tag. -/
  | startTag (start stop : Nat)
  /-- The slash and the name of an end tag. -/
  | endTag (start stop : Nat)
  | attributeName (start stop : Nat)
  | attributeValue (start stop : Nat)
  | content
  /-- The end tag for a tag, right behind its start tag. -/
  | counterpart (offset : Nat) (tag : String)
  /-- The XML declaration. -/
  | prolog (start stop : Nat)
deriving DecidableEq, Repr, Inhabited

/-- What a token before or at the cursor means. -/
inductive Finding where
  /-- The cursor is found, and what there is to complete. -/
  | found (spot : Option Spot)
  /-- The name of a tag before the cursor. -/
  | tagName
  /-- The name of an attribute before the cursor. -/
  | attributeName
  | pass
deriving DecidableEq, Repr, Inhabited

/-- If the cursor is at the end of a token and the next one is of a kind, where that ends; else the
cursor. -/
def stopBehind (offset : Nat) (t : Token) (next : Option Token) (kind : Token.Kind) : Nat :=
  match next with
  | some n => if offset = t.stop ∧ n.kind = kind ∧ n.start = offset then n.stop else offset
  | none => offset

/-- An end tag is proposed behind the `>` at an offset: the element has none. -/
def lacksEndTag (r : Request) (offset : Nat) : Bool :=
  r.settings.completion.autoCloseTags &&
    (match r.toRequest.element? with
      | some e => !e.hasEndTag && !e.selfClosed
      | none => true) &&
    (r.document.rangeOf ⟨offset, offset⟩).toOption.isSome

/-- What is completed in white space, by what may follow it. -/
def spotInSpace (offset : Nat) (t : Token) (next : Option Token) : Lexer.Mode → Option Spot
  | .afterStartTagOpen => some (.tag t.start (stopBehind offset t next .startTagName))
  | .inTag | .afterAttributeName | .inProlog => some (.attributeName t.stop t.stop)
  | .beforeAttributeValue => some (.attributeValue t.stop t.stop)
  | .afterEndTagOpen => some (.endTag (t.start - 1) t.stop)
  | .content => some .content
  | _ => none

/-- The offset of a slash that only white space separates from `start`. -/
def slashBefore? (s : String) (start : Nat) : Option Nat :=
  let cs := ((Text.slice s 0 start).toList.reverse.dropWhile Text.isBlank).reverse
  if cs.getLast? == some '/' then some (Text.size (String.ofList cs) - 1) else none

/-- What a token that starts at or before the cursor means, given the mode behind it and the next
token. -/
def examine (r : Request) (t : Token) (mode : Lexer.Mode) (next : Option Token) : Finding :=
  let offset := r.offset
  let atEnd := decide (t.stop = offset)
  let inside := decide (offset ≤ t.stop)
  match t.kind with
  | .startTagOpen =>
    if atEnd then .found (some (.tag offset (stopBehind offset t next .startTagName))) else .pass
  | .startTagName => if inside then .found (some (.startTag t.start t.stop)) else .tagName
  | .attributeName => if inside then .found (some (.attributeName t.start t.stop)) else .attributeName
  | .assign =>
    if atEnd then .found (some (.attributeValue offset (stopBehind offset t next .attributeValue)))
    else .pass
  | .attributeValue => if inside then .found (some (.attributeValue t.start t.stop)) else .pass
  | .blank => if inside then .found (spotInSpace offset t next mode) else .pass
  | .startTagClose =>
    match r.currentTag with
    | some tag => if inside && lacksEndTag r t.stop then .found (some (.counterpart t.stop tag)) else .pass
    | none => .pass
  | .endTagOpen =>
    if !inside then .pass
    else if offset = t.start then .found (some .content)
    else .found (some (.endTag (t.start + 1) (stopBehind offset t next .endTagName)))
  | .endTagName =>
    match slashBefore? r.document.text t.start with
    | some slash => if inside then .found (some (.endTag slash t.stop)) else .pass
    | none => .pass
  | .text => if inside then .found (some .content) else .pass
  | .instructionOpen => if atEnd && t.start == 0 then .found (some (.prolog t.stop t.stop)) else .pass
  | .prologName | .instructionTarget =>
    if t.start == 2 && inside then .found (some (.prolog t.start t.stop)) else .pass
  | _ => .pass

/-- Goes through the tokens up to the cursor, asking before each whether to go on. The request
learns the names that it comes by. -/
def locateIn (r : Request) (cancel : Cancel) : List (Token × Lexer) → Option Spot × Request × Cancel
  | [] => (none, r, cancel)
  | (t, x) :: rest =>
    if t.kind = .eos then (if x.mode = .content then some .content else none, r, cancel)
    else if r.offset < t.start then (none, r, cancel)
    else
      let (stop, cancel) := cancel.poll
      if stop then (none, r, cancel)
      else
        let text := Text.slice r.document.text t.start t.stop
        match examine r t x.mode (rest.head?.map (·.1)) with
        | .found spot => (spot, r, cancel)
        | .tagName => locateIn { r with lastTag := some text } cancel rest
        | .attributeName => locateIn { r with lastAttribute := some text } cancel rest
        | .pass => locateIn r cancel rest

/-- What is completed at the place of a request. Nothing is in document types. -/
def locate (r : Request) (cancel : Cancel) : Option Spot × Request × Cancel :=
  let node := r.document.node r.node
  if node.isDoctype || node.declaration?.isSome then (none, r, cancel)
  else
    let lexer := Lexer.restart r.document.text node.span.start .content
    locateIn r cancel (lexer.run r.document.text)

end XmlAssist.Completion
