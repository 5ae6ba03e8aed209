import XmlAssist.Diagnostics.Syntax
import XmlAssist.Grammar.Provider
import XmlAssist.Grammar.Snippet
import XmlAssist.Participant

/-!
# What grammars contribute

Proposals, texts, links and problems that follow from the declarations of a document's grammars,
and fixes for problems of the syntax.
-/

namespace XmlAssist.Participant.FromGrammar

open XmlAssist.Grammar (Sources)

variable [Library]

/-- Documentation is shown in the form that the client asks for. -/
def inMarkdown (settings : Settings) : Bool := settings.markupKind == .markdown

/-- Documentation of a declaration as an item carries it. -/
def itemDocumentation (settings : Settings) (text source : Option String) : Option MarkupContent :=
  (Grammar.documentation text source (inMarkdown settings)).map fun value =>
    { kind := settings.markupKind, value }

/-! ## Proposals -/

/-- The proposal of a declared element, with the `<` where there is none yet. -/
def elementItem (r : Completion.Request) (pre : Option String) (withBracket : Bool)
    (declared : Grammar.Element) : Completion.Item :=
  let label := declared.nameUnder pre
  let bracket := if withBracket then "<" else ""
  { label, kind := .property
    filterText := some (bracket ++ label)
    edit := some ⟨r.range, bracket ++ declared.snippet pre r.settings.completion.autoCloseTags⟩
    isSnippet := true
    documentation := itemDocumentation r.settings declared.documentation declared.source }

/-- The element that the element being typed stands in. -/
def surrounding? (r : Completion.Request) : Option Nat :=
  match r.toRequest.element? with
  | some e =>
    if e.tag.isNone || r.document.isInStartTag r.node e r.offset then r.document.parentElement? r.node
    else some r.node
  | none => r.document.parentElement? r.node

/-- The prefix of an element's tag. -/
def prefixOf (d : Document) (id : Nat) : Option String := (d.element? id).bind (·.namePrefix)

/-- Behind `<`: the elements allowed inside the surrounding one, or the outermost ones. -/
def tagItems (x : Sources) (r : Completion.Request) : List Completion.Item :=
  match surrounding? r with
  | some parent =>
    match x.declaration? r.document parent with
    | .ok (some (g, declared)) =>
      (g.childrenOf declared).map (elementItem r (prefixOf r.document parent) false)
    | _ => []
  | none =>
    match x.grammars r.document with
    | .ok grammars => (grammars.flatMap (·.globals)).map (elementItem r none false)
    | .error _ => []

/-- Between tags: the values and the elements allowed in the element around the cursor. -/
def contentItems (x : Sources) (r : Completion.Request) : List Completion.Item :=
  match r.toRequest.parentElement? with
  | none => []
  | some parent =>
    match x.declaration? r.document parent with
    | .ok (some (g, declared)) =>
      declared.values.map (fun value => { label := value, kind := .value, edit := some ⟨r.range, value⟩ }) ++
        (g.childrenOf declared).map (elementItem r (prefixOf r.document parent) true)
    | _ => []

/-- The declaration of the element that a request is about. -/
def declared? (x : Sources) (r : Request) : Option (Grammar × Grammar.Element) :=
  if r.element?.isSome then
    match x.declaration? r.document r.node with
    | .ok found => found
    | .error _ => none
  else none

/-- The proposal of a declared attribute. -/
def attributeItem (r : Completion.Request) (withValue : Bool) (source : Option String)
    (a : Grammar.Attribute) : Completion.Item :=
  { label := a.name, kind := .value
    filterText := some a.name
    edit := some ⟨r.range,
      if withValue then a.name ++ Grammar.attributeValue a.default a.values true else a.name⟩
    isSnippet := withValue
    documentation := itemDocumentation r.settings a.documentation source }

/-- In a start tag: the attributes declared for the element. -/
def attributeItems (x : Sources) (r : Completion.Request) (withValue : Bool) : List Completion.Item :=
  match declared? x r.toRequest with
  | some (_, declared) => declared.attributes.map (attributeItem r withValue declared.source)
  | none => []

/-- In a value: those allowed for the attribute. -/
def valueItems (x : Sources) (r : Completion.Request) : List Completion.Item :=
  match declared? x r.toRequest, r.currentAttribute with
  | some (_, declared), some name =>
    match declared.attribute? name with
    | some a => a.values.map fun value =>
        let text := r.valueText value
        { label := value, kind := .value, filterText := some text, edit := some ⟨r.range, text⟩
          documentation := (a.valueDocumentation.lookup value).map fun doc =>
            { kind := r.settings.markupKind, value := doc } }
    | none => []
  | _, _ => []

/-- The proposals at a place. -/
def complete (x : Sources) (place : Completion.Place) (r : Completion.Request)
    (response : Completion.Response) : Completion.Response :=
  match place with
  | .tagOpen => response.addAll (tagItems x r)
  | .content => response.addAll (contentItems x r)
  | .attributeName withValue => (attributeItems x r withValue).foldl (·.addAttribute ·) response
  | .attributeValue _ => response.addAll (valueItems x r)

/-! ## Hovers -/

/-- The attribute under the cursor, its declaration and that of its element. -/
def hoveredAttribute? (x : Sources) (r : Request) :
    Except Failure (Option (Attribute × Grammar.Element × Grammar.Attribute)) :=
  match r.attribute?, Request.ownerElement? r.document r.node with
  | some a, some owner => do
    match ← x.declaration? r.document owner with
    | some (_, declared) => return (declared.attribute? a.name).map (a, declared, ·)
    | none => return none
  | _, _ => .ok none

/-- The documentation of the declaration under the cursor. -/
def hover (x : Sources) (target : Hover.Target) (r : Hover.Request) : Except Failure (Option String) :=
  if !r.settings.hover.documentation then .ok none
  else
    match target with
    | .tag => do
      if r.toRequest.element?.isNone then return none
      match ← x.declaration? r.document r.node with
      | some (_, declared) =>
        return Grammar.documentation declared.documentation declared.source (inMarkdown r.settings)
      | none => return none
    | .attributeName => do
      match ← hoveredAttribute? x r.toRequest with
      | some (_, declared, a) =>
        return Grammar.documentation a.documentation declared.source (inMarkdown r.settings)
      | none => return none
    | .attributeValue => do
      match ← hoveredAttribute? x r.toRequest with
      | some (written, _, a) => return written.value.bind fun value => a.valueDocumentation.lookup value
      | none => return none

/-! ## Type definitions -/

/-- The places where the element under the cursor is declared. -/
def typeDefine (x : Sources) (r : Request) (cancel : Cancel) : Contribution LocationLink :=
  if r.element?.isNone then { cancel }
  else
    match x.grammars r.document with
    | .error e => { failure := some e, cancel }
    | .ok grammars =>
      Contribution.visit (fun (g : Grammar) => .ok (g.typeLink? r.document r.node).toList) cancel grammars

/-! ## Diagnostics -/

/-- The code for a document without a grammar. -/
def noGrammarCode : String := "NoGrammarConstraints"

/-- The code for an element that the grammar does not declare. -/
def undeclaredCode : String := "MSG_ELEMENT_NOT_DECLARED"

/-- The code for an attribute that has to be there. -/
def requiredCode : String := "MSG_REQUIRED_ATTRIBUTE_NOT_SPECIFIED"

/-- The code for a value that is not allowed. -/
def valueCode : String := "MSG_ATTRIBUTE_VALUE_NOT_IN_LIST"

/-- The attributes of a declared element that are missing or have a value that is not allowed. -/
def checkAttributes (d : Document) (id : Nat) (tag : String) (span : Span) (declared : Grammar.Element) :
    List Diagnostic :=
  let missing := declared.attributes.flatMap fun a =>
    if a.required && !d.hasAttribute id a.name then
      Diagnostic.errorAt d.rangeOf span requiredCode
        ("Attribute \"" ++ a.name ++ "\" is required and must be specified for element type \"" ++ tag ++ "\".")
    else []
  let refused := (d.attributes id).flatMap fun (_, a) =>
    match a.value, a.valueSpan, declared.attribute? a.name with
    | some value, some span, some allowed =>
      if !allowed.values.isEmpty && !allowed.values.contains value then
        Diagnostic.errorAt d.rangeOf span valueCode
          ("Attribute \"" ++ a.name ++ "\" with value \"" ++ value ++
            "\" must have a value from the list \"" ++ " ".intercalate allowed.values ++ "\".")
      else []
    | _, _, _ => []
  missing ++ refused

/-- The problems of an element under grammars. -/
def checkElement (grammars : List Grammar) (d : Document) (id : Nat) : List Diagnostic :=
  match (d.element? id).bind (·.tag), (d.element? id).bind (·.tagSpan) with
  | some tag, some span =>
    match Sources.declarationIn? grammars d id with
    | some (_, declared) => checkAttributes d id tag span declared
    | none => Diagnostic.errorAt d.rangeOf span undeclaredCode ("Element type \"" ++ tag ++ "\" must be declared.")
  | _, _ => []

/-- The problems of a document under its grammars, or that it has none. -/
def diagnose (x : Sources) (d : Document) (settings : Settings) (cancel : Cancel) : Contribution Diagnostic :=
  if d.isDtd || d.root?.isNone then { cancel }
  else if !x.isReferenced d then
    .ofList cancel (settings.validation.noGrammar.severity.toList.map fun severity =>
      { range := d.rootRange, severity, code := some noGrammarCode
        message := "No grammar constraints (DTD or XML Schema) referenced in the document." })
  else if !settings.validation.schema then { cancel }
  else
    match x.grammars d with
    | .error e => { failure := some e, cancel }
    | .ok [] => { cancel }
    | .ok grammars => Contribution.visit (fun id => .ok (checkElement grammars d id)) cancel d.elements

/-! ## Fixes -/

/-- The fixes for an element without an end tag: an end tag, or an empty-element tag if nothing is
inside. -/
def closeFixes (d : Document) (problem : Diagnostic) (span : Span) : List (Except BadLocation CodeAction) :=
  let id := d.nodeAt span.start
  match d.element? id with
  | none => []
  | some e =>
    match e.tag, e.startClose with
    | some tag, some close =>
      if e.tagSpan ≠ some span then []
      else
        let stop := (d.span id).stop
        let endTag := (d.rangeOf ⟨stop, stop⟩).map fun range =>
          CodeAction.quickFix ("Close with '</" ++ tag ++ ">'") problem d.uri range ("</" ++ tag ++ ">")
        let slash := (d.rangeOf ⟨close, close + 1⟩).map fun range =>
          CodeAction.quickFix "Close with '/>'" problem d.uri range "/>"
        if (d.children id).isEmpty then [endTag, slash] else [endTag]
    | _, _ => []

/-- The fixes for a problem of the syntax. -/
def fix (d : Document) (problem : Diagnostic) (cancel : Cancel) : Contribution CodeAction :=
  match d.spanOf problem.range with
  | .error e => { failure := some (.ofBadLocation e), cancel }
  | .ok span =>
    if problem.code = some Diagnostics.unclosedCode then .ofAttempts cancel (closeFixes d problem span)
    else if problem.code = some Diagnostics.missingQuoteCode then
      .ofList cancel [.quickFix "Insert quotes" problem d.uri problem.range ("\"" ++ d.slice span ++ "\"")]
    else if problem.code = some Diagnostics.missingEqualsCode then
      .ofAttempts cancel [(d.rangeOf ⟨span.stop, span.stop⟩).map fun range =>
        .quickFix "Insert '=\"\"'" problem d.uri range "=\"\""]
    else { cancel }

/-- The participant for the grammars from given sources. -/
def participant (x : Sources) : Participant where
  complete := complete x
  hover := hover x
  typeDefine := typeDefine x
  diagnose := diagnose x
  fix d problem _ cancel := fix d problem cancel

end XmlAssist.Participant.FromGrammar
