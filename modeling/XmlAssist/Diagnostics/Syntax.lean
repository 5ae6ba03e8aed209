import XmlAssist.Editor.Diagnostic
import XmlAssist.Markup.Lexer.Stream
import XmlAssist.Tree.Element

/-!
# Problems of the syntax

What is broken about a document whatever its grammar: faults of tokens, tags without a counterpart,
and attributes that occur twice or lack their `=` or their quotes. Each kind of problem has a code,
by which fixes recognise it.
-/

namespace XmlAssist

namespace Document

/-- The lexer at the start of a document. -/
def lexer (d : Document) : Lexer := if d.isDtd then .declarations else .document

/-- The name in a start tag, or the `<` of one without a name. -/
def startTagSpan (d : Document) (id : Nat) (e : Element) : Span :=
  e.tagSpan.getD ⟨(d.span id).start, (d.span id).start + 1⟩

/-- The range for what concerns a whole document: the name in the start tag of its root. -/
def rootRange (d : Document) : Range :=
  match d.root? with
  | some root =>
    match (d.element? root).map (d.startTagSpan root) with
    | some span => ((d.rangeOf span).toOption).getD {}
    | none => {}
  | none => {}

end Document

namespace Diagnostics

/-- The code for an element without an end tag. -/
def unclosedCode : String := "ETagRequired"

/-- The code for an end tag without a start tag. -/
def unmatchedCode : String := "ETagUnmatched"

/-- The code for an attribute that occurs twice. -/
def duplicateCode : String := "AttributeNotUnique"

/-- The code for an attribute without `=`. -/
def missingEqualsCode : String := "EqRequiredInAttribute"

/-- The code for a value without quotes. -/
def missingQuoteCode : String := "OpenQuoteExpected"

/-- The code for a document type where none is allowed. -/
def doctypeCode : String := "DoctypeNotAllowed"

/-- The faults of the tokens. -/
def ofTokens (d : Document) : List Diagnostic :=
  (d.lexer.tokens d.text).flatMap fun (t, _) =>
    match t.fault with
    | some fault => Diagnostic.errorAt d.rangeOf t.span fault.code fault.message
    | none => []

/-- The document type, if the settings allow none. -/
def ofDoctype (d : Document) (settings : Settings) : List Diagnostic :=
  if settings.validation.disallowDoctype && !d.isDtd then
    match d.doctype? with
    | some id => Diagnostic.errorAt d.rangeOf (d.span id) doctypeCode
        "DOCTYPE is disallowed when the feature \"http://apache.org/xml/features/disallow-doctype-decl\" set to true."
    | none => []
  else []

/-- That an attribute occurs a second time, with the place of the first. -/
def duplicate (d : Document) (tag : String) (a first : Attribute) : List Diagnostic :=
  match d.rangeOf a.nameSpan with
  | .error _ => []
  | .ok range =>
    [{ range, severity := .error, code := some duplicateCode,
       message := "Attribute \"" ++ a.name ++ "\" was already specified for element \"" ++ tag ++ "\"."
       related := match d.rangeOf first.nameSpan with
        | .ok range => [⟨⟨d.uri, range⟩, "First \"" ++ a.name ++ "\" attribute"⟩]
        | .error _ => [] }]

/-- That an attribute lacks its `=` or the quotes of its value. -/
def incomplete (d : Document) (tag : String) (id : Nat) (a : Attribute) : List Diagnostic :=
  if !a.hasDelimiter then
    Diagnostic.errorAt d.rangeOf a.nameSpan missingEqualsCode
      ("Attribute name \"" ++ a.name ++ "\" associated with an element type \"" ++ tag ++
        "\" must be followed by the ' = ' character.")
  else if !a.isQuoted then
    Diagnostic.errorAt d.rangeOf (a.valueSpan.getD (d.span id)) missingQuoteCode
      ("Open quote is expected for attribute \"" ++ a.name ++ "\" associated with an element type \"" ++
        tag ++ "\".")
  else []

/-- The problems of attributes, after those of `seen`, of which the first with a name counts. -/
def ofAttributes (d : Document) (tag : String) (seen : List Attribute) : List (Nat × Attribute) → List Diagnostic
  | [] => []
  | (id, a) :: rest =>
    let repeated := match seen.find? (·.name == a.name) with
      | some first => duplicate d tag a first
      | none => []
    repeated ++ incomplete d tag id a ++ ofAttributes d tag (seen ++ [a]) rest

/-- The problems of an element: its tags and its attributes. -/
def ofElement (d : Document) (id : Nat) (e : Element) : List Diagnostic :=
  match e.tag with
  | none => []
  | some tag =>
    if e.hasStartTag then
      let unclosed := if !e.selfClosed && !e.hasEndTag then
          Diagnostic.errorAt d.rangeOf (d.startTagSpan id e) unclosedCode
            ("The element type \"" ++ tag ++ "\" must be terminated by the matching end-tag \"</" ++ tag ++ ">\".")
        else []
      unclosed ++ ofAttributes d tag [] (d.attributes id)
    else match e.endTagSpan with
      | some span => Diagnostic.errorAt d.rangeOf span unmatchedCode
          ("The end-tag \"</" ++ tag ++ ">\" does not match any start-tag.")
      | none => []

/-- The problems of all elements. -/
def ofElements (d : Document) : List Diagnostic :=
  d.elements.flatMap fun id =>
    match d.element? id with
    | some e => ofElement d id e
    | none => []

/-- All problems of the syntax. -/
def ofSyntax (d : Document) (settings : Settings) : List Diagnostic :=
  ofTokens d ++ ofDoctype d settings ++ ofElements d

end Diagnostics

end XmlAssist
