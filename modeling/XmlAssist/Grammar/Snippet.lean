import XmlAssist.Grammar

/-!
# Texts made from declarations

The documentation of a declaration, and the snippets that insert attributes and elements. In a
snippet a dollar sign marks a place for the cursor, `$0` the last one.
-/

namespace XmlAssist.Grammar

/-- The part of an address behind its last slash or backslash. -/
def fileName (uri : String) : String :=
  String.ofList (uri.toList.reverse.takeWhile fun c => c != '/' && c != '\\').reverse

/-- The documentation of a declaration, followed by a line that names its grammar. -/
def documentation (text source : Option String) (markdown : Bool) : Option String :=
  let text := text.getD ""
  let shown := match source with
    | none => text
    | some uri =>
      let gap := if text = "" then "" else "\n\n"
      let name := fileName uri
      text ++ gap ++ (if markdown then "Source: [" ++ name ++ "](" ++ uri ++ ")" else "Source: " ++ name)
  if shown = "" then none else some shown

/-- The place number `index` of a snippet, for a value: a choice, a default or nothing yet. -/
def valuePlace (default : Option String) (values : List String) (index : Nat) : String :=
  if !values.isEmpty then "$\x7b" ++ toString index ++ "|" ++ ",".intercalate values ++ "|\x7d"
  else match default with
    | some value => "$\x7b" ++ toString index ++ ":" ++ value ++ "\x7d"
    | none => "$" ++ toString index

/-- The snippet of an attribute's value; with quotes, as it follows the name of the attribute. -/
def attributeValue (default : Option String) (values : List String) (quoted : Bool) : String :=
  let value := valuePlace default values 1
  if quoted then "=\"" ++ value ++ "\"$0" else value

/-- The name of an element under a prefix. -/
def Element.nameUnder (e : Element) : Option String → String
  | some p => p ++ ":" ++ e.localName
  | none => e.name

/-- The snippet that inserts an element with its required attributes behind `<`. -/
def Element.snippet (e : Element) (pre : Option String) (autoClose : Bool) : String :=
  let name := e.nameUnder pre
  let required := e.attributes.filter (·.required)
  let attributes := required.zipIdx.map fun (a, i) =>
    " " ++ a.name ++ "=\"" ++ valuePlace a.default a.values (i + 1) ++ "\""
  let start := name ++ String.join attributes
  if !autoClose then start ++ ">$0"
  else if e.isEmpty then start ++ " />$0"
  else start ++ ">$" ++ toString (required.length + 1) ++ "</" ++ name ++ ">$0"

end XmlAssist.Grammar
