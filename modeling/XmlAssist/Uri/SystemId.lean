import XmlAssist.Library
import XmlAssist.Text.Blank

/-!
# System identifiers

The address that a system identifier names in a document: a URI relative to that of the document,
or a path with a drive letter.
-/

namespace XmlAssist.Uri

/-- The text is a path from the root of a drive. -/
def isDrivePath : List Char → Bool
  | c :: ':' :: d :: _ => c.isAlpha && (d == '/' || d == '\\')
  | _ => false

/-- The address that a system identifier names in the document at `base`. -/
def resolve? [Library] (base systemId : String) : Option String :=
  let id := Text.trim systemId
  let resolved :=
    if isDrivePath id.toList then
      Library.url? ("file:///" ++ String.ofList (id.toList.map fun c => if c == '\\' then '/' else c))
    else
      match Library.url? base with
      | some b => Library.join? b id
      | none => Library.url? id
  resolved.map Library.render

end XmlAssist.Uri
