import XmlAssist.Uri

/-!
# Addresses of files

The URI of a file with an absolute path, and the path of a file with a URI.
-/

namespace XmlAssist.Uri

/-- The characters that a name in a path may not hold when it becomes a segment. -/
def nameSet (c : Char) : Bool := pathSet c || c == '/' || c == '%' || c == '\\'

/-- The names in a path. -/
def pathNames (path : String) : List String := (path.splitOn "/").filter (· ≠ "")

/-- The URI of the file at an absolute path. -/
def ofFilePath (path : String) : Uri where
  scheme := "file".toList
  authority := some {}
  path := .segments (match pathNames path with
    | [] => [[]]
    | names => names.map fun name => encode nameSet name.toList)

/-- The absolute path of the file of this machine that a URI of files names. -/
def filePath? (u : Uri) : Option String := do
  match u.authority.map (·.host), u.path with
  | some (_ :: _), _ => none
  | _, .verbatim _ => none
  | _, .segments parts =>
    let path ← decode? (parts.flatMap ('/' :: ·))
    match path.toList.reverse with
    | mark :: letter :: _ :: _ =>
      if letter.isAlpha && (mark == ':' || mark == '|') then return path ++ "/" else return path
    | _ => return path

end XmlAssist.Uri
