/-!
# Files

Where the command line takes its files from: anything that finds and reads them, such as a tree of
files in memory.
-/

namespace XmlAssist.Command

/-- A way to files. -/
structure Files (m : Type → Type) where
  /-- The absolute path that a path leads to, if something is there. -/
  resolve : String → m (Option String)
  /-- The text of the file that a path leads to. -/
  read : String → m (Option String)

/-- Files in memory below a directory, from which paths start. -/
structure MemoryFiles where
  /-- The names from the root down to the directory. -/
  directory : List String
  /-- Files by the names from the root down to them. -/
  files : List (List String × String)
deriving Repr, Inhabited

namespace MemoryFiles

/-- Files by their paths below a directory. -/
def ofTexts (directory : List String) (texts : List (String × String)) : MemoryFiles :=
  { directory
    files := texts.map fun (path, text) => (directory ++ (path.splitOn "/").filter (· ≠ ""), text) }

/-- A directory is at a place: the one that paths start from, one above it, or one above a file. -/
def isDirectory (x : MemoryFiles) (names : List String) : Bool :=
  names.isPrefixOf x.directory ||
    x.files.any fun (file, _) => names.isPrefixOf file && names.length < file.length

/-- The text of the file at a place. -/
def file? (x : MemoryFiles) (names : List String) : Option String := x.files.lookup names

/-- Follows the names of a path from a place. Every name but the last has to lead to a directory. -/
def walk (x : MemoryFiles) (here : List String) : List String → Option (List String)
  | [] => some here
  | name :: rest =>
    if !x.isDirectory here then none
    else if name = "" ∨ name = "." then x.walk here rest
    else if name = ".." then x.walk here.dropLast rest
    else
      let next := here ++ [name]
      if x.isDirectory next || (x.file? next).isSome then x.walk next rest else none

/-- The place that a path leads to. -/
def place? (x : MemoryFiles) (path : String) : Option (List String) :=
  if path = "" then none
  else x.walk (if path.startsWith '/' then [] else x.directory) (path.splitOn "/")

/-- The files in memory as a way to files. -/
def toFiles (x : MemoryFiles) : Files Id where
  resolve path := (x.place? path).map fun names => "/" ++ "/".intercalate names
  read path := (x.place? path).bind x.file?

end MemoryFiles

end XmlAssist.Command
