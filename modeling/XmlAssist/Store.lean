import XmlAssist.Tree.Document

/-!
# Open documents

The documents that a client has open, each with the version that it gave. A change with an older
version than the one at hand is ignored.
-/

namespace XmlAssist

/-- An open document. -/
structure Store.Entry where
  version : Int
  document : Document
deriving Repr, Inhabited

/-- The open documents by their address. -/
structure Store where
  entries : List (String × Store.Entry) := []
deriving Repr, Inhabited

namespace Store

/-- The entry of a document. -/
def entry? (s : Store) (uri : String) : Option Entry := s.entries.lookup uri

/-- An open document. -/
def get? (s : Store) (uri : String) : Option Document := (s.entry? uri).map (·.document)

/-- The version of an open document. -/
def version? (s : Store) (uri : String) : Option Int := (s.entry? uri).map (·.version)

/-- The document is open. -/
def contains (s : Store) (uri : String) : Bool := (s.entry? uri).isSome

/-- The number of open documents. -/
def size (s : Store) : Nat := s.entries.length

/-- The addresses of the open documents in order. -/
def uris (s : Store) : List String := (s.entries.map (·.1)).mergeSort fun a b => decide (a ≤ b)

/-- Opens a document, or replaces the one that is open. -/
def insert (s : Store) (uri text : String) (version : Int) : Store :=
  { entries := (uri, { version, document := .parse text uri }) :: s.entries.filter (·.1 != uri) }

/-- Replaces the text of an open document, unless the version is older than the one at hand. -/
def change (s : Store) (uri text : String) (version : Int) : Option Store :=
  match s.entry? uri with
  | none => none
  | some e =>
    if version < e.version then none
    else
      some { entries := s.entries.map fun (key, old) =>
        if key == uri then (key, { version, document := .parse text uri }) else (key, old) }

/-- Closes a document. -/
def erase (s : Store) (uri : String) : Store := { entries := s.entries.filter (·.1 != uri) }

end Store

end XmlAssist
