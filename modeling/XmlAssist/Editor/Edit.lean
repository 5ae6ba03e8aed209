import XmlAssist.Editor.Diagnostic

/-!
# Edits, actions and lenses

What a client can apply to its documents or run on request.
-/

namespace XmlAssist

/-- The replacement of a range by a text. -/
structure TextEdit where
  range : Range
  newText : String
deriving DecidableEq, Repr, Inhabited

/-- An edit as a value. -/
def TextEdit.toJson (x : TextEdit) : Json :=
  .mkObj [("range", x.range.toJson), ("newText", .str x.newText)]

/-- Edits of one document; without edits, of none. -/
structure WorkspaceEdit where
  uri : String
  edits : List TextEdit
deriving DecidableEq, Repr, Inhabited

/-- Edits as a value, by the address of the document. -/
def WorkspaceEdit.toJson (x : WorkspaceEdit) : Json :=
  .mkObj [("changes", if x.edits.isEmpty then .mkObj []
    else .mkObj [(x.uri, .arr (x.edits.map TextEdit.toJson))])]

/-- A command that the client runs. -/
structure Command where
  title : String
  command : String
  arguments : List Json := []
deriving Repr, Inhabited

/-- A command as a value. -/
def Command.toJson (x : Command) : Json :=
  .mkObjSome [
    ("title", some (.str x.title)),
    ("command", some (.str x.command)),
    ("arguments", if x.arguments.isEmpty then none else some (.arr x.arguments))]

/-- A command shown above a range. -/
structure CodeLens where
  range : Range
  command : Option Command := none
deriving Repr, Inhabited

/-- A lens as a value. -/
def CodeLens.toJson (x : CodeLens) : Json :=
  .mkObjSome [("range", some x.range.toJson), ("command", x.command.map Command.toJson)]

/-- An edit that mends a problem. -/
structure CodeAction where
  title : String
  diagnostic : Diagnostic
  edit : WorkspaceEdit
deriving DecidableEq, Repr, Inhabited

namespace CodeAction

/-- The replacement of a range as a fix for a diagnostic. -/
def quickFix (title : String) (diagnostic : Diagnostic) (uri : String) (range : Range) (newText : String) :
    CodeAction :=
  { title, diagnostic, edit := { uri, edits := [{ range, newText }] } }

/-- An action as a value. -/
def toJson (x : CodeAction) : Json :=
  .mkObj [
    ("title", .str x.title),
    ("kind", .str "quickfix"),
    ("diagnostics", .arr [x.diagnostic.toJson]),
    ("edit", x.edit.toJson)]

end CodeAction

end XmlAssist
