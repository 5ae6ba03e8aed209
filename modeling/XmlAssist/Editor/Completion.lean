import XmlAssist.Editor.Edit

/-!
# Proposals and documentation

The items of a completion, the texts of hovers, and the documentation that both carry.
-/

namespace XmlAssist

/-- A text in a given form. -/
structure MarkupContent where
  kind : MarkupKind
  value : String
deriving DecidableEq, Repr, Inhabited

/-- A text as a value. -/
def MarkupContent.toJson (x : MarkupContent) : Json :=
  .mkObj [("kind", .str x.kind.label), ("value", .str x.value)]

/-- What is shown for the place under the cursor. -/
structure Hover where
  contents : MarkupContent
  range : Option Range := none
deriving DecidableEq, Repr, Inhabited

/-- A hover as a value. -/
def Hover.toJson (x : Hover) : Json :=
  .mkObjSome [("contents", some x.contents.toJson), ("range", x.range.map Range.toJson)]

namespace Completion

/-- What an item stands for. -/
inductive Item.Kind where
  | property
  | value
deriving DecidableEq, Repr, Inhabited

/-- The name of a kind of item. -/
def Item.Kind.label : Item.Kind → String
  | .property => "property"
  | .value => "value"

/-- A proposal. -/
structure Item where
  label : String
  kind : Item.Kind
  detail : Option String := none
  documentation : Option MarkupContent := none
  /-- What the typed text is compared with, if not the label. -/
  filterText : Option String := none
  sortText : Option String := none
  /-- The text of the edit has places for the cursor. -/
  isSnippet : Bool := false
  edit : Option TextEdit := none
deriving DecidableEq, Repr, Inhabited

/-- The text that accepting an item inserts. -/
def Item.insertText (x : Item) : String := (x.edit.map (·.newText)).getD x.label

/-- An item as a value. -/
def Item.toJson (x : Item) : Json :=
  .mkObjSome [
    ("label", some (.str x.label)),
    ("kind", some (.str x.kind.label)),
    ("detail", x.detail.map .str),
    ("documentation", x.documentation.map MarkupContent.toJson),
    ("filterText", x.filterText.map .str),
    ("sortText", x.sortText.map .str),
    ("insertTextFormat", some (.str (if x.isSnippet then "snippet" else "plaintext"))),
    ("textEdit", x.edit.map TextEdit.toJson)]

end Completion

/-- The proposals at a place. -/
structure CompletionList where
  /-- Not all were asked who could propose something. -/
  isIncomplete : Bool := false
  items : List Completion.Item := []
deriving DecidableEq, Repr, Inhabited

/-- Proposals as a value. -/
def CompletionList.toJson (x : CompletionList) : Json :=
  .mkObj [("isIncomplete", .bool x.isIncomplete), ("items", .arr (x.items.map Completion.Item.toJson))]

end XmlAssist
