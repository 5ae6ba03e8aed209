import XmlAssist.Markup.Lexer.Stream
import XmlAssist.Tree.Element

/-!
# Names of tags

The name of a tag at a place, once by reading the markup again and once from the tree.
-/

namespace XmlAssist

namespace Lexer

/-- The span of the first token of a kind that a cursor at `offset` is in or right behind, where
the markup is read again from `start` on. Tokens that end before the cursor are passed over, and so
is one of another kind that ends at it. -/
def spanReaching? (s : String) (kind : Token.Kind) (start offset : Nat) : Option Span :=
  match ((restart s start .content).run s).find? fun (t, _) =>
      t.kind == .eos || !(decide (t.stop < offset) || (t.stop == offset && t.kind != kind)) with
  | some (t, _) => if t.kind = kind ∧ offset ≤ t.stop then some t.span else none
  | none => none

/-- The first token from `offset` on that is not white space is of a kind. -/
def isFollowedBy (s : String) (offset : Nat) (mode : Mode) (kind : Token.Kind) : Bool :=
  match ((restart s offset mode).run s).find? fun (t, _) => t.kind != .blank with
  | some (t, _) => t.kind == kind
  | none => false

end Lexer

namespace Document

/-- The name of a tag. -/
structure TagName where
  element : Nat
  span : Span
  /-- The name is in the start tag. -/
  inStartTag : Bool
deriving DecidableEq, Repr, Inhabited

/-- The element that contains `offset`, or else the one right before it. -/
def elementNear? (d : Document) (offset : Nat) : Option Nat :=
  let isElement (id : Nat) : Bool := (d.node id).isElement
  if isElement (d.nodeAt offset) then some (d.nodeAt offset)
  else if 0 < offset ∧ isElement (d.nodeAt (offset - 1)) then some (d.nodeAt (offset - 1))
  else none

/-- The name of a tag that the cursor at `offset` is in or right behind. -/
def tagNameAt? (d : Document) (offset : Nat) : Option TagName := do
  let id ← d.elementNear? offset
  let e ← d.element? id
  match e.tagSpan.filter (·.touches offset), e.endTagSpan.filter (·.touches offset) with
  | some span, _ => return ⟨id, span, true⟩
  | none, some span => return ⟨id, span, false⟩
  | none, none => none

end Document

end XmlAssist
