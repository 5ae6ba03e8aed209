import XmlAssist.Cancel
import XmlAssist.Diagnostics.Syntax
import XmlAssist.Editor.Symbol

/-!
# Folds

Ranges of lines that can be folded: elements, comments, CDATA sections, instructions, the brackets
of a document type, and regions between comments that start with `#region` and `#endregion`. They
are found in one pass over the tokens.
-/

namespace XmlAssist.Folding

/-- An element or a region that is still open. -/
structure Opened where
  startLine : Nat
  /-- The tag; none for a region. -/
  tag : Option String
deriving DecidableEq, Repr, Inhabited

/-- What the tokens so far have shown. -/
structure State where
  /-- The folds, the last one first. -/
  ranges : List FoldingRange := []
  /-- The innermost first. -/
  opened : List Opened := []
  /-- The tag read last. -/
  lastTag : Option String := none
  /-- The line at which the last fold of an element starts. -/
  lastStart : Option Nat := none
  /-- Where the markup started that ends with the next closing delimiter. -/
  markupStart : Nat := 0
deriving Repr, Inhabited

/-- The line of an offset; of one that is no place of the text, the first. -/
def lineAt (d : Document) (offset : Nat) : Nat :=
  match d.positionAt offset with
  | .ok p => p.line
  | .error _ => 0

/-- The last line folded, for a closing delimiter at an offset: its line, or the one before. -/
def closingLine (d : Document) (settings : Settings.Foldings) (offset : Nat) : Nat :=
  if settings.includeClosingTag then lineAt d offset else lineAt d offset - 1

/-- Adds a fold of more than one line. -/
def State.fold (x : State) (startLine endLine : Nat) (kind : Option FoldingRange.Kind) : State :=
  if startLine < endLine then { x with ranges := { startLine, endLine, kind } :: x.ranges } else x

/-- Closes the innermost element with the tag read last, and all inside it. Of the elements that
start on one line in a row only the first closed is folded. -/
def State.closeElement (x : State) (endLine : Nat) : State :=
  match x.lastTag with
  | none => x
  | some tag =>
    match x.opened.dropWhile (·.tag != some tag) with
    | [] => x
    | o :: outer =>
      let x := { x with opened := outer }
      if o.startLine < endLine ∧ x.lastStart ≠ some o.startLine then
        { x with ranges := { startLine := o.startLine, endLine } :: x.ranges, lastStart := some o.startLine }
      else x

/-- Closes the innermost region, and all inside it. -/
def State.closeRegion (x : State) (endLine : Nat) : State :=
  match x.opened.dropWhile (·.tag.isSome) with
  | [] => x
  | o :: outer => ({ x with opened := outer } : State).fold o.startLine endLine (some .region)

/-- A comment: the start or the end of a region, or a fold of its own. -/
def State.comment (x : State) (d : Document) (t : Token) : State :=
  let startLine := lineAt d x.markupStart
  let text := (d.slice t.span).toList.dropWhile Text.isBlank
  if "#region".toList.isPrefixOf text then { x with opened := ⟨startLine, none⟩ :: x.opened }
  else if "#endregion".toList.isPrefixOf text then x.closeRegion startLine
  else x.fold startLine (lineAt d t.stop) (some .comment)

/-- What the next token shows. -/
def State.step (d : Document) (settings : Settings.Foldings) (x : State) (t : Token) : State :=
  match t.kind with
  | .startTagName =>
    let tag := d.slice t.span
    { x with opened := ⟨lineAt d t.start, some tag⟩ :: x.opened, lastTag := some tag }
  | .endTagName => { x with lastTag := some (d.slice t.span) }
  | .startTagSelfClose => x.closeElement (lineAt d t.start)
  | .endTagClose => x.closeElement (closingLine d settings t.start)
  | .commentOpen | .cdataOpen | .instructionOpen | .dtd .subsetOpen => { x with markupStart := t.start }
  | .commentText => x.comment d t
  | .cdataClose | .instructionClose | .prologClose => x.fold (lineAt d x.markupStart) (lineAt d t.stop) none
  | .dtd .subsetClose => x.fold (lineAt d x.markupStart) (closingLine d settings t.start) none
  | _ => x

/-- What the tokens show, asking before each whether to go on. -/
def run (d : Document) (settings : Settings.Foldings) (x : State) (cancel : Cancel) :
    List (Token × Lexer) → State
  | [] => x
  | (t, _) :: rest =>
    let (stop, cancel) := cancel.poll
    if stop then x else run d settings (x.step d settings t) cancel rest

/-- The order of folds: by the first line, then by the last. -/
def before (a b : FoldingRange) : Bool :=
  decide (a.startLine < b.startLine) || (a.startLine == b.startLine && decide (a.endLine ≤ b.endLine))

/-- The folds of a document. -/
def ranges (d : Document) (settings : Settings) (cancel : Cancel) : List FoldingRange :=
  ((run d settings.foldings {} cancel (d.lexer.tokens d.text)).ranges.reverse).mergeSort before

end XmlAssist.Folding
