import XmlAssist.Cancel
import XmlAssist.Editor.Symbol
import XmlAssist.Settings
import XmlAssist.Tree.Document

/-!
# Outlines

The outline of a document has an entry for each element, instruction, document type and
declaration, nested as they are. In a file of declarations they stand at the top.
-/

namespace XmlAssist.Outline

/-- The range of a part of a node, or that of the whole node. -/
def selection (d : Document) (whole : Range) (part : Option Span) : Range :=
  match part with
  | some span => ((d.rangeOf span).toOption).getD whole
  | none => whole

/-- The entries of a declaration: one for its name, of an attribute list one for each attribute. -/
def declarationSymbols (d : Document) (whole : Range) (declaration : Declaration) : List Symbol :=
  let named (kind : Symbol.Kind) (detail : Option String) (name : Option Parameter) : List Symbol :=
    name.toList.map fun p => .mk p.text detail kind whole (selection d whole (some p.span)) []
  match declaration.body with
  | .element b => named .elementDecl none b.name
  | .attlist b =>
    b.definitions.flatMap fun definition =>
      named .attributeDecl (b.element.map (·.text)) definition.name
  | .entity b => named .entityDecl none b.name
  | .notationDecl b => named .entityDecl none b.name

/-- The entries of a node, given those of its children. -/
def nodeSymbols (d : Document) (id : Nat) (whole : Range) (children : List Symbol) : List Symbol :=
  match (d.node id).kind with
  | .element e =>
    let kind := if (d.childElements id).isEmpty then Symbol.Kind.leaf else .branch
    [.mk (e.tag.getD "?") none kind whole (selection d whole e.tagSpan) children]
  | .instruction i =>
    [.mk (i.target.getD "?") none .instruction whole (selection d whole i.targetSpan) []]
  | .doctype t =>
    if t.synthetic then children
    else
      [.mk ("DOCTYPE:" ++ (t.name.map (·.text)).getD "") none .doctype whole
        (selection d whole (t.name.map (·.span))) children]
  | .declaration declaration => declarationSymbols d whole declaration
  | _ => []

/-- The nodes of this kind have entries inside. -/
def hasEntries (kind : Node.Kind) : Bool :=
  match kind with
  | .element _ | .doctype _ => true
  | _ => false

mutual

/-- The entries of nodes in order, asking before each whether to go on. -/
def listSymbols (d : Document) (parent : Nat) (cancel : Cancel) : List Nat → List Symbol × Cancel
  | [] => ([], cancel)
  | id :: rest =>
    let (stop, cancel) := cancel.poll
    if stop then ([], cancel)
    else if _h : parent < id ∧ id < d.nodes.size then
      let (mine, cancel) := symbolsOf d id cancel
      let (others, cancel) := listSymbols d parent cancel rest
      (mine ++ others, cancel)
    else listSymbols d parent cancel rest
termination_by ids => (d.nodes.size - parent, ids.length)

/-- The entries of a node. -/
def symbolsOf (d : Document) (id : Nat) (cancel : Cancel) : List Symbol × Cancel :=
  match d.rangeOf (d.span id) with
  | .error _ => ([], cancel)
  | .ok whole =>
    if hasEntries (d.node id).kind then
      let (children, cancel) := listSymbols d id cancel (d.children id)
      (nodeSymbols d id whole children, cancel)
    else (nodeSymbols d id whole [], cancel)
termination_by (d.nodes.size - id, (d.children id).length + 1)

end

variable [Library]

/-- The outline of a document. -/
def symbols (d : Document) (settings : Settings) (cancel : Cancel) : List Symbol :=
  if !settings.symbols.enabled || settings.symbols.excludes d.uri then []
  else (listSymbols d 0 cancel (d.children 0)).1

/-- The outline as a list. -/
def informations (d : Document) (settings : Settings) (cancel : Cancel) : List SymbolInformation :=
  Symbol.flattenList d.uri none (symbols d settings cancel)

end XmlAssist.Outline
