import XmlAssist.Markup.Lexer.Stream
import XmlAssist.Tree.Node

/-!
# From tokens to nodes

The builder takes the tokens of a text in one pass. `current` is the innermost open node: elements,
comments, CDATA sections, instructions, the document type and its declarations are opened by their
first token and closed by their last one, or by what follows:

* an end tag closes the nearest open element of its name, and ends all that was opened behind it at
  its `</`;
* an end tag without such an element becomes an element of its own with only that tag;
* a start tag without `>` stays open, so that the next element is its child;
* at the end of the text all that is open ends there.
-/

namespace XmlAssist

/-- The node and those around it, from the inside to the outside. A parent has a smaller number than
its children. -/
def Node.chain (nodes : Array Node) (id : Nat) : List Nat :=
  match nodes[id]?.bind (·.parent) with
  | some parent => if parent < id then id :: Node.chain nodes parent else [id]
  | none => [id]
termination_by id

/-- The nodes so far and the constructs that are still open. -/
structure Builder where
  nodes : Array Node
  current : Nat := 0
  doctype : Option Nat := none
  declaration : Option Nat := none
  openAttribute : Option Nat := none
  /-- The offset of a `</` whose name has not been read. -/
  endTagOpen : Option Nat := none
  /-- The offset at which the content model of the open declaration starts. -/
  contentStart : Option Nat := none
deriving Repr, Inhabited

namespace Builder

/-- The kind of a node. -/
def kindOf (b : Builder) (id : Nat) : Node.Kind := ((b.nodes[id]?).map (·.kind)).getD .document

/-- The number of the node around a node. -/
def parentOf (b : Builder) (id : Nat) : Nat := ((b.nodes[id]?).bind (·.parent)).getD 0

/-- The node changed by `f`. -/
def modify (b : Builder) (id : Nat) (f : Node → Node) : Builder :=
  { b with nodes := b.nodes.modify id f }

/-- The node with another kind, reaching at least `stop`. -/
def update (b : Builder) (id : Nat) (kind : Node.Kind) (stop : Nat) : Builder :=
  b.modify id fun n => { n with kind, span := n.span.extendTo stop }

/-- The node, reaching at least `stop`. -/
def extend (b : Builder) (id : Nat) (stop : Nat) : Builder :=
  b.modify id fun n => { n with span := n.span.extendTo stop }

/-- A new child of the current node. -/
def append (b : Builder) (kind : Node.Kind) (span : Span) : Builder :=
  let id := b.nodes.size
  let b := b.modify b.current fun n => { n with children := n.children.push id }
  { b with nodes := b.nodes.push { span, parent := some b.current, kind } }

/-- A new child of the current node, which becomes the current one. -/
def openNode (b : Builder) (kind : Node.Kind) (span : Span) : Builder :=
  let b := b.append kind span
  { b with current := b.nodes.size - 1 }

/-- Back to the node around the current one. -/
def leave (b : Builder) : Builder := { b with current := b.parentOf b.current }

/-- Leaves an element whose end tag was seen but not closed by `>`. -/
def leaveClosedElement (b : Builder) : Builder :=
  match b.kindOf b.current with
  | .element e => if e.closed then b.leave else b
  | _ => b

/-- Ends the open declaration. -/
def leaveDeclaration (b : Builder) : Builder :=
  match b.declaration with
  | some id => { b with declaration := none, current := b.parentOf id }
  | none => b

/-- Ends the open document type at `stop`. -/
def leaveDoctype (b : Builder) (stop : Nat) : Builder :=
  let b := b.leaveDeclaration
  match b.doctype with
  | some id => { b.extend id stop with doctype := none, current := b.parentOf id }
  | none => b

/-- Keeps a `</` without a name as an element of its own, with the offset of its `>` if it has
one. -/
def flushEndTag (b : Builder) (stop : Nat) (close : Option Nat) : Builder :=
  match b.endTagOpen with
  | some start =>
    { b with endTagOpen := none }.append
      (.element { endOpen := some start, endClose := close, closed := close.isSome }) ⟨start, stop⟩
  | none => b

/-- What every token does that starts new markup or text at `start`. -/
def beforeMarkup (b : Builder) (start : Nat) (inDtd : Bool) : Builder :=
  let b := { b with openAttribute := none }.flushEndTag start none
  let b := b.leaveDeclaration
  let b := if b.doctype.isSome && !inDtd then b.leaveDoctype start else b
  b.leaveClosedElement

/-- The parameter under a token. -/
def parameter (s : String) (t : Token) : Parameter := ⟨t.span, Text.slice s t.start t.stop⟩

/-- The name of an end tag: closes the nearest open element of that name. -/
def endTag (s : String) (b : Builder) (t : Token) : Builder :=
  let name := Text.slice s t.start t.stop
  let start := b.endTagOpen.getD (t.start - 2)
  let b := { b with endTagOpen := none }
  let isOpen (id : Nat) : Bool :=
    match b.kindOf id with
    | .element e => !e.closed && e.tag == some name
    | _ => false
  let chain := Node.chain b.nodes b.current
  match chain.find? isOpen with
  | some id =>
    let b := (chain.takeWhile (!isOpen ·)).foldl (fun b inner => b.extend inner start) b
    match b.kindOf id with
    | .element e =>
      { b.update id
          (.element { e with closed := true, endOpen := some start, endTagSpan := some t.span }) t.stop
        with current := id }
    | _ => b
  | none =>
    b.openNode (.element { tag := some name, endOpen := some start, endTagSpan := some t.span, closed := true })
      ⟨start, t.stop⟩

/-- The kind of a node with the attribute number `id` behind those it has: elements and the XML
declaration have attributes. -/
def withAttribute (id : Nat) : Node.Kind → Option Node.Kind
  | .element e => some (.element { e with attributes := e.attributes.push id })
  | .instruction i =>
    if i.isProlog then some (.instruction { i with attributes := i.attributes.push id }) else none
  | _ => none

/-- The name of an attribute. -/
def attributeName (s : String) (b : Builder) (t : Token) : Builder :=
  let id := b.nodes.size
  match withAttribute id (b.kindOf b.current) with
  | some kind =>
    let a : Attribute := { name := Text.slice s t.start t.stop, nameSpan := t.span }
    let b := b.update b.current kind t.stop
    { b with
      nodes := b.nodes.push { span := t.span, parent := some b.current, kind := .attribute a }
      openAttribute := some id }
  | none => b

/-- The `=` of an attribute. -/
def assign (b : Builder) (t : Token) : Builder :=
  let b := match b.openAttribute with
    | some id =>
      match b.kindOf id with
      | .attribute a => b.modify id fun n => { n with kind := .attribute { a with hasDelimiter := true } }
      | _ => b
    | none => b
  b.extend b.current t.stop

/-- The value of an attribute. -/
def attributeValue (s : String) (b : Builder) (t : Token) : Builder :=
  let b := match b.openAttribute with
    | some id =>
      let b := { b with openAttribute := none }
      match b.kindOf id with
      | .attribute a => b.update id (.attribute (a.withValue (Text.slice s t.start t.stop) t.span)) t.stop
      | _ => b.extend id t.stop
    | none => b
  b.extend b.current t.stop

/-- A token of a tag. -/
def tagToken (s : String) (b : Builder) (t : Token) (inDtd : Bool) : Builder :=
  match t.kind, b.kindOf b.current with
  | .startTagOpen, _ =>
    (b.beforeMarkup t.start inDtd).openNode (.element { startOpen := some t.start }) t.span
  | .startTagName, .element e =>
    b.update b.current
      (.element { e with tag := some (Text.slice s t.start t.stop), tagSpan := some t.span }) t.stop
  | .startTagClose, .element e =>
    { b with openAttribute := none }.update b.current (.element { e with startClose := some t.start }) t.stop
  | .startTagSelfClose, .element e =>
    ({ b with openAttribute := none }.update b.current
      (.element { e with startClose := some t.start, selfClosed := true, closed := true }) t.stop).leave
  | .startTagClose, _ | .startTagSelfClose, _ => { b with openAttribute := none }
  | .endTagOpen, _ => { b.beforeMarkup t.start inDtd with endTagOpen := some t.start }
  | .endTagName, _ => endTag s b t
  | .endTagClose, kind =>
    if b.endTagOpen.isSome then b.flushEndTag t.stop (some t.start)
    else match kind with
      | .element e =>
        if e.closed && e.endOpen.isSome then
          (b.update b.current (.element { e with endClose := some t.start }) t.stop).leave
        else b
      | _ => b
  | .unknown, .element e =>
    if e.startClose.isNone && e.endOpen.isNone then b.extend b.current t.stop else b
  | _, _ => b

/-- A token of a comment, a CDATA section or an instruction. -/
def sectionToken (s : String) (b : Builder) (t : Token) (inDtd : Bool) : Builder :=
  match t.kind, b.kindOf b.current with
  | .commentOpen, _ => (b.beforeMarkup t.start inDtd).openNode (.comment {}) t.span
  | .cdataOpen, _ => (b.beforeMarkup t.start inDtd).openNode (.cdata {}) t.span
  | .commentText, .comment c | .cdataText, .comment c =>
    b.update b.current (.comment { c with content := some t.span }) t.stop
  | .commentText, .cdata c | .cdataText, .cdata c =>
    b.update b.current (.cdata { c with content := some t.span }) t.stop
  | .commentClose, .comment c | .cdataClose, .comment c =>
    (b.update b.current (.comment { c with closed := true }) t.stop).leave
  | .commentClose, .cdata c | .cdataClose, .cdata c =>
    (b.update b.current (.cdata { c with closed := true }) t.stop).leave
  | .instructionOpen, _ => (b.beforeMarkup t.start inDtd).openNode (.instruction {}) t.span
  | .prologName, .instruction i =>
    b.update b.current
      (.instruction { i with
        isProlog := true, target := some (Text.slice s t.start t.stop), targetSpan := some t.span })
      t.stop
  | .instructionTarget, .instruction i =>
    b.update b.current
      (.instruction { i with
        isProlog := false, target := some (Text.slice s t.start t.stop), targetSpan := some t.span })
      t.stop
  | .instructionContent, .instruction i =>
    b.update b.current (.instruction { i with content := some t.span }) t.stop
  | .instructionClose, .instruction i | .prologClose, .instruction i =>
    ({ b with openAttribute := none }.update b.current (.instruction { i with closed := true }) t.stop).leave
  | .instructionClose, _ | .prologClose, _ => { b with openAttribute := none }
  | _, _ => b

/-- The open document type changed by `f`, reaching the end of the token. -/
def onDoctype (b : Builder) (t : Token) (f : Doctype → Doctype) : Builder :=
  match b.doctype with
  | some id =>
    match b.kindOf id with
    | .doctype d => b.update id (.doctype (f d)) t.stop
    | _ => b.extend id t.stop
  | none => b

/-- A new declaration. -/
def openDeclaration (b : Builder) (t : Token) (body : Declaration.Body) : Builder :=
  let b := b.leaveDeclaration.leaveClosedElement.openNode (.declaration { body }) t.span
  { b with declaration := some b.current, contentStart := none }

/-- The parameters so far, with one more piece of what fits nowhere; the pieces and all between them
count as one. -/
def joinUnrecognized (s : String) (first : Option Parameter) (t : Token) : Option Parameter :=
  match first with
  | some p => some ⟨⟨p.span.start, t.stop⟩, Text.slice s p.span.start t.stop⟩
  | none => some (parameter s t)

/-- A parameter that fits nowhere, of the open declaration or else of the document type. -/
def unrecognized (s : String) (b : Builder) (t : Token) : Builder :=
  match b.declaration.or b.doctype with
  | some id =>
    match b.kindOf id with
    | .doctype d =>
      b.update id (.doctype { d with unrecognized := joinUnrecognized s d.unrecognized t }) t.stop
    | .declaration d =>
      b.update id (.declaration { d with unrecognized := joinUnrecognized s d.unrecognized t }) t.stop
    | _ => b
  | none => b

/-- The last definition of an attribute list changed by `f`; a list without one gets one. -/
def onLastDef (f : AttributeDef → AttributeDef) (defs : List AttributeDef) : List AttributeDef :=
  match defs.getLast? with
  | some d => defs.dropLast ++ [f d]
  | none => [f {}]

/-- The body of a declaration with one more parameter; `content` is the content model up to the end
of that parameter. -/
def addParameter (kind : Token.DtdKind) (p : Parameter) (content : Option Parameter) :
    Declaration.Body → Declaration.Body
  | .element d => .element <|
    match kind with
    | .elementName => { d with name := some p }
    | .elementCategory => { d with category := some p }
    | .contentOpen | .contentBody | .contentClose => { d with content }
    | _ => d
  | .attlist d => .attlist <|
    match kind with
    | .attlistElement => { d with element := some p }
    | .attributeName => { d with definitions := d.definitions ++ [{ name := some p }] }
    | .attributeType =>
      { d with definitions := onLastDef (fun a => { a with type := some p }) d.definitions }
    | .attributeDefault =>
      { d with definitions := onLastDef (fun a => { a with value := some p }) d.definitions }
    | _ => d
  | .entity d => .entity <|
    match kind with
    | .entityPercent => { d with percent := some p }
    | .entityName => { d with name := some p }
    | .entityValue => { d with value := some p }
    | .entityPublic | .entitySystem => { d with external := { d.external with keyword := some p } }
    | .entityPublicId => { d with external := { d.external with publicId := some p } }
    | .entitySystemId => { d with external := { d.external with systemId := some p } }
    | _ => d
  | .notationDecl d => .notationDecl <|
    match kind with
    | .notationName => { d with name := some p }
    | .notationPublic | .notationSystem => { d with external := { d.external with keyword := some p } }
    | .notationPublicId => { d with external := { d.external with publicId := some p } }
    | .notationSystemId => { d with external := { d.external with systemId := some p } }
    | _ => d

/-- A parameter of the open declaration. -/
def declarationParameter (s : String) (b : Builder) (kind : Token.DtdKind) (t : Token) : Builder :=
  match b.declaration with
  | none => b
  | some id =>
    let b := if kind = .contentOpen then { b with contentStart := some t.start } else b
    let content := b.contentStart.map fun start => ⟨⟨start, t.stop⟩, Text.slice s start t.stop⟩
    match b.kindOf id with
    | .declaration d =>
      let p := parameter s t
      b.update id
        (.declaration { d with body := addParameter kind p content d.body, parameters := d.parameters ++ [p] })
        t.stop
    | _ => b

/-- A parameter of the document type. -/
def addDoctypeParameter (kind : Token.DtdKind) (p : Parameter) (d : Doctype) : Doctype :=
  let d := { d with parameters := d.parameters ++ [p] }
  match kind with
  | .doctypeName => { d with name := some p }
  | .doctypePublicId => { d with external := { d.external with publicId := some p } }
  | .doctypeSystemId => { d with external := { d.external with systemId := some p } }
  | _ => { d with external := { d.external with keyword := some p } }

/-- A token of the document type or one of its declarations. -/
def dtdToken (s : String) (b : Builder) (kind : Token.DtdKind) (t : Token) (inDtd : Bool) : Builder :=
  match kind with
  | .doctypeOpen =>
    let b := (b.beforeMarkup t.start inDtd).openNode (.doctype {}) t.span
    { b with doctype := some b.current }
  | .subsetOpen => b.onDoctype t fun d => { d with subsetStart := some t.start }
  | .subsetClose => b.leaveDeclaration.onDoctype t fun d => { d with subsetStop := some t.stop }
  | .doctypeClose =>
    let b := b.leaveDeclaration
    match b.doctype with
    | some id =>
      let b := b.onDoctype t fun d => { d with closed := true }
      { b with doctype := none, current := b.parentOf id }
    | none => b
  | .doctypeName | .doctypePublic | .doctypeSystem | .doctypePublicId | .doctypeSystemId =>
    b.onDoctype t (addDoctypeParameter kind (parameter s t))
  | .elementOpen => b.openDeclaration t (.element {})
  | .attlistOpen => b.openDeclaration t (.attlist {})
  | .entityOpen => b.openDeclaration t (.entity {})
  | .notationOpen => b.openDeclaration t (.notationDecl {})
  | .declarationClose =>
    match b.declaration with
    | some id =>
      let b := match b.kindOf id with
        | .declaration d => b.update id (.declaration { d with closed := true }) t.stop
        | _ => b.extend id t.stop
      { b with declaration := none, current := b.parentOf id }
    | none => b
  | .unrecognized => unrecognized s b t
  | _ => declarationParameter s b kind t

/-- The builder behind one more token; `inDtd` says whether the lexer expects declarations behind
it. -/
def step (s : String) (b : Builder) (t : Token) (inDtd : Bool) : Builder :=
  match t.kind with
  | .startTagOpen | .startTagName | .startTagClose | .startTagSelfClose | .endTagOpen | .endTagName
  | .endTagClose | .unknown => tagToken s b t inDtd
  | .attributeName => attributeName s b t
  | .assign => assign b t
  | .attributeValue => attributeValue s b t
  | .blank | .eos => b
  | .text => (b.beforeMarkup t.start inDtd).append .text t.span
  | .dtd kind => dtdToken s b kind t inDtd
  | _ => sectionToken s b t inDtd

/-- The builder before the first token. A file of declarations is one document type. -/
def start (s : String) (dtdFile : Bool) : Builder :=
  let b : Builder := { nodes := #[{ span := ⟨0, Text.size s⟩ }] }
  if dtdFile then
    let b := b.openNode (.doctype { synthetic := true }) ⟨0, Text.size s⟩
    { b with doctype := some b.current }
  else b

/-- The nodes at the end of the text, where all that is open ends. -/
def finish (s : String) (b : Builder) : Array Node :=
  let b := b.flushEndTag (Text.size s) none
  ((Node.chain b.nodes b.current).foldl (fun b id => b.extend id (Text.size s)) b).nodes

/-- The nodes of a text. -/
def build (s : String) (dtdFile : Bool) : Array Node :=
  let lexer := if dtdFile then Lexer.declarations else Lexer.document
  ((lexer.tokens s).foldl (fun b (t, x) => step s b t x.inDtd) (start s dtdFile)).finish s

end Builder

end XmlAssist
