import XmlAssist.Proofs.Lexer.Order
import XmlAssist.Proofs.Tree.Growth

/-!
# What nodes keep of the text

A token that matters gives a `Part`, and nodes keep parts: those of start tags, attributes, texts and
declarations in the order of the text (`Node.parts`), those of end tags wherever the element that they
close is (`Node.ends`). Every span that a node keeps lies in the text that was read, and the
string beside it is what the span covers (`Node.Sound`).

`Builder.Records` says that the nodes of a builder keep given parts. The operations of the builder
change one node (`Records.modify`) or add one (`Records.append`), and the parts with it.
-/

namespace XmlAssist

open Text (size slice isBoundary)

/-- What a token leaves in a node. -/
inductive Part where
  | startTagOpen (offset : Nat)
  | startTagName (span : Span)
  | attributeName (span : Span)
  | attributeValue (span : Span)
  | text (span : Span)
  | parameter (p : Parameter)
  | endTagOpen (offset : Nat)
  | endTagName (span : Span)
deriving DecidableEq

namespace Part

/-! What a part of one kind holds. -/

@[simp] def startTagOpen? : Part → Option Nat
  | .startTagOpen o => some o
  | _ => none

@[simp] def startTagName? : Part → Option Span
  | .startTagName sp => some sp
  | _ => none

@[simp] def endTagOpen? : Part → Option Nat
  | .endTagOpen o => some o
  | _ => none

@[simp] def endTagName? : Part → Option Span
  | .endTagName sp => some sp
  | _ => none

@[simp] def attributeName? : Part → Option Span
  | .attributeName sp => some sp
  | _ => none

@[simp] def attributeValue? : Part → Option Span
  | .attributeValue sp => some sp
  | _ => none

@[simp] def text? : Part → Option Span
  | .text sp => some sp
  | _ => none

@[simp] def parameter? : Part → Option Parameter
  | .parameter p => some p
  | _ => none

end Part

/-- A parameter of a declaration of an element, an attribute list, an entity or a notation. -/
def Token.DtdKind.isParameter (k : Token.DtdKind) : Bool :=
  k ∈ Lexer.declarationParameters && k ≠ .unrecognized

/-- The token is a parameter of a declaration. -/
def Token.isParameter (t : Token) : Bool :=
  match t.kind with
  | .dtd k => k.isParameter
  | _ => false

/-- The part of a start tag, an attribute, a text or a declaration that the token is. -/
def Token.part (s : String) (t : Token) : Option Part :=
  match t.kind with
  | .startTagOpen => some (.startTagOpen t.start)
  | .startTagName => some (.startTagName t.span)
  | .attributeName => some (.attributeName t.span)
  | .attributeValue => some (.attributeValue t.span)
  | .text => some (.text t.span)
  | .dtd k => if k.isParameter then some (.parameter (Builder.parameter s t)) else none
  | _ => none

/-- The part of an end tag that the token is. -/
def Token.endPart (t : Token) : Option Part :=
  match t.kind with
  | .endTagOpen => some (.endTagOpen t.start)
  | .endTagName => some (.endTagName t.span)
  | _ => none

/-! ## The parameters of declarations -/

def ExternalId.stored (x : ExternalId) : List Parameter :=
  x.keyword.toList ++ x.publicId.toList ++ x.systemId.toList

def AttributeDef.stored (d : AttributeDef) : List Parameter :=
  d.name.toList ++ d.type.toList ++ d.value.toList

/-- All parameters that the body of a declaration keeps. -/
def Declaration.Body.stored : Declaration.Body → List Parameter
  | .element b => b.name.toList ++ b.category.toList ++ b.content.toList
  | .attlist b => b.element.toList ++ b.definitions.flatMap AttributeDef.stored
  | .entity b => b.percent.toList ++ b.name.toList ++ b.value.toList ++ b.external.stored
  | .notationDecl b => b.name.toList ++ b.external.stored

def Declaration.stored (d : Declaration) : List Parameter :=
  d.body.stored ++ d.parameters ++ d.unrecognized.toList

def Doctype.stored (d : Doctype) : List Parameter :=
  d.name.toList ++ d.external.stored ++ d.parameters ++ d.unrecognized.toList

theorem mem_stored_onLastDef {f : AttributeDef → AttributeDef} {p q : Parameter}
    (hf : ∀ d, q ∈ (f d).stored → q ∈ d.stored ∨ q = p) {defs : List AttributeDef}
    (h : q ∈ (Builder.onLastDef f defs).flatMap AttributeDef.stored) :
    q ∈ defs.flatMap AttributeDef.stored ∨ q = p := by
  unfold Builder.onLastDef at h
  split at h
  · rename_i d hd
    obtain ⟨front, rfl⟩ := List.getLast?_eq_some_iff.mp hd
    simp only [List.dropLast_concat, List.flatMap_append, List.mem_append, List.flatMap_singleton] at h ⊢
    rcases h with h | h
    · exact .inl (.inl h)
    · exact (hf d h).imp_left .inr
  · simp only [List.flatMap_singleton] at h
    exact (hf {} h).imp_left fun h => by simp [AttributeDef.stored] at h

theorem mem_stored_addParameter {kind : Token.DtdKind} {p q : Parameter} {content : Option Parameter}
    {body : Declaration.Body} (h : q ∈ (Builder.addParameter kind p content body).stored) :
    q ∈ body.stored ∨ q = p ∨ content = some q := by
  cases body with
  | element d =>
    simp only [Builder.addParameter] at h
    split at h <;> simp [Declaration.Body.stored] at h ⊢ <;> grind
  | attlist d =>
    simp only [Builder.addParameter] at h
    split at h
    case h_3 | h_4 =>
      simp only [Declaration.Body.stored, List.mem_append] at h ⊢
      rcases h with h | h
      · exact .inl (.inl h)
      · have := mem_stored_onLastDef (p := p) (fun d hd => by simp [AttributeDef.stored] at hd ⊢; grind) h
        grind
    all_goals
      simp only [Declaration.Body.stored, List.mem_append, List.flatMap_append, List.flatMap_singleton,
        AttributeDef.stored, Option.mem_toList] at h ⊢
      grind
  | entity d | notationDecl d =>
    simp only [Builder.addParameter] at h
    split at h <;> simp [Declaration.Body.stored, ExternalId.stored] at h ⊢ <;> grind

theorem mem_stored_addDoctypeParameter {kind : Token.DtdKind} {p q : Parameter} {d : Doctype}
    (h : q ∈ (Builder.addDoctypeParameter kind p d).stored) : q ∈ d.stored ∨ q = p := by
  simp only [Builder.addDoctypeParameter] at h
  split at h <;> simp [Doctype.stored, ExternalId.stored] at h ⊢ <;> grind

/-! ## What a node keeps -/

namespace Node

/-- The parts that a node of the kind keeps of its start tag, or of what else it is. -/
def Kind.parts (span : Span) : Kind → List Part
  | .element e => e.startOpen.toList.map .startTagOpen ++ e.tagSpan.toList.map .startTagName
  | .attribute a => .attributeName a.nameSpan :: a.valueSpan.toList.map .attributeValue
  | .text => [.text span]
  | .declaration d => d.parameters.map .parameter
  | _ => []

/-- The parts that a node of the kind keeps of its end tag. -/
def Kind.ends : Kind → List Part
  | .element e => e.endOpen.toList.map .endTagOpen ++ e.endTagSpan.toList.map .endTagName
  | _ => []

def parts (n : Node) : List Part := n.kind.parts n.span

def ends (n : Node) : List Part := n.kind.ends

/-- The spans that a node of the kind keeps beside its own. -/
def Kind.spans : Kind → List Span
  | .element e => e.tagSpan.toList ++ e.endTagSpan.toList
  | .attribute a => a.nameSpan :: a.valueSpan.toList
  | .comment c | .cdata c => c.content.toList
  | .instruction i => i.targetSpan.toList ++ i.content.toList
  | .doctype d => d.stored.map (·.span)
  | .declaration d => d.stored.map (·.span)
  | .document | .text => []

/-- The strings beside the spans are what the spans cover; the name in an end tag is that of the
element. -/
def Kind.Quotes (s : String) : Kind → Prop
  | .element e =>
    (∀ sp, e.tagSpan = some sp → e.tag = some (slice s sp.start sp.stop)) ∧
      ∀ sp, e.endTagSpan = some sp → e.tag = some (slice s sp.start sp.stop)
  | .attribute a =>
    a.name = slice s a.nameSpan.start a.nameSpan.stop ∧
      a.written = a.valueSpan.map fun sp => slice s sp.start sp.stop
  | .instruction i => i.target = i.targetSpan.map fun sp => slice s sp.start sp.stop
  | .doctype d => ∀ p ∈ d.stored, p.text = slice s p.span.start p.span.stop
  | .declaration d => ∀ p ∈ d.stored, p.text = slice s p.span.start p.span.stop
  | _ => True

/-- An element with a name and an end tag is closed, and one whose end tag has its `>`. -/
def Kind.Closes : Kind → Prop
  | .element e => (e.endTagSpan.isSome → e.closed = true) ∧
      (e.endOpen.isSome → e.closed = true ∨ e.tag = none) ∧ (e.endClose.isSome → e.closed = true)
  | _ => True

end Node

/-- The span lies in the text up to `edge`, from boundary to boundary. -/
structure Lies (s : String) (edge : Nat) (span : Span) : Prop where
  start_le : span.start ≤ span.stop
  stop_le : span.stop ≤ edge
  start : isBoundary s span.start = true
  stop : isBoundary s span.stop = true

/-- What a node of the kind keeps is right for the text up to `edge`. -/
structure Node.Kind.Sound (s : String) (edge : Nat) (k : Node.Kind) : Prop where
  spans : ∀ sp ∈ k.spans, Lies s edge sp
  quotes : k.Quotes s
  closes : k.Closes

structure Node.Sound (s : String) (edge : Nat) (n : Node) : Prop where
  start : isBoundary s n.span.start = true
  stop : isBoundary s n.span.stop = true
  kind : n.kind.Sound s edge

section sound
variable {s : String} {edge edge' stop : Nat} {k k' : Node.Kind} {n : Node} {δ ε : List Part}

theorem Lies.mono {sp : Span} (h : Lies s edge sp) (hle : edge ≤ edge') : Lies s edge' sp :=
  { h with stop_le := Nat.le_trans h.stop_le hle }

theorem Node.Kind.Sound.mono (h : k.Sound s edge) (hle : edge ≤ edge') : k.Sound s edge' :=
  { h with spans := fun sp hsp => (h.spans sp hsp).mono hle }

theorem Node.Kind.Sound.of_nil (hspans : k.spans = []) (hquotes : k.Quotes s) (hcloses : k.Closes) :
    k.Sound s edge := ⟨by simp [hspans], hquotes, hcloses⟩

theorem Node.Sound.mono (h : n.Sound s edge) (hle : edge ≤ edge') : n.Sound s edge' :=
  { h with kind := h.kind.mono hle }

theorem isBoundary_extendTo {sp : Span} (h : isBoundary s sp.stop = true)
    (hstop : isBoundary s stop = true) : isBoundary s (sp.extendTo stop).stop = true := by
  rcases Nat.le_total sp.stop stop with hle | hle
  · rwa [Span.extendTo, Nat.max_eq_right hle]
  · rwa [Span.extendTo, Nat.max_eq_left hle]

theorem Node.Kind.parts_congr (h : k ≠ .text) (sp sp' : Span) : k.parts sp = k.parts sp' := by
  cases k <;> first | rfl | exact absurd rfl h

/-- A node changes and keeps some more parts then. -/
structure Change (s : String) (edge edge' : Nat) (n m : Node) (δ ε : List Part) : Prop where
  parent : m.parent = n.parent
  text : m.kind = .text → n.kind = .text
  doctype : n.isDoctype = true → m.isDoctype = true
  parts : m.parts = n.parts ++ δ
  ends : m.ends = n.ends ++ ε
  sound : n.Sound s edge → m.Sound s edge'

/-- A node of the one kind becomes one of the other and keeps some more parts then. -/
structure Writes (s : String) (edge edge' : Nat) (k k' : Node.Kind) (δ ε : List Part) : Prop where
  inner : k ≠ .document
  text : k ≠ .text
  text' : k' ≠ .text
  doctype : ∀ d, k = .doctype d → ∃ d', k' = .doctype d'
  parts : ∀ sp, k'.parts sp = k.parts sp ++ δ
  ends : k'.ends = k.ends ++ ε
  sound : k.Sound s edge → k'.Sound s edge'

theorem Writes.change {sp : Span} (h : Writes s edge stop k k' δ ε) (hk : n.kind = k)
    (hstart : isBoundary s n.span.start = true → isBoundary s sp.start = true)
    (hstop : isBoundary s n.span.stop = true → isBoundary s sp.stop = true) :
    Change s edge stop n { n with kind := k', span := sp } δ ε where
  parent := rfl
  text ht := absurd ht h.text'
  doctype hd := by
    cases hkind : n.kind with
    | doctype d =>
      obtain ⟨d', hd'⟩ := h.doctype d (hk ▸ hkind)
      simp [Node.isDoctype, Node.doctype?, hd']
    | _ => simp [Node.isDoctype, Node.doctype?, hkind] at hd
  parts := by
    subst hk
    exact (h.parts _).trans (congrArg (· ++ δ) (Node.Kind.parts_congr h.text _ _))
  ends := by
    subst hk
    exact h.ends
  sound hn := ⟨hstart hn.start, hstop hn.stop, h.sound (hk ▸ hn.kind)⟩

theorem Writes.change_update (h : Writes s edge stop k k' δ ε) (hk : n.kind = k)
    (hstop : isBoundary s stop = true) :
    Change s edge stop n { n with kind := k', span := n.span.extendTo stop } δ ε :=
  h.change hk id fun hn => isBoundary_extendTo hn hstop

theorem change_extend (ht : n.kind ≠ .text) (hstop : isBoundary s stop = true) :
    Change s edge edge n { n with span := n.span.extendTo stop } [] [] where
  parent := rfl
  text h := h
  doctype h := h
  parts := by
    rw [List.append_nil]
    exact Node.Kind.parts_congr ht _ _
  ends := (List.append_nil _).symm
  sound hn := ⟨hn.start, isBoundary_extendTo hn.stop hstop, hn.kind⟩

end sound

/-! ## What tokens write -/

/-- The parameter lies in the text up to `edge`, and its text is what it covers. -/
structure Parameter.Sound (s : String) (edge : Nat) (p : Parameter) : Prop where
  lies : Lies s edge p.span
  text : p.text = slice s p.span.start p.span.stop

section writes

open Node

variable {s : String} {edge i j : Nat} (hle : edge ≤ j)
include hle

theorem writes_element {e e' : Element} (htag : e'.tag = e.tag) (hspan : e'.tagSpan = e.tagSpan)
    (hstart : e'.startOpen = e.startOpen) (hend : e'.endOpen = e.endOpen)
    (hendSpan : e'.endTagSpan = e.endTagSpan) (hclosed : e.closed = true → e'.closed = true)
    (hclose : e'.endClose.isSome = true → e.endClose.isSome = true ∨ e'.closed = true) :
    Writes s edge j (.element e) (.element e') [] [] where
  inner := by simp
  text := by simp
  text' := by simp
  doctype := by simp
  parts _ := by simp [Kind.parts, hstart, hspan]
  ends := by simp [Kind.ends, hend, hendSpan]
  sound h := by
    refine ⟨fun sp hsp => (h.spans sp ?_).mono hle, ?_, ?_⟩
    · simpa [Kind.spans, hspan, hendSpan] using hsp
    · simpa [Kind.Quotes, hspan, hendSpan, htag] using h.quotes
    · have hcloses := h.closes
      simp only [Kind.Closes, hend, hendSpan, htag] at hcloses ⊢
      exact ⟨fun hs => hclosed (hcloses.1 hs), fun ho => (hcloses.2.1 ho).imp_left hclosed,
        fun hc => (hclose hc).elim (fun hold => hclosed (hcloses.2.2 hold)) id⟩

omit hle in
theorem writes_startTagName {e : Element} (hspan : e.tagSpan = none) (hend : e.endOpen = none)
    (hendSpan : e.endTagSpan = none) (hsp : Lies s j ⟨i, j⟩) :
    Writes s edge j (.element e)
      (.element { e with tag := some (slice s i j), tagSpan := some ⟨i, j⟩ })
      [.startTagName ⟨i, j⟩] [] where
  inner := by simp
  text := by simp
  text' := by simp
  doctype := by simp
  parts _ := by simp [Kind.parts, hspan]
  ends := by simp [Kind.ends]
  sound h := ⟨by simp [Kind.spans, hendSpan, hsp], by simp [Kind.Quotes, hendSpan],
    by simpa [Kind.Closes, hend, hendSpan] using h.closes.2.2⟩

theorem writes_endTagName {e : Element} {o : Nat} (hopen : e.closed = false)
    (htag : e.tag = some (slice s i j)) (hsp : Lies s j ⟨i, j⟩) (he : (Kind.element e).Sound s edge) :
    Writes s edge j (.element e)
      (.element { e with closed := true, endOpen := some o, endTagSpan := some ⟨i, j⟩ }) []
      [.endTagOpen o, .endTagName ⟨i, j⟩] := by
  have hcloses := he.closes
  simp only [Kind.Closes, hopen, htag, reduceCtorEq, or_self, imp_false, Option.not_isSome_iff_eq_none,
    Bool.false_eq_true] at hcloses
  refine ⟨by simp, by simp, by simp, by simp, fun _ => by simp [Kind.parts],
    by simp [Kind.ends, hcloses.1, hcloses.2.1], fun h => ⟨fun sp hmem => ?_, ?_, by simp [Kind.Closes]⟩⟩
  · simp only [Kind.spans, Option.toList_some, List.mem_append, List.mem_singleton] at hmem
    rcases hmem with hmem | rfl
    · exact (h.spans sp (List.mem_append_left _ hmem)).mono hle
    · exact hsp
  · refine ⟨h.quotes.1, ?_⟩
    rintro _ ⟨⟩
    exact htag

theorem writes_attributeValue {a : Attribute} (hnone : a.valueSpan = none) (hsp : Lies s j ⟨i, j⟩) :
    Writes s edge j (.attribute a) (.attribute (a.withValue (slice s i j) ⟨i, j⟩))
      [.attributeValue ⟨i, j⟩] [] where
  inner := by simp
  text := by simp
  text' := by simp
  doctype := by simp
  parts _ := by simp [Kind.parts, hnone, Attribute.withValue]
  ends := by simp [Kind.ends]
  sound h := by
    refine ⟨fun sp hmem => ?_, ⟨h.quotes.1, rfl⟩, trivial⟩
    simp only [Kind.spans, Attribute.withValue, Option.toList_some, List.mem_cons, List.not_mem_nil,
      or_false] at hmem
    rcases hmem with rfl | rfl
    · exact (h.spans _ List.mem_cons_self).mono hle
    · exact hsp

theorem writes_enclosed {wrap : Enclosed → Kind} {c c' : Enclosed}
    (hwrap : wrap = .comment ∨ wrap = .cdata)
    (hc : ∀ sp, c'.content = some sp → c.content = some sp ∨ Lies s j sp) :
    Writes s edge j (wrap c) (wrap c') [] [] := by
  have hlies (hold : ∀ sp ∈ c.content.toList, Lies s edge sp) : ∀ sp ∈ c'.content.toList, Lies s j sp := by
    intro sp hsp
    rcases hc sp (Option.mem_toList.mp hsp) with hsp | hnew
    · exact (hold sp (Option.mem_toList.mpr hsp)).mono hle
    · exact hnew
  rcases hwrap with rfl | rfl
  all_goals
    refine ⟨by simp, by simp, by simp, by simp, fun _ => rfl, rfl, fun h => ?_⟩
    exact ⟨hlies h.spans, trivial, trivial⟩

theorem writes_instruction {p p' : Instruction}
    (ht : (p'.target = p.target ∧ p'.targetSpan = p.targetSpan) ∨
      (p'.target = some (slice s i j) ∧ p'.targetSpan = some ⟨i, j⟩ ∧ Lies s j ⟨i, j⟩))
    (hc : ∀ sp, p'.content = some sp → p.content = some sp ∨ Lies s j sp) :
    Writes s edge j (.instruction p) (.instruction p') [] [] := by
  refine ⟨by simp, by simp, by simp, by simp, fun _ => rfl, rfl, fun h => ?_⟩
  refine ⟨fun sp hmem => ?_, ?_, trivial⟩
  · have hold (hmem : sp ∈ p.targetSpan.toList ++ p.content.toList) : Lies s j sp :=
      (h.spans sp hmem).mono hle
    simp only [Kind.spans, List.mem_append, Option.mem_toList] at hmem hold
    rcases hmem with hmem | hmem
    · rcases ht with ⟨-, ht⟩ | ⟨-, ht, hsp⟩
      · exact hold (.inl (ht ▸ hmem))
      · rw [ht] at hmem
        exact Option.some.inj hmem ▸ hsp
    · exact (hc sp hmem).elim (fun hmem => hold (.inr hmem)) id
  · have hquotes := h.quotes
    simp only [Kind.Quotes] at hquotes ⊢
    rcases ht with ⟨ht, hspan⟩ | ⟨ht, hspan, -⟩
    · rw [ht, hspan, hquotes]
    · rw [ht, hspan]
      rfl

omit hle in
theorem sound_doctype {d : Doctype} :
    (Kind.doctype d).Sound s edge ↔ ∀ p ∈ d.stored, p.Sound s edge := by
  constructor
  · intro h p hp
    exact ⟨h.spans _ (List.mem_map_of_mem hp), h.quotes p hp⟩
  · intro h
    refine ⟨fun sp hsp => ?_, fun p hp => (h p hp).text, trivial⟩
    obtain ⟨p, hp, rfl⟩ := List.mem_map.mp hsp
    exact (h p hp).lies

omit hle in
theorem sound_declaration {d : Declaration} :
    (Kind.declaration d).Sound s edge ↔ ∀ p ∈ d.stored, p.Sound s edge := by
  constructor
  · intro h p hp
    exact ⟨h.spans _ (List.mem_map_of_mem hp), h.quotes p hp⟩
  · intro h
    refine ⟨fun sp hsp => ?_, fun p hp => (h p hp).text, trivial⟩
    obtain ⟨p, hp, rfl⟩ := List.mem_map.mp hsp
    exact (h p hp).lies

theorem writes_doctype {d d' : Doctype} (hd : ∀ p ∈ d'.stored, p ∈ d.stored ∨ p.Sound s j) :
    Writes s edge j (.doctype d) (.doctype d') [] [] := by
  refine ⟨by simp, by simp, by simp, fun _ _ => ⟨_, rfl⟩, fun _ => rfl, rfl, fun h => ?_⟩
  refine sound_doctype.mpr fun p hp => ?_
  rcases hd p hp with hold | hnew
  · exact ⟨(sound_doctype.mp h p hold).lies.mono hle, (sound_doctype.mp h p hold).text⟩
  · exact hnew

theorem writes_declaration {d d' : Declaration} {ps : List Parameter}
    (hd : ∀ p ∈ d'.stored, p ∈ d.stored ∨ p.Sound s j) (hp : d'.parameters = d.parameters ++ ps) :
    Writes s edge j (.declaration d) (.declaration d') (ps.map .parameter) [] := by
  refine ⟨by simp, by simp, by simp, by simp, fun _ => by simp [Kind.parts, hp], rfl, fun h => ?_⟩
  refine sound_declaration.mpr fun p hp => ?_
  rcases hd p hp with hold | hnew
  · exact ⟨(sound_declaration.mp h p hold).lies.mono hle, (sound_declaration.mp h p hold).text⟩
  · exact hnew

theorem writes_declaration_same {d d' : Declaration}
    (hd : ∀ p ∈ d'.stored, p ∈ d.stored ∨ p.Sound s j) (hp : d'.parameters = d.parameters) :
    Writes s edge j (.declaration d) (.declaration d') [] [] :=
  writes_declaration hle hd (hp.trans (List.append_nil _).symm)

end writes

namespace Builder

open Node

variable {s : String} {edge edge' stop id : Nat} {k k' : Kind} {b b' : Builder}
variable {P E δ ε : List Part} {f : Node → Node}

/-- The nodes keep the parts `P` in order and, with the `</` whose name has not been read, the parts
`E` of end tags. Nothing is inside a text, so that none ever grows. -/
structure Records (s : String) (edge : Nat) (P E : List Part) (b : Builder) : Prop where
  parts : b.nodes.toList.flatMap Node.parts = P
  ends : (b.nodes.toList.flatMap Node.ends ++ b.endTagOpen.toList.map Part.endTagOpen).Perm E
  sound : ∀ (id : Nat) (n : Node), b.nodes[id]? = some n → n.Sound s edge
  current : b.kindOf b.current ≠ .text
  parents : ∀ id, b.kindOf (b.parentOf id) ≠ .text
  doctype : ∀ id, b.doctype = some id → ∃ n : Node, b.nodes[id]? = some n ∧ n.isDoctype = true
  endTagOpen : ∀ o, b.endTagOpen = some o → isBoundary s o = true
  contentStart : ∀ o, b.contentStart = some o → isBoundary s o = true ∧ o ≤ edge

theorem Records.mono (h : b.Records s edge P E) (hle : edge ≤ edge') : b.Records s edge' P E :=
  { h with
    sound := fun id n hn => (h.sound id n hn).mono hle
    contentStart := fun o ho => ⟨(h.contentStart o ho).1, Nat.le_trans (h.contentStart o ho).2 hle⟩ }

/-! ## Changes of one node -/

theorem flatMap_modify (g : Node → List Part) {nodes : Array Node} {n : Node}
    (hn : nodes[id]? = some n) : ∃ l r, nodes.toList.flatMap g = l ++ g n ++ r ∧
      (nodes.modify id f).toList.flatMap g = l ++ g (f n) ++ r ∧ (id + 1 = nodes.size → r = []) := by
  obtain ⟨hid, hget⟩ := Array.getElem?_eq_some_iff.mp hn
  have hlt : id < nodes.toList.length := by rwa [Array.length_toList]
  have hget' : nodes.toList[id] = n := by rw [Array.getElem_toList, hget]
  have hsplit : nodes.toList = nodes.toList.take id ++ n :: nodes.toList.drop (id + 1) := by
    rw [← hget', ← List.drop_eq_getElem_cons hlt, List.take_append_drop]
  refine ⟨(nodes.toList.take id).flatMap g, (nodes.toList.drop (id + 1)).flatMap g, ?_, ?_,
    fun hlast => ?_⟩
  · have := congrArg (List.flatMap g) hsplit
    simpa using this
  · rw [Array.toList_modify, List.modify_eq_take_cons_drop hlt, hget']
    simp
  · rw [List.drop_eq_nil_of_le (by rw [Array.length_toList]; omega), List.flatMap_nil]

theorem kindOf_modify_of_ne {j : Nat} (h : id ≠ j) : (b.modify id f).kindOf j = b.kindOf j := by
  simp [kindOf, modify, Array.getElem?_modify, h]

theorem parentOf_modify (hf : ∀ n, b.nodes[id]? = some n → (f n).parent = n.parent) (j : Nat) :
    (b.modify id f).parentOf j = b.parentOf j := by
  by_cases h : id = j
  · subst h
    cases hn : b.nodes[id]? with
    | none => simp [parentOf, modify, Array.getElem?_modify, hn]
    | some n => simp [parentOf, modify, Array.getElem?_modify, hn, hf n hn]
  · simp [parentOf, modify, Array.getElem?_modify, h]

/-- A node changes; where it keeps more parts of what it is, it is the last node. -/
theorem Records.modify (h : b.Records s edge P E) (hle : edge ≤ edge')
    (hf : ∀ n, b.nodes[id]? = some n → Change s edge edge' n (f n) δ ε)
    (hid : id < b.nodes.size ∨ (δ = [] ∧ ε = [])) (hlast : δ = [] ∨ id + 1 = b.nodes.size) :
    (b.modify id f).Records s edge' (P ++ δ) (E ++ ε) := by
  cases hn : b.nodes[id]? with
  | none =>
    obtain ⟨rfl, rfl⟩ := hid.resolve_left fun hlt => by
      rw [Array.getElem?_eq_getElem hlt] at hn
      cases hn
    have hb : b.modify id f = b := by
      have hnodes : b.nodes.modify id f = b.nodes := by
        apply Array.ext_getElem?
        intro j
        rw [Array.getElem?_modify]
        split
        · rename_i hj
          rw [← hj, hn]
          rfl
        · rfl
      rw [Builder.modify, hnodes]
    rw [hb, List.append_nil, List.append_nil]
    exact h.mono hle
  | some n =>
    have hchange := hf n hn
    -- no node becomes a text, so what is around or open stays none
    have htext {j : Nat} (hj : b.kindOf j ≠ .text) : (b.modify id f).kindOf j ≠ .text := by
      by_cases hij : id = j
      · subst hij
        intro ht
        have hkind : (b.modify id f).kindOf id = (f n).kind :=
          kindOf_eq (by simp [Builder.modify, Array.getElem?_modify, hn])
        exact hj ((kindOf_eq hn).trans (hchange.text (hkind.symm.trans ht)))
      · rwa [kindOf_modify_of_ne hij]
    refine ⟨?_, ?_, ?_, htext h.current, fun j => ?_, ?_, h.endTagOpen, ?_⟩
    · obtain ⟨l, r, hold, hnew, hr⟩ := flatMap_modify (f := f) Node.parts hn
      refine hnew.trans ?_
      rw [hchange.parts, ← h.parts, hold]
      rcases hlast with rfl | hlast
      · simp
      · simp [hr hlast]
    · obtain ⟨l, r, hold, hnew, -⟩ := flatMap_modify (f := f) Node.ends hn
      have hperm := h.ends
      rw [hold] at hperm
      show ((b.nodes.modify id f).toList.flatMap Node.ends ++ _).Perm _
      rw [hnew, hchange.ends]
      refine List.Perm.trans ?_ (hperm.append_right ε)
      rw [List.perm_iff_count]
      intro a
      simp only [List.count_append]
      show _ + (b.endTagOpen.toList.map Part.endTagOpen).count a = _
      omega
    · intro j m hm
      obtain ⟨n', hn', ⟨rfl, rfl⟩ | ⟨-, rfl⟩⟩ := getElem?_modify_eq_some hm
      · exact (hf n' hn').sound (h.sound _ _ hn')
      · exact (h.sound _ _ hn').mono hle
    · rw [parentOf_modify fun n hn => (hf n hn).parent]
      exact htext (h.parents j)
    · intro j hj
      obtain ⟨m, hm, hd⟩ := h.doctype j hj
      by_cases hij : id = j
      · subst hij
        obtain rfl := Option.some.inj (hn.symm.trans hm)
        exact ⟨f n, by simp [Builder.modify, Array.getElem?_modify, hn], hchange.doctype hd⟩
      · exact ⟨m, by simp [Builder.modify, Array.getElem?_modify, hij, hm], hd⟩
    · intro o ho
      exact ⟨(h.contentStart o ho).1, Nat.le_trans (h.contentStart o ho).2 hle⟩

theorem exists_node (h : b.kindOf id = k) (hk : k ≠ .document) :
    ∃ n, b.nodes[id]? = some n ∧ n.kind = k := by
  cases hn : b.nodes[id]? with
  | none => exact absurd (by simpa [kindOf, hn] using h.symm) hk
  | some n => exact ⟨n, rfl, (kindOf_eq hn).symm.trans h⟩

theorem kindOf_update (h : b.kindOf id = k) (hk : k ≠ .document) :
    (b.update id k' stop).kindOf id = k' := by
  obtain ⟨n, hn, -⟩ := exists_node h hk
  exact kindOf_eq (n := { n with kind := k', span := n.span.extendTo stop })
    (by simp [Builder.update, Builder.modify, Array.getElem?_modify, hn])

theorem Records.update (h : b.Records s edge P E) (hkind : b.kindOf id = k)
    (hw : Writes s edge stop k k' δ ε) (hlast : δ = [] ∨ id + 1 = b.nodes.size) (hle : edge ≤ stop)
    (hstop : isBoundary s stop = true) : (b.update id k' stop).Records s stop (P ++ δ) (E ++ ε) := by
  obtain ⟨n, hn, hk⟩ := exists_node hkind hw.inner
  refine h.modify hle (fun m hm => hw.change_update ?_ hstop) (.inl (lt_size_of_getElem? hn)) hlast
  rw [← Option.some.inj (hn.symm.trans hm)]
  exact hk

theorem Records.adjust (h : b.Records s edge P E) (hkind : b.kindOf id = k)
    (hw : Writes s edge stop k k' [] []) (hle : edge ≤ stop) (hstop : isBoundary s stop = true) :
    (b.update id k' stop).Records s stop P E := by
  have h' := h.update hkind hw (.inl rfl) hle hstop
  rwa [List.append_nil, List.append_nil] at h'

theorem Records.extend (h : b.Records s edge P E) (ht : b.kindOf id ≠ .text)
    (hstop : isBoundary s stop = true) : (b.extend id stop).Records s edge P E := by
  have h' := h.modify (f := fun n => { n with span := n.span.extendTo stop }) (Nat.le_refl _)
    (fun n hn => change_extend (by rwa [kindOf_eq hn] at ht) hstop) (.inr ⟨rfl, rfl⟩) (.inl rfl)
  rwa [List.append_nil, List.append_nil] at h'

theorem Records.sound_kindOf (h : b.Records s edge P E) (id : Nat) : (b.kindOf id).Sound s edge := by
  cases hn : b.nodes[id]? with
  | none =>
    rw [kindOf, hn]
    exact .of_nil rfl trivial trivial
  | some n =>
    rw [kindOf_eq hn]
    exact (h.sound id n hn).kind

theorem kindOf_extend (b : Builder) (id stop j : Nat) : (b.extend id stop).kindOf j = b.kindOf j := by
  by_cases h : id = j
  · subst h
    cases hn : b.nodes[id]? <;> simp [kindOf, Builder.extend, Builder.modify, Array.getElem?_modify, hn]
  · exact kindOf_modify_of_ne h

theorem Records.foldl_extend {ids : List Nat} (h : b.Records s edge P E)
    (ht : ∀ id ∈ ids, b.kindOf id ≠ .text) (hstop : isBoundary s stop = true) :
    (ids.foldl (fun b id => b.extend id stop) b).Records s edge P E := by
  induction ids generalizing b with
  | nil => exact h
  | cons id ids ih =>
    refine ih (h.extend (ht id List.mem_cons_self) hstop) fun j hj => ?_
    rw [kindOf_extend]
    exact ht j (List.mem_cons_of_mem _ hj)

theorem Records.kindOf_of_mem_chain {c : Nat} (h : b.Records s edge P E)
    (hc : c ∈ chain b.nodes b.current) : b.kindOf c ≠ .text := by
  -- by the number of the node, since a parent has a smaller one
  have hchain : ∀ id, b.kindOf id ≠ .text → c ∈ chain b.nodes id → b.kindOf c ≠ .text := by
    intro id
    induction id using Nat.strongRecOn with
    | ind id ih =>
      intro ht hc
      rcases chain_cases b.nodes id with hone | ⟨p, hp, hlt, hcons⟩
      · rw [hone, List.mem_singleton] at hc
        rwa [hc]
      · rw [hcons, List.mem_cons] at hc
        rcases hc with rfl | hc
        · exact ht
        · have := h.parents id
          rw [parentOf_eq hp] at this
          exact ih p hlt this hc
  exact hchain b.current h.current hc

theorem Records.goTo (h : b.Records s edge P E) (ht : b.kindOf id ≠ .text) :
    { b with current := id }.Records s edge P E := { h with current := ht }

theorem Records.leave (h : b.Records s edge P E) (id : Nat) :
    { b with current := b.parentOf id }.Records s edge P E := h.goTo (h.parents id)

theorem Records.finish (h : b.Records s edge P E) (hkind : b.kindOf b.current = k)
    (hw : Writes s edge stop k k' [] []) (hle : edge ≤ stop) (hstop : isBoundary s stop = true) :
    (b.update b.current k' stop).leave.Records s stop P E := (h.adjust hkind hw hle hstop).leave _

/-! ## A node more -/

theorem kindOf_push_of_lt {n : Node} {j : Nat} (h : j < b.nodes.size) :
    { b with nodes := b.nodes.push n }.kindOf j = b.kindOf j := by
  simp [kindOf, Array.getElem?_push, Nat.ne_of_lt h]

theorem parentOf_lt_size (ha : Arena b.nodes) (id : Nat) : b.parentOf id < b.nodes.size := by
  cases hp : parentAt b.nodes id with
  | none =>
    obtain ⟨n, hn, -⟩ := ha.root
    rw [show b.parentOf id = 0 from congrArg (·.getD 0) hp]
    exact lt_size_of_getElem? hn
  | some p =>
    rw [parentOf_eq hp]
    obtain ⟨n, hn, -⟩ := parentAt_eq_some.mp hp
    exact Nat.lt_trans (ha.parentAt_lt hp) (lt_size_of_getElem? hn)

theorem Records.push {n : Node} {p : Nat} (h : b.Records s edge P E)
    (hparents : ∀ id, b.parentOf id < b.nodes.size) (hcurrent : b.current < b.nodes.size)
    (hn : n.Sound s edge) (hp : n.parent = some p) (hlt : p < b.nodes.size) (ht : b.kindOf p ≠ .text) :
    { b with nodes := b.nodes.push n }.Records s edge (P ++ n.parts) (E ++ n.ends) := by
  refine ⟨?_, ?_, ?_, ?_, fun id => ?_, ?_, h.endTagOpen, h.contentStart⟩
  · rw [← h.parts]
    simp
  · have hperm := h.ends.append_right n.ends
    refine List.Perm.trans ?_ hperm
    rw [List.perm_iff_count]
    intro a
    simp only [Array.toList_push, List.flatMap_append, List.flatMap_singleton, List.count_append]
    omega
  · intro id m hm
    rw [Array.getElem?_push] at hm
    split at hm
    · obtain rfl := Option.some.inj hm
      exact hn
    · exact h.sound id m hm
  · rw [kindOf_push_of_lt hcurrent]
    exact h.current
  · by_cases hid : id = b.nodes.size
    · have hparent : { b with nodes := b.nodes.push n }.parentOf id = p := by
        simp [parentOf, hid, hp]
      rw [hparent, kindOf_push_of_lt hlt]
      exact ht
    · have hparent : { b with nodes := b.nodes.push n }.parentOf id = b.parentOf id := by
        simp [parentOf, Array.getElem?_push, hid]
      rw [hparent, kindOf_push_of_lt (hparents id)]
      exact h.parents id
  · intro id hid
    obtain ⟨m, hm, hd⟩ := h.doctype id hid
    have hne : id ≠ b.nodes.size := Nat.ne_of_lt (lt_size_of_getElem? hm)
    exact ⟨m, by rw [Array.getElem?_push, if_neg hne, hm], hd⟩

theorem Records.grow {top edge₀ : Nat} {n : Node} (h : b.Records s edge P E)
    (hnested : Nested s top b.nodes b.current edge₀) (hle : edge ≤ edge')
    (hf : ∀ m, b.nodes[b.current]? = some m → Change s edge edge' m (f m) [] [])
    (hn : n.Sound s edge') (hp : n.parent = some b.current) :
    { b with nodes := grow b.nodes b.current f n }.Records s edge' (P ++ n.parts) (E ++ n.ends) := by
  obtain ⟨m, hm, -⟩ := hnested.current_node
  have hlt : b.current < (b.modify b.current f).nodes.size := by
    simpa [Builder.modify] using lt_size_of_getElem? hm
  have hmodify := h.modify hle hf (.inr ⟨rfl, rfl⟩) (.inl rfl)
  rw [List.append_nil, List.append_nil] at hmodify
  refine hmodify.push (fun id => ?_) hlt hn hp hlt hmodify.current
  rw [parentOf_modify fun m hm => (hf m hm).parent]
  simpa [Builder.modify] using parentOf_lt_size hnested.arena id

theorem change_withChild (n : Node) (id : Nat) : Change s edge edge n (withChild id n) [] [] where
  parent := rfl
  text h := h
  doctype h := h
  parts := (List.append_nil _).symm
  ends := (List.append_nil _).symm
  sound hn := ⟨hn.start, hn.stop, hn.kind⟩

section append
variable {top edge₀ start : Nat}

theorem Records.append (h : b.Records s edge P E) (hn : Nested s top b.nodes b.current edge₀)
    (hk : k.Sound s edge) (hstart : isBoundary s start = true) (hstop : isBoundary s stop = true) :
    (b.append k ⟨start, stop⟩).Records s edge (P ++ k.parts ⟨start, stop⟩) (E ++ k.ends) :=
  h.grow (n := { span := ⟨start, stop⟩, parent := some b.current, kind := k }) hn (Nat.le_refl _)
    (fun m _ => change_withChild m _) ⟨hstart, hstop, hk⟩ rfl

theorem Records.openNode (h : b.Records s edge P E) (hn : Nested s top b.nodes b.current edge₀)
    (hk : k.Sound s edge) (ht : k ≠ .text) (hstart : isBoundary s start = true)
    (hstop : isBoundary s stop = true) :
    (b.openNode k ⟨start, stop⟩).Records s edge (P ++ k.parts ⟨start, stop⟩) (E ++ k.ends) :=
  { h.append hn hk hstart hstop with
    current := by
      rw [kindOf_openNode]
      exact ht }

end append

/-! ## End tags -/

theorem Records.take {o : Nat} (h : b.Records s edge P E) (ho : b.endTagOpen = some o) :
    ∃ E₀, { b with endTagOpen := none }.Records s edge P E₀ ∧ (E₀ ++ [Part.endTagOpen o]).Perm E := by
  refine ⟨b.nodes.toList.flatMap Node.ends, ?_, ?_⟩
  · exact { h with
      ends := by simp
      endTagOpen := nofun }
  · have := h.ends
    rwa [ho] at this

theorem Records.perm {E' : List Part} (h : b.Records s edge P E) (hE : E.Perm E') :
    b.Records s edge P E' := { h with ends := h.ends.trans hE }

theorem Records.wait {o : Nat} (h : b.Records s edge P E) (hnone : b.endTagOpen = none)
    (ho : isBoundary s o = true) :
    { b with endTagOpen := some o }.Records s edge P (E ++ [Part.endTagOpen o]) :=
  { h with
    ends := by
      have := h.ends.append_right [Part.endTagOpen o]
      rwa [hnone, Option.toList_none, List.map_nil, List.append_nil] at this
    endTagOpen := by
      rintro _ ⟨⟩
      exact ho }

end Builder

end XmlAssist
