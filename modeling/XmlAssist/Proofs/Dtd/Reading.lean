import Mathlib.Data.List.TakeWhile
import XmlAssist.Proofs.Dtd.Shows
import XmlAssist.Proofs.Tree.Recording
import XmlAssist.Proofs.Written.Pieces

/-!
# Reading written declarations

Inside a declaration, the lexer and the builder go from parameter to parameter. `Declares` says that
they get from one place in it to another and what the body of the declaration is there; each
parameter that is written is one step, and each kind of declaration is the steps of its parameters.
-/

namespace XmlAssist

open Node
open Text (Stands size slice)

namespace Builder

variable {s : String} {A N : Array Node} {top i j m : Nat} {d : Declaration} {start : Option Nat}

/-- The builder between the declarations of the document type `top`. -/
def between (N : Array Node) (top : Nat) (start : Option Nat) : Builder :=
  { nodes := N, current := top, doctype := some top, contentStart := start }

/-- The builder inside the declaration `d` of the document type `top`, which is the last node. -/
def declaring (A : Array Node) (top i m : Nat) (d : Declaration) (start : Option Nat) : Builder :=
  { nodes := A ++ #[Written.nodeOf top i m (.declaration d)], current := A.size, doctype := some top
    declaration := some A.size, contentStart := start }

theorem kindOf_declaring : (declaring A top i m d start).kindOf A.size = .declaration d :=
  kindOf_eq (n := Written.nodeOf top i m (.declaration d)) (by simp [declaring])

theorem update_declaring {d' : Declaration} (h : m ≤ j) :
    (declaring A top i m d start).update A.size (.declaration d') j =
      declaring A top i j d' start := by
  rw [update, modify, declaring, modify_last]
  simp only [Written.nodeOf, Written.extendTo_of_le (show (⟨i, m⟩ : Span).stop ≤ j from h)]
  rfl

theorem openDeclaration_between {t : Token} (hp : Written.Opened N top) (body : Declaration.Body) :
    (between N top start).openDeclaration t body =
      declaring (N.modify top (withChild N.size)) top t.start t.stop { body } none := by
  have hnot : (between N top start).leaveDeclaration.leaveClosedElement = between N top start := by
    have hkind : ((between N top start).kindOf top).isClosedElement = false := hp.kindOf
    show (between N top start).leaveClosedElement = _
    unfold leaveClosedElement
    split
    · rename_i e he
      rw [show (between N top start).kindOf top = .element e from he] at hkind
      exact if_neg (by rw [show e.closed = false from hkind]; exact Bool.false_ne_true)
    · rfl
  rw [openDeclaration, hnot, openNode, append, modify, Array.push_eq_append]
  simp only [between, declaring, Array.size_append, Array.size_modify, List.size_toArray,
    List.length_singleton, Nat.add_sub_cancel]
  rfl

theorem step_declarationClose {t : Token} (h : t.kind = .dtd .declarationClose) (hm : m ≤ t.stop)
    (inDtd : Bool) :
    step s (declaring A top i m d start) t inDtd =
      between (A ++ #[Written.nodeOf top i t.stop (.declaration { d with closed := true })]) top start := by
  have hparent : (declaring A top i t.stop { d with closed := true } start).parentOf A.size = top := by
    simp [declaring, parentOf, Written.nodeOf]
  have hopen : (declaring A top i m d start).declaration = some A.size := rfl
  simp only [step, h, dtdToken, hopen, kindOf_declaring, update_declaring hm, hparent]
  rfl

theorem step_parameter {k : Token.DtdKind} {t : Token} (ht : t.kind = .dtd k) (hk : k.isParameter = true)
    (hm : m ≤ t.stop) (inDtd : Bool) :
    let start' := if k = .contentOpen then some t.start else start
    step s (declaring A top i m d start) t inDtd = declaring A top i t.stop
      { d with
        body := addParameter k (parameter s t)
          (start'.map fun o => ⟨⟨o, t.stop⟩, slice s o t.stop⟩) d.body
        parameters := d.parameters ++ [parameter s t] } start' := by
  intro start'
  have hmark : (declaring A top i m d start).markContent k t = declaring A top i m d start' := by
    unfold markContent
    split
    · rename_i hopen
      simp only [start', hopen, if_true]
      rfl
    · rename_i hopen
      simp only [start', hopen, if_false]
  rw [step, ht]
  simp only []
  rw [dtdToken_parameter hk, declarationParameter_eq rfl kindOf_declaring, hmark, update_declaring hm]
  rfl

end Builder

namespace Written

open Lexer (within between AtEnd AtParameter Stops DeclarationStage)
open Text (rest bytesOf)

variable {s : String} {i j k m top : Nat} {N A : Array Node} {subset : Bool}
variable {stage next : DeclarationStage} {body : Declaration.Body} {start : Option Nat}

/-! ## Places in a declaration -/

/-- A place in a declaration: what is read there, the body of the declaration so far, and where its
content model starts. -/
structure Place where
  stage : DeclarationStage
  pos : Nat
  body : Declaration.Body
  contentStart : Option Nat := none

/-- In every declaration that is read to the place `x`, tokens without a fault lead to `y`. -/
structure Declares (s : String) (subset : Bool) (x y : Place) : Prop where
  passes : ∀ A top i ps, ∀ m ≤ x.pos, ∃ ps', ∃ m' ≤ y.pos,
    Passes s (within subset x.stage x.pos)
      (.declaring A top i m { body := x.body, parameters := ps } x.contentStart)
      (within subset y.stage y.pos)
      (.declaring A top i m' { body := y.body, parameters := ps' } y.contentStart)

theorem Declares.refl (x : Place) : Declares s subset x x :=
  ⟨fun _ _ _ ps m hm => ⟨ps, m, hm, .refl ..⟩⟩

theorem Declares.trans {x y z : Place} (h : Declares s subset x y) (h' : Declares s subset y z) :
    Declares s subset x z := by
  constructor
  intro A top i ps m hm
  obtain ⟨ps', m', hm', hpass⟩ := h.passes A top i ps m hm
  obtain ⟨ps'', m'', hm'', hpass'⟩ := h'.passes A top i ps' m' hm'
  exact ⟨ps'', m'', hm'', hpass.trans hpass'⟩

theorem passes_skip {x : Lexer} {b : Builder}
    (hmode : x.mode = .dtdContent ∨ ∃ stage, x.mode = .declaration stage) :
    Passes s x b { x with pos := Text.skipWhile Lexer.isSpace s x.pos } b := by
  rcases Nat.lt_or_ge x.pos (Text.skipWhile Lexer.isSpace s x.pos) with hlt | hge
  · exact .of_blank (Lexer.lex_space hmode hlt) hlt
  · have heq : Text.skipWhile Lexer.isSpace s x.pos = x.pos :=
      Nat.le_antisymm hge (Text.le_skipWhile ..)
    rw [heq]
    exact .refl ..

theorem Declares.skip (h : Text.skipWhile Lexer.isSpace s j = k) :
    Declares s subset ⟨stage, j, body, start⟩ ⟨stage, k, body, start⟩ := by
  subst h
  constructor
  intro A top i ps m hm
  exact ⟨ps, m, Nat.le_trans hm (Text.le_skipWhile ..), passes_skip (.inr ⟨_, rfl⟩)⟩

theorem Declares.space (w : Space) (h : Stands s j w.text)
    (hnext : Stops Lexer.isSpace (rest s (j + size w.text))) :
    Declares s subset ⟨stage, j, body, start⟩ ⟨stage, j + size w.text, body, start⟩ :=
  .skip (Lexer.skipWhile_of_stands w h hnext)

theorem Declares.token (start : Option Nat) {kind : Token.DtdKind}
    (hlex : Lexer.lex s (within subset stage j) = ⟨.dtd kind, within subset next k, none⟩)
    (hkind : kind.isParameter = true) (hlt : j < k) :
    let start' := if kind = .contentOpen then some j else start
    Declares s subset ⟨stage, j, body, start⟩ ⟨next, k, Builder.addParameter kind ⟨⟨j, k⟩, slice s j k⟩
      (start'.map fun o => ⟨⟨o, k⟩, slice s o k⟩) body, start'⟩ := by
  intro start'
  constructor
  intro A top i ps m hm
  refine ⟨ps ++ [⟨⟨j, k⟩, slice s j k⟩], k, Nat.le_refl k, .of_lex hlex (by simp) hlt ?_⟩
  exact Builder.step_parameter rfl hkind (Nat.le_trans hm (Nat.le_of_lt hlt)) _

theorem Declares.parameter {kind : Token.DtdKind} {p : String} (h : Stands s j p) (hp : 0 < size p)
    (hlex : Lexer.lex s (within subset stage j) = ⟨.dtd kind, within subset next (j + size p), none⟩)
    (hkind : kind.isParameter = true ∧ kind ≠ .contentOpen) :
    Declares s subset ⟨stage, j, body, none⟩
      ⟨next, j + size p, Builder.addParameter kind ⟨⟨j, j + size p⟩, p⟩ none body, none⟩ := by
  have hlt : j < j + size p := Nat.lt_add_of_pos_right hp
  simpa only [if_neg hkind.2, Option.map_none, h.slice] using
    Declares.token none hlex hkind.1 hlt

theorem Declares.name (kind : Token.DtdKind) (hstage : (stage, kind, next) ∈ Lexer.nameStages) (n : Name)
    (h : Stands s j n.text) (hend : AtEnd s (j + size n.text)) :
    Declares s subset ⟨stage, j, body, none⟩ ⟨next, j + size n.text,
      Builder.addParameter kind ⟨⟨j, j + size n.text⟩, n.text⟩ none body, none⟩ := by
  have hkinds : ∀ x ∈ Lexer.nameStages, x.2.1.isParameter = true ∧ x.2.1 ≠ .contentOpen := by decide
  exact .parameter h (Text.size_pos (Lexer.ne_empty_of_isName n.valid)) (Lexer.lex_name hstage n h hend)
    (hkinds _ hstage)

theorem Declares.keyword {word : String} (kind : Token.DtdKind) (next : DeclarationStage)
    (hstage : (stage, word, kind, next) ∈ Lexer.keywordStages) (h : Stands s j word)
    (hend : AtEnd s (j + size word)) :
    Declares s subset ⟨stage, j, body, none⟩ ⟨next, j + size word,
      Builder.addParameter kind ⟨⟨j, j + size word⟩, word⟩ none body, none⟩ := by
  have hkinds : ∀ x ∈ Lexer.keywordStages,
      (x.2.2.1.isParameter = true ∧ x.2.2.1 ≠ .contentOpen) ∧ 0 < size x.2.1 := by decide
  exact .parameter h (hkinds _ hstage).2 (Lexer.lex_keyword hstage h hend) (hkinds _ hstage).1

theorem size_print_literal {stops : List UInt8} (l : Literal stops) : 0 < size l.print := by
  rw [← Text.length_bytesOf, Lexer.bytesOf_literal]
  exact Nat.succ_pos _

theorem Declares.literal {stops : List UInt8} (kind : Token.DtdKind)
    (hstage : (stage, stops, kind, next) ∈ Lexer.literalStages) (l : Literal stops)
    (h : Stands s j l.print) :
    Declares s subset ⟨stage, j, body, none⟩ ⟨next, j + size l.print,
      Builder.addParameter kind ⟨⟨j, j + size l.print⟩, l.print⟩ none body, none⟩ := by
  have hkinds : ∀ x ∈ Lexer.literalStages, x.2.2.1.isParameter = true ∧ x.2.2.1 ≠ .contentOpen := by
    decide
  exact .parameter h (size_print_literal l) (Lexer.lex_literal hstage l h) (hkinds _ hstage)

/-! ## Elements -/

/-- What stands between the parentheses of a content model. White space at its start is a token of
its own, and the rest, if there is any, another one. -/
theorem declares_inside {b : Declaration.ElementBody} {o : Nat} (x : Model)
    (h : Stands s j (x.print ++ ")")) :
    ∃ content, Declares s subset ⟨.elementContent, j, .element b, some o⟩
      ⟨.elementContent, j + size x.print, .element { b with content }, some o⟩ := by
  let blank := (bytesOf x.print).takeWhile Lexer.isSpace
  have hblank : ∀ c ∈ blank, Lexer.isSpace c = true := fun c hc => List.mem_takeWhile_imp hc
  obtain ⟨others, hothers⟩ : ∃ others, others = (bytesOf x.print).dropWhile Lexer.isSpace := ⟨_, rfl⟩
  have hsplit : bytesOf x.print = blank ++ others := by
    rw [hothers]
    exact List.takeWhile_append_dropWhile.symm
  have hrest : rest s j = blank ++ (others ++ rest s (j + size x.print)) := by
    rw [Lexer.rest_of_stands h.left, hsplit, List.append_assoc]
  have hbehind : rest s (j + blank.length) = others ++ rest s (j + size x.print) := Text.rest_add hrest
  cases others with
  | nil =>
    have hclose : Stops Lexer.isSpace (rest s (j + size x.print)) := by
      rw [Lexer.rest_of_stands h.right]
      rintro c ⟨⟩
      rfl
    have hsize : j + blank.length = j + size x.print := by
      rw [← Text.length_bytesOf, hsplit, List.append_nil]
    exact ⟨b.content, .skip ((Text.skipWhile_of_rest hrest hblank hclose).trans hsize)⟩
  | cons c cs =>
    have hc : Lexer.isSpace c = false := by
      have hhead := List.head?_dropWhile_not Lexer.isSpace (bytesOf x.print)
      rw [← hothers] at hhead
      exact hhead
    have hmem : c ∈ bytesOf x.print := by
      rw [hsplit]
      exact List.mem_append_right _ List.mem_cons_self
    have hstart : AtParameter s (j + blank.length) := by
      refine ⟨c, by rw [hbehind]; rfl, (Lexer.startsParameter_model x c hmem).resolve_left ?_⟩
      rw [hc]
      exact Bool.false_ne_true
    have hend : Lexer.groupEnd s (j + blank.length) 0 = j + size x.print := by
      rw [← Lexer.groupEnd_of_rest hrest fun c hc => Lexer.isGroupByte_of_isSpace c (hblank c hc),
        Lexer.groupEnd_model x h.left]
      exact Lexer.groupEnd_eq h.right
    have hlt : j + blank.length < j + size x.print := by
      rw [← Text.length_bytesOf, hsplit, List.length_append, List.length_cons]
      omega
    refine ⟨some ⟨⟨o, j + size x.print⟩, slice s o (j + size x.print)⟩, ?_⟩
    refine Declares.trans (.skip (Text.skipWhile_of_rest hrest hblank ?_))
      (.token _ (Lexer.lex_contentBody hstart hend hlt) rfl hlt)
    rintro d ⟨⟩
    exact hc

theorem declares_model {b : Declaration.ElementBody} (x : Model) (o : Option Occurs)
    (h : Stands s j (Contents.model x o).print) (hend : AtEnd s (j + size (Contents.model x o).print)) :
    let text := (Contents.model x o).print
    Declares s subset ⟨.elementNamed, j, .element b, none⟩
      ⟨.elementDone, j + size text, .element { b with content := some ⟨⟨j, j + size text⟩, text⟩ },
        some j⟩ := by
  intro text
  let opened : Parameter := ⟨⟨j, j + size "("⟩, slice s j (j + size "(")⟩
  have hclose := h.right.right
  have hsize : j + size text = j + size "(" + size x.print + size (")" ++ printOccurs o) := by
    simp only [text, Contents.print, Text.size_append]
    omega
  have htext : slice s j (j + size text) = text := h.slice
  have h1 : Declares s subset ⟨.elementNamed, j, .element b, none⟩
      ⟨.elementContent, j + size "(", .element { b with content := some opened }, some j⟩ :=
    .token _ (Lexer.lex_contentOpen h.left) rfl (Nat.lt_add_of_pos_right (by decide))
  obtain ⟨content, h2⟩ : ∃ content, Declares s subset
      ⟨.elementContent, j + size "(", .element { b with content := some opened }, some j⟩
      ⟨.elementContent, j + size "(" + size x.print, .element { b with content }, some j⟩ :=
    declares_inside x (h.right.left.append hclose.left)
  have h3 : Declares s subset
      ⟨.elementContent, j + size "(" + size x.print, .element { b with content }, some j⟩
      ⟨.elementDone, j + size text,
        .element { b with content := some ⟨⟨j, j + size text⟩, slice s j (j + size text)⟩ }, some j⟩ := by
    rw [hsize] at hend ⊢
    exact .token _ (Lexer.lex_contentClose o hclose hend) rfl
      (Nat.lt_add_of_pos_right (Text.size_append ")" _ ▸ Nat.add_pos_left (by decide) _))
  rw [htext] at h3
  exact h1.trans (h2.trans h3)

theorem declares_contents {n : Name} {p : Parameter} (hp : p.text = n.text) (c : Contents)
    (h : Stands s j c.print) (hend : AtEnd s (j + size c.print)) :
    ∃ (b : Declaration.ElementBody) (start : Option Nat), b.Shows n c ∧
      Declares s subset ⟨.elementNamed, j, .element { name := some p }, none⟩
        ⟨.elementDone, j + size c.print, .element b, start⟩ := by
  have hname : (some p).map (·.text) = some n.text := congrArg some hp
  cases c with
  | empty =>
    exact ⟨{ name := some p, category := some _ }, none, ⟨hname, rfl, rfl⟩,
      .keyword .elementCategory _ (by decide) h hend⟩
  | any =>
    exact ⟨{ name := some p, category := some _ }, none, ⟨hname, rfl, rfl⟩,
      .keyword .elementCategory _ (by decide) h hend⟩
  | model x o =>
    exact ⟨{ name := some p, content := some _ }, some j, ⟨hname, rfl, rfl⟩, declares_model x o h hend⟩

/-! ## Attributes -/

theorem onLastDef_concat (f : AttributeDef → AttributeDef) (ds : List AttributeDef) (d : AttributeDef) :
    Builder.onLastDef f (ds ++ [d]) = ds ++ [f d] := by
  rw [Builder.onLastDef, List.getLast?_concat]
  exact congrArg (· ++ [f d]) List.dropLast_concat

theorem size_print_type (t : AttType) : 0 < size t.print := by
  cases t with
  | name n => exact Text.size_pos (Lexer.ne_empty_of_isName n.valid)
  | enumeration cs => exact Text.size_append .. ▸ Nat.add_pos_left (by decide) _
  | notations g cs => exact Text.size_append .. ▸ Nat.add_pos_left (by decide) _

theorem size_print_default (d : Default) : 0 < size d.print := by
  cases d with
  | required => decide
  | implied => decide
  | value l => exact size_print_literal l
  | fixed g l => exact Text.size_append .. ▸ Nat.add_pos_left (by decide) _

theorem declares_definition {e : Option Parameter} {l : List AttributeDef} (w : AttDef)
    (h : Stands s j w.print) (hend : AtEnd s (j + size w.print)) :
    ∃ d : AttributeDef, d.Shows w ∧ Declares s subset
      ⟨.attributeName, j, .attlist { element := e, definitions := l }, none⟩
      ⟨.attributeName, j + size w.print, .attlist { element := e, definitions := l ++ [d] }, none⟩ := by
  let body (ds : List AttributeDef) : Declaration.Body := .attlist { element := e, definitions := ds }
  let nameAt := j + size w.before.text
  let typeAt := nameAt + size w.name.text + size w.beforeType.text
  let valueAt := typeAt + size w.type.print + size w.beforeDefault.text
  let name : Parameter := ⟨⟨nameAt, nameAt + size w.name.text⟩, w.name.text⟩
  let type : Parameter := ⟨⟨typeAt, typeAt + size w.type.print⟩, w.type.print⟩
  let value : Parameter := ⟨⟨valueAt, valueAt + size w.default.print⟩, w.default.print⟩
  have hsize : j + size w.print = valueAt + size w.default.print := by
    simp only [AttDef.print, Text.size_append, valueAt, typeAt, nameAt]
    omega
  have hname := h.right
  have htype := hname.right.right
  have hvalue := htype.right.right
  rw [hsize] at hend ⊢
  refine ⟨{ name := some name, type := some type, value := some value },
    ⟨rfl, rfl, rfl, enumeration_eq w.type rfl rfl⟩, ?_⟩
  have h1 : Declares s subset ⟨.attributeName, j, body l, none⟩ ⟨.attributeName, nameAt, body l, none⟩ :=
    .space w.before.toSpace h.left (AtParameter.of_name w.name hname.left).stops
  have h2 : Declares s subset ⟨.attributeName, nameAt, body l, none⟩
      ⟨.attributeType, nameAt + size w.name.text, body (l ++ [{ name := some name }]), none⟩ :=
    .name .attributeName (by decide) w.name hname.left (.of_gap w.beforeType hname.right.left)
  have h3 : Declares s subset
      ⟨.attributeType, nameAt + size w.name.text, body (l ++ [{ name := some name }]), none⟩
      ⟨.attributeType, typeAt, body (l ++ [{ name := some name }]), none⟩ :=
    .space w.beforeType.toSpace hname.right.left (AtParameter.of_type w.type htype.left).stops
  have h4 : Declares s subset ⟨.attributeType, typeAt, body (l ++ [{ name := some name }]), none⟩
      ⟨.attributeDefault, typeAt + size w.type.print, body (Builder.onLastDef
        (fun a => { a with type := some type }) (l ++ [{ name := some name }])), none⟩ :=
    .parameter htype.left (size_print_type w.type)
      (Lexer.lex_attributeType w.type w.beforeDefault w.default htype) (by decide)
  rw [onLastDef_concat] at h4
  have h5 : Declares s subset ⟨.attributeDefault, typeAt + size w.type.print,
        body (l ++ [{ name := some name, type := some type }]), none⟩
      ⟨.attributeDefault, valueAt, body (l ++ [{ name := some name, type := some type }]), none⟩ :=
    .space w.beforeDefault.toSpace htype.right.left (AtParameter.of_default w.default hvalue).stops
  have h6 : Declares s subset
      ⟨.attributeDefault, valueAt, body (l ++ [{ name := some name, type := some type }]), none⟩
      ⟨.attributeName, valueAt + size w.default.print, body (Builder.onLastDef
        (fun a => { a with value := some value })
        (l ++ [{ name := some name, type := some type }])), none⟩ :=
    .parameter hvalue (size_print_default w.default) (Lexer.lex_attributeDefault w.default hvalue hend)
      (by decide)
  rw [onLastDef_concat] at h6
  exact h1.trans (h2.trans (h3.trans (h4.trans (h5.trans h6))))

theorem declares_definitions {e : Option Parameter} {l : List AttributeDef} (ws : List AttDef)
    (h : Stands s j (printDefinitions ws)) (hend : AtEnd s (j + size (printDefinitions ws))) :
    ∃ ds : List AttributeDef, List.Forall₂ AttributeDef.Shows ds ws ∧ Declares s subset
      ⟨.attributeName, j, .attlist { element := e, definitions := l }, none⟩
      ⟨.attributeName, j + size (printDefinitions ws),
        .attlist { element := e, definitions := l ++ ds }, none⟩ := by
  induction ws generalizing j l with
  | nil =>
    refine ⟨[], .nil, ?_⟩
    rw [List.append_nil]
    exact .refl _
  | cons w ws ih =>
    have hsize : j + size (printDefinitions (w :: ws)) = j + size w.print + size (printDefinitions ws) := by
      rw [printDefinitions, Text.size_append, Nat.add_assoc]
    rw [hsize] at hend ⊢
    -- behind a definition follows the white space before the next one, or the end of the list
    have hnext : AtEnd s (j + size w.print) := by
      cases ws with
      | nil => exact hend
      | cons w' ws => exact .of_gap w'.before h.right.left.left
    obtain ⟨d, hd, hfirst⟩ := declares_definition w h.left hnext
    obtain ⟨ds, hds, hothers⟩ := ih h.right hend
    refine ⟨d :: ds, .cons hd hds, hfirst.trans ?_⟩
    have hcons : l ++ d :: ds = l ++ [d] ++ ds := List.append_cons ..
    rw [hcons]
    exact hothers

/-! ## Identifiers -/

theorem Declares.spaced {stops : List UInt8} (kind : Token.DtdKind)
    (hstage : (stage, stops, kind, next) ∈ Lexer.literalStages) (g : Gap) (l : Literal stops)
    (h : Stands s j (g.text ++ l.print)) :
    Declares s subset ⟨stage, j, body, none⟩ ⟨next, j + size g.text + size l.print,
      Builder.addParameter kind
        ⟨⟨j + size g.text, j + size g.text + size l.print⟩, l.print⟩ none body, none⟩ :=
  .trans (.space g.toSpace h.left (AtParameter.of_literal l h.right).stops) (.literal kind hstage l h.right)

/-- The declarations that say where something stands. -/
inductive Owner where
  | entity
  | notationDecl

/-- The declaration with its identifiers. Notations have no `%`. -/
def Owner.naming (percent name : Option Parameter) : Owner → ExternalId → Declaration.Body
  | .entity, external => .entity { percent, name, external }
  | .notationDecl, external => .notationDecl { name, external }

/-- The stage in which the keyword of the identifiers is read. -/
def Owner.named : Owner → DeclarationStage
  | .entity => .entityNamed
  | .notationDecl => .notationNamed

def Owner.behindPublic : Owner → DeclarationStage
  | .entity => .entityPublicId
  | .notationDecl => .notationPublicId

def Owner.done : Owner → DeclarationStage
  | .entity => .entityDone
  | .notationDecl => .notationDone

theorem declares_systemId {q n : Option Parameter} (o : Owner) (g : Gap) (id : Literal brackets)
    (h : Stands s j (External.systemId g id).print) :
    ∃ x : ExternalId, x.Shows (some (.systemId g id)) ∧ Declares s subset ⟨o.named, j, o.naming q n {}, none⟩
      ⟨o.done, j + size (External.systemId g id).print, o.naming q n x, none⟩ := by
  let keyword : Parameter := ⟨⟨j, j + size "SYSTEM"⟩, "SYSTEM"⟩
  let start := j + size "SYSTEM" + size g.text
  let system : Parameter := ⟨⟨start, start + size id.print⟩, id.print⟩
  have hsize : j + size (External.systemId g id).print = start + size id.print := by
    simp only [External.print, Text.size_append, start]
    omega
  have hend := AtEnd.of_gap g h.right.left
  rw [hsize]
  refine ⟨{ keyword := some keyword, systemId := some system },
    ⟨rfl, Parameter.quotes_none, Parameter.quotes_some system id rfl⟩, ?_⟩
  cases o with
  | entity =>
    exact .trans (.keyword .entitySystem .entitySystem (by decide) h.left hend)
      (.spaced .entitySystemId (by decide) g id h.right)
  | notationDecl =>
    exact .trans (.keyword .notationSystem .notationSystem (by decide) h.left hend)
      (.spaced .notationSystemId (by decide) g id h.right)

theorem declares_publicId {q n : Option Parameter} (o : Owner) (g : Gap) (id : Literal brackets)
    (behind : Option (Gap × Literal brackets)) (h : Stands s j (External.publicId g id behind).print) :
    ∃ (x : ExternalId) (next : DeclarationStage), x.Shows (some (.publicId g id behind)) ∧
      Declares s subset ⟨o.named, j, o.naming q n {}, none⟩
        ⟨next, j + size (External.publicId g id behind).print, o.naming q n x, none⟩ := by
  let keyword : Parameter := ⟨⟨j, j + size "PUBLIC"⟩, "PUBLIC"⟩
  let start := j + size "PUBLIC" + size g.text
  let stop := start + size id.print
  let identifier : Parameter := ⟨⟨start, stop⟩, id.print⟩
  have hsize : j + size (External.publicId g id behind).print = stop + size (printBehind behind) := by
    simp only [External.print, Text.size_append, stop, start]
    omega
  have hend := AtEnd.of_gap g h.right.left
  have hliteral := h.right.left.append h.right.right.left
  have hpublic : Declares s subset ⟨o.named, j, o.naming q n {}, none⟩
      ⟨o.behindPublic, stop, o.naming q n { keyword := some keyword, publicId := some identifier },
        none⟩ := by
    cases o with
    | entity =>
      exact .trans (.keyword .entityPublic .entityPublic (by decide) h.left hend)
        (.spaced .entityPublicId (by decide) g id hliteral)
    | notationDecl =>
      exact .trans (.keyword .notationPublic .notationPublic (by decide) h.left hend)
        (.spaced .notationPublicId (by decide) g id hliteral)
  have hquotes := Parameter.quotes_some identifier id rfl
  rw [hsize]
  cases behind with
  | none => exact ⟨_, _, ⟨rfl, hquotes, Parameter.quotes_none⟩, hpublic⟩
  | some pair =>
    obtain ⟨g', id'⟩ := pair
    let second := stop + size g'.text
    let system : Parameter := ⟨⟨second, second + size id'.print⟩, id'.print⟩
    have hbehind : stop + size (printBehind (some (g', id'))) = second + size id'.print := by
      simp only [printBehind, Option.map_some, Option.getD_some, Text.size_append, second]
      omega
    rw [hbehind]
    refine ⟨{ keyword := some keyword, publicId := some identifier, systemId := some system }, o.done,
      ⟨rfl, hquotes, Parameter.quotes_some system id' rfl⟩, hpublic.trans ?_⟩
    cases o with
    | entity => exact .spaced .entitySystemId (by decide) g' id' h.right.right.right
    | notationDecl => exact .spaced .notationSystemId (by decide) g' id' h.right.right.right

theorem declares_external {q n : Option Parameter} (o : Owner) (w : External) (h : Stands s j w.print) :
    ∃ (x : ExternalId) (next : DeclarationStage), x.Shows (some w) ∧ Declares s subset
      ⟨o.named, j, o.naming q n {}, none⟩ ⟨next, j + size w.print, o.naming q n x, none⟩ := by
  cases w with
  | systemId g id =>
    obtain ⟨x, hx, hread⟩ := declares_systemId o g id h
    exact ⟨x, o.done, hx, hread⟩
  | publicId g id behind => exact declares_publicId o g id behind h

theorem declares_content {q p : Option Parameter} (c : EntityContent) (h : Stands s j c.print) :
    ∃ (b : Declaration.EntityBody) (next : DeclarationStage), b.percent = q ∧ b.name = p ∧
      Parameter.Quotes b.value c.value? ∧ b.external.Shows c.external? ∧
      Declares s subset ⟨.entityNamed, j, .entity { percent := q, name := p }, none⟩
        ⟨next, j + size c.print, .entity b, none⟩ := by
  cases c with
  | value l =>
    let value : Parameter := ⟨⟨j, j + size l.print⟩, l.print⟩
    exact ⟨{ percent := q, name := p, value := some value }, .entityDone, rfl, rfl,
      Parameter.quotes_some value l rfl, ⟨rfl, Parameter.quotes_none, Parameter.quotes_none⟩,
      .literal .entityValue (by decide) l h⟩
  | external w =>
    obtain ⟨x, next, hx, hread⟩ := declares_external .entity w h
    exact ⟨{ percent := q, name := p, external := x }, next, rfl, rfl, Parameter.quotes_none, hx, hread⟩

theorem declares_percent {p : String} (percent : Option Gap) (h : Stands s j (printPercent percent ++ p))
    (hnext : AtParameter s (j + size (printPercent percent))) :
    ∃ q : Option Parameter, (q.map (·.text) = percent.map fun _ => "%") ∧
      Declares s subset ⟨.entityStart, j, .entity {}, none⟩
        ⟨.entityStart, j + size (printPercent percent), .entity { percent := q }, none⟩ := by
  cases percent with
  | none => exact ⟨none, rfl, .refl _⟩
  | some g =>
    have hsize : j + size (printPercent (some g)) = j + size "%" + size g.text := by
      simp only [printPercent, Option.map_some, Option.getD_some, Text.size_append]
      omega
    rw [hsize] at hnext ⊢
    refine ⟨some ⟨⟨j, j + size "%"⟩, "%"⟩, rfl, .trans ?_ (.space g.toSpace h.left.right hnext.stops)⟩
    exact .parameter h.left.left (by decide) (Lexer.lex_percent g h.left) (by decide)

/-! ## Declarations -/

/-- What is read behind the keyword. -/
def DeclBody.expects : DeclBody → DeclarationStage
  | .element .. => .elementStart
  | .attlist .. => .attlistStart
  | .entity .. => .entityStart
  | .notationDecl .. => .notationStart

def DeclBody.opened : DeclBody → Declaration.Body
  | .element .. => .element {}
  | .attlist .. => .attlist {}
  | .entity .. => .entity {}
  | .notationDecl .. => .notationDecl {}

def DeclBody.kind : DeclBody → Token.DtdKind
  | .element .. => .elementOpen
  | .attlist .. => .attlistOpen
  | .entity .. => .entityOpen
  | .notationDecl .. => .notationOpen

theorem atParameter_body (w : DeclBody) (h : Stands s j w.print) : AtParameter s j := by
  cases w with
  | element n g c => exact .of_name n h.left
  | attlist n ds => exact .of_name n h.left
  | notationDecl n g x => exact .of_name n h.left
  | entity percent n g c =>
    cases percent with
    | none =>
      have hname := h.right.left
      exact .of_name n hname
    | some g' => exact .of_stands h.left.left rfl rfl

theorem Declares.nameGap (kind : Token.DtdKind) (hstage : (stage, kind, next) ∈ Lexer.nameStages) (n : Name)
    (g : Gap) (h : Stands s j (n.text ++ g.text)) (hnext : AtParameter s (j + size n.text + size g.text)) :
    Declares s subset ⟨stage, j, body, none⟩ ⟨next, j + size n.text + size g.text,
      Builder.addParameter kind ⟨⟨j, j + size n.text⟩, n.text⟩ none body, none⟩ :=
  .trans (.name kind hstage n h.left (.of_gap g h.right)) (.space g.toSpace h.right hnext.stops)

theorem declares_body (w : DeclBody) (h : Stands s j w.print) (hend : AtEnd s (j + size w.print)) :
    ∃ (b : Declaration.Body) (next : DeclarationStage) (start : Option Nat), b.Shows w ∧
      Declares s subset ⟨w.expects, j, w.opened, none⟩ ⟨next, j + size w.print, b, start⟩ := by
  cases w with
  | element n g c =>
    have hsize : j + size (DeclBody.element n g c).print = j + size n.text + size g.text + size c.print := by
      simp only [DeclBody.print, Text.size_append]
      omega
    let name : Parameter := ⟨⟨j, j + size n.text⟩, n.text⟩
    have hcontents := h.right.right
    rw [hsize] at hend ⊢
    obtain ⟨b, start, hshows, hread⟩ := declares_contents (p := name) rfl c hcontents hend
    show ∃ b next start, _ ∧ Declares s subset ⟨.elementStart, j, .element {}, none⟩ ⟨next, _, b, start⟩
    exact ⟨_, _, start, .element hshows, .trans (.nameGap .elementName (by decide) n g
      (h.left.append h.right.left) (.of_contents c hcontents)) hread⟩
  | attlist n ds =>
    have hsize : j + size (DeclBody.attlist n ds).print = j + size n.text + size (printDefinitions ds) := by
      rw [DeclBody.print, Text.size_append, Nat.add_assoc]
    let name : Parameter := ⟨⟨j, j + size n.text⟩, n.text⟩
    rw [hsize] at hend ⊢
    have hname : AtEnd s (j + size n.text) := by
      cases ds with
      | nil => exact hend
      | cons d ds => exact .of_gap d.before h.right.left.left
    obtain ⟨defs, hdefs, hread⟩ := declares_definitions (e := some name) (l := []) ds h.right hend
    show ∃ b next start, _ ∧ Declares s subset ⟨.attlistStart, j, .attlist {}, none⟩ ⟨next, _, b, start⟩
    exact ⟨_, _, none, .attlist ⟨rfl, hdefs⟩,
      .trans (.name .attlistElement (by decide) n h.left hname) hread⟩
  | entity percent n g c =>
    let nameAt := j + size (printPercent percent)
    let name : Parameter := ⟨⟨nameAt, nameAt + size n.text⟩, n.text⟩
    have hsize : j + size (DeclBody.entity percent n g c).print =
        nameAt + size n.text + size g.text + size c.print := by
      simp only [DeclBody.print, Text.size_append, nameAt]
      omega
    have hname := h.right
    have hcontent := hname.right.right
    obtain ⟨q, hq, hpercent⟩ := declares_percent percent
      (h.left.append hname.left) (.of_name n hname.left)
    obtain ⟨b, next, hbq, hbn, hvalue, hexternal, hread⟩ :=
      declares_content (q := q) (p := some name) c hcontent
    rw [hsize]
    exact ⟨_, next, none, .entity ⟨hbq ▸ hq, hbn ▸ rfl, hvalue, hexternal⟩, hpercent.trans
      (.trans (.nameGap .entityName (by decide) n g (hname.left.append hname.right.left)
        (.of_content c hcontent)) hread)⟩
  | notationDecl n g x =>
    have hsize : j + size (DeclBody.notationDecl n g x).print =
        j + size n.text + size g.text + size x.print := by
      simp only [DeclBody.print, Text.size_append]
      omega
    let name : Parameter := ⟨⟨j, j + size n.text⟩, n.text⟩
    have hids := h.right.right
    obtain ⟨ids, next, hshows, hread⟩ :=
      declares_external (q := none) (n := some name) .notationDecl x hids
    rw [hsize]
    show ∃ b next start, _ ∧
      Declares s subset ⟨.notationStart, j, .notationDecl {}, none⟩ ⟨next, _, b, start⟩
    exact ⟨_, next, none, .notationDecl ⟨rfl, hshows⟩, .trans (.nameGap .notationName (by decide) n g
      (h.left.append h.right.left) (.of_external x hids)) hread⟩

/-- Under the document type `top`, the declarations from `i` to `j` make `N'` of the nodes `N`. -/
def Adds (s : String) (subset : Bool) (top i j : Nat) (N N' : Array Node) : Prop :=
  ∀ start, ∃ start', Passes s (between subset i) (.between N top start)
    (between subset j) (.between N' top start')

theorem Adds.trans {N' N'' : Array Node} (h : Adds s subset top i j N N')
    (h' : Adds s subset top j k N' N'') : Adds s subset top i k N N'' := by
  intro start
  obtain ⟨start', hpass⟩ := h start
  obtain ⟨start'', hpass'⟩ := h' start'
  exact ⟨start'', hpass.trans hpass'⟩

theorem Adds.space (w : Space) (h : Stands s i w.text)
    (hnext : Stops Lexer.isSpace (rest s (i + size w.text))) :
    Adds s subset top i (i + size w.text) N N := by
  intro start
  have hskip := passes_skip (s := s) (x := between subset i) (b := .between N top start) (.inl rfl)
  rw [Lexer.skipWhile_of_stands w h hnext] at hskip
  exact ⟨start, hskip⟩

theorem step_opener (w : DeclBody) (b : Builder) (inDtd : Bool) :
    Builder.step s b ⟨.dtd w.kind, i, j, none⟩ inDtd =
      b.openDeclaration ⟨.dtd w.kind, i, j, none⟩ w.opened := by
  cases w <;> rfl

theorem size_opener (w : DeclBody) : 0 < size w.opener := by
  cases w <;> exact Text.size_pos (by simp [DeclBody.opener])

theorem mem_declarationOpeners (w : DeclBody) :
    (w.opener, w.kind, w.expects) ∈ Lexer.declarationOpeners := by
  cases w <;> simp [DeclBody.opener, DeclBody.kind, DeclBody.expects, Lexer.declarationOpeners]

theorem adds_markup (w : Decl) (hp : Opened N top) (h : Stands s i w.markup) :
    ∃ n : Node, n.ShowsDecl s top w ∧
      Adds s subset top i (i + size w.markup) N (adopt N top #[N.size] #[n]) := by
  let opened := i + size w.body.opener
  let bodyAt := opened + size w.gap.text
  let bodyEnd := bodyAt + size w.body.print
  let close := bodyEnd + size w.behind.text
  have hsize : i + size w.markup = close + size ">" := by
    simp only [Decl.markup, Text.size_append, close, bodyEnd, bodyAt, opened]
    omega
  have hbody := h.right.right
  have hbehind := hbody.right
  have hclose : Stops Lexer.isSpace (rest s close) := by
    rw [Lexer.rest_of_stands hbehind.right]
    rintro b ⟨⟩
    rfl
  obtain ⟨b, next, start', hshows, hread⟩ := declares_body w.body hbody.left
    (.of_space w.behind hbehind)
  let x : Place := ⟨w.body.expects, opened, w.body.opened, none⟩
  have hparameters : Declares s subset x ⟨next, close, b, start'⟩ :=
    .trans (.space w.gap.toSpace h.right.left (atParameter_body w.body hbody.left).stops)
      (hread.trans (.space w.behind hbehind.left hclose))
  let A := N.modify top (Builder.withChild N.size)
  obtain ⟨ps, m, hm, hpass⟩ := hparameters.passes A top i [] opened (Nat.le_refl _)
  let d : Declaration := { body := b, parameters := ps, closed := true }
  have hslice := h.slice
  rw [hsize] at hslice ⊢
  refine ⟨nodeOf top i (close + size ">") (.declaration d), ⟨⟨d, rfl, hshows, rfl, rfl⟩, rfl, hslice, rfl⟩,
    fun start => ⟨start', ?_⟩⟩
  have hopen : Passes s (between subset i) (.between N top start) (within subset w.body.expects opened)
      (.declaring A top i opened { body := w.body.opened } none) := by
    refine .of_lex (Lexer.lex_declarationOpen (mem_declarationOpeners w.body) h.left) (by simp)
      (Nat.lt_add_of_pos_right (size_opener w.body)) ?_
    rw [step_opener, Builder.openDeclaration_between hp]
  refine hopen.trans (hpass.trans (.of_lex (Lexer.lex_declarationClose hbehind.right) (by simp)
    (Nat.lt_add_of_pos_right (by decide)) ?_))
  rw [Builder.step_declarationClose rfl (Nat.le_trans hm (Nat.le_add_right ..)), adopt_singleton]

theorem adds_decl (w : Decl) (hp : Opened N top) (h : Stands s i w.print) :
    ∃ n : Node, n.ShowsDecl s top w ∧
      Adds s subset top i (i + size w.print) N (adopt N top #[N.size] #[n]) := by
  have hopener : Stops Lexer.isSpace (rest s (i + size w.before.text)) := by
    rw [Lexer.rest_of_stands h.right.left]
    cases w.body <;> (rintro b ⟨⟩; rfl)
  obtain ⟨n, hn, hadds⟩ := adds_markup w hp h.right
  refine ⟨n, hn, ?_⟩
  rw [Decl.print, Text.size_append, ← Nat.add_assoc]
  exact (Adds.space w.before h.left hopener).trans hadds

theorem adds_declarations (ws : List Decl) (hp : Opened N top) (h : Stands s i (printDeclarations ws)) :
    ∃ ns : List Node, List.Forall₂ (Node.ShowsDecl s top) ns ws ∧
      Adds s subset top i (i + size (printDeclarations ws)) N
        (adopt N top (List.range' N.size ns.length).toArray ns.toArray) := by
  induction ws generalizing i N with
  | nil =>
    refine ⟨[], .nil, fun start => ⟨start, ?_⟩⟩
    rw [show (List.range' N.size ([] : List Node).length).toArray = #[] from rfl, adopt_empty]
    exact .refl ..
  | cons w ws ih =>
    obtain ⟨n, hn, hfirst⟩ := adds_decl w hp h.left
    obtain ⟨ns, hns, hothers⟩ := ih (hp.adopt #[N.size] #[n]) h.right
    refine ⟨n :: ns, .cons hn hns, ?_⟩
    rw [size_adopt, adopt_adopt hp.lt_size] at hothers
    have hids : (List.range' N.size (n :: ns).length).toArray =
        #[N.size] ++ (List.range' (N.size + 1) ns.length).toArray := by
      rw [List.length_cons, List.range'_succ]
      simp
    have hnodes : (n :: ns).toArray = #[n] ++ ns.toArray := by simp
    rw [hids, hnodes, printDeclarations, Text.size_append, ← Nat.add_assoc]
    exact hfirst.trans hothers

theorem adds_dtd (subset : Bool) (w : Dtd) (hp : Opened N top) (h : Stands s i w.print)
    (hnext : Stops Lexer.isSpace (rest s (i + size w.print))) :
    ∃ ns : List Node, List.Forall₂ (Node.ShowsDecl s top) ns w.declarations ∧
      Adds s subset top i (i + size w.print) N
        (adopt N top (List.range' N.size ns.length).toArray ns.toArray) := by
  obtain ⟨ns, hns, hadds⟩ := adds_declarations w.declarations hp h.left
  refine ⟨ns, hns, ?_⟩
  rw [Dtd.print, Text.size_append, ← Nat.add_assoc] at hnext ⊢
  exact hadds.trans (.space w.space h.right hnext)

end Written

end XmlAssist
