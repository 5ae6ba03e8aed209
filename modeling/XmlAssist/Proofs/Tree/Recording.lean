import XmlAssist.Proofs.Tree.Parts
import XmlAssist.Proofs.Tree.Pass

/-!
# Every token is kept

The builder keeps the part of every token: a token finds the node that it belongs to. `Detail` says
from the mode of the lexer which node that is, and that the node has no part of that kind yet. Every
token that can be read adds its part to the parts that are kept (`Records.step`), so that a whole
text is kept (`records_tokens`).
-/

namespace XmlAssist.Builder

open Node
open Text (size slice isBoundary)
open Lexer (Reads Falls)

variable {s : String} {top edge stop : Nat} {x y : Lexer} {b b' : Builder} {P E : List Part}
variable {pos : Nat} {spaced : Bool} {mode : Lexer.Mode} {kind : Token.Kind}
variable {fault : Option Token.Fault}

/-- Attributes are read for a node of the kind: the XML declaration, or an element. -/
def Owns (inProlog : Bool) (k : Kind) : Prop :=
  if inProlog then ∃ p, k = .instruction p ∧ p.isProlog = true else ∃ e, k = .element e

/-- An attribute waits for its value, which is the last node. -/
def Awaits (b : Builder) : Prop := ∃ id a, b.openAttribute = some id ∧ id + 1 = b.nodes.size ∧
  b.kindOf id = .attribute a ∧ a.valueSpan = none

/-- Which nodes the tokens that can be read at `x` belong to. -/
def Detail (x : Lexer) (b : Builder) : Prop :=
  match x.mode with
  | .afterStartTagOpen => b.current + 1 = b.nodes.size ∧ ∃ e, b.kindOf b.current = .element e ∧
      e.tagSpan = none ∧ e.endOpen = none ∧ e.endTagSpan = none
  | .inTag | .inProlog => Owns x.inProlog (b.kindOf b.current)
  | .afterAttributeName | .beforeAttributeValue => Owns x.inProlog (b.kindOf b.current) ∧ b.Awaits
  | .declaration _ => b.current + 1 = b.nodes.size
  | _ => True

section modes
variable (hd : Detail x b)
include hd

theorem Detail.afterStartTagOpen (hmode : x.mode = .afterStartTagOpen) :
    b.current + 1 = b.nodes.size ∧ ∃ e, b.kindOf b.current = .element e ∧
      e.tagSpan = none ∧ e.endOpen = none ∧ e.endTagSpan = none := by
  simpa only [Detail, hmode] using hd

theorem Detail.owns (hmode : x.mode = .inTag ∨ x.mode = .inProlog) :
    Owns x.inProlog (b.kindOf b.current) := by
  rcases hmode with hmode | hmode <;> simpa only [Detail, hmode] using hd

theorem Detail.awaits (hmode : x.mode = .afterAttributeName ∨ x.mode = .beforeAttributeValue) :
    Owns x.inProlog (b.kindOf b.current) ∧ b.Awaits := by
  rcases hmode with hmode | hmode <;> simpa only [Detail, hmode] using hd

theorem Detail.inDeclaration {stage : Lexer.DeclarationStage} (hmode : x.mode = .declaration stage) :
    b.current + 1 = b.nodes.size := by
  simpa only [Detail, hmode] using hd

theorem Detail.inTag (hc : x.Consistent) (hmode : x.mode = .inTag) :
    ∃ e, b.kindOf b.current = .element e := by
  have hm := hc.mode
  have ho := hd.owns (.inl hmode)
  rw [Lexer.Agrees, hmode] at hm
  rwa [hm.1] at ho

theorem Detail.inProlog (hc : x.Consistent) (hmode : x.mode = .inProlog) :
    ∃ p, b.kindOf b.current = .instruction p ∧ p.isProlog = true := by
  have hm := hc.mode
  have ho := hd.owns (.inr hmode)
  rw [Lexer.Agrees, hmode] at hm
  rwa [hm.1] at ho

end modes

/-- The builder has kept the token, and is as the lexer at `y` needs it. -/
def Takes (s : String) (P E : List Part) (t : Token) (y : Lexer) (b : Builder) : Prop :=
  b.Records s t.stop (P ++ (t.part s).toList) (E ++ t.endPart.toList) ∧ Detail y b

theorem Records.takes {t : Token} (h : b.Records s t.stop P E) (hpart : t.part s = none)
    (hend : t.endPart = none) (hd : Detail y b) : Takes s P E t y b := by
  refine ⟨?_, hd⟩
  rw [hpart, hend]
  simpa using h

theorem Records.takes_part {t : Token} {p : Part} (h : b.Records s t.stop (P ++ [p]) E)
    (hpart : t.part s = some p) (hend : t.endPart = none) (hd : Detail y b) : Takes s P E t y b := by
  refine ⟨?_, hd⟩
  rw [hpart, hend]
  simpa using h

theorem Fits.nested (h : Fits s x b) :
    ∃ edge, Nested s x.dtdFile.toNat b.nodes b.current edge := by
  have hphase := h.phase
  cases hmode : x.mode with
  | content | dtdContent | doctype _ =>
    simp only [Phase, hmode] at hphase
    exact ⟨_, hphase.nested⟩
  | afterEndTagOpen =>
    simp only [Phase, hmode] at hphase
    obtain ⟨start, -, hpending⟩ := hphase
    exact ⟨_, hpending.nested⟩
  | inEndTag =>
    simp only [Phase, hmode] at hphase
    rcases hphase with ⟨start, -, hpending⟩ | hclosing
    · exact ⟨_, hpending.nested⟩
    · exact ⟨_, hclosing.nested⟩
  | declaration _ =>
    simp only [Phase, hmode] at hphase
    exact ⟨_, hphase.steady.nested⟩
  | _ =>
    simp only [Phase, hmode] at hphase
    exact ⟨_, hphase.1.nested⟩

/-! ## Before new markup -/

theorem Records.forget (h : b.Records s edge P E) :
    { b with openAttribute := none }.Records s edge P E :=
  ⟨h.1, h.2, h.3, h.4, h.5, h.6, h.7, h.8⟩

theorem Records.flushEndTag (h : b.Records s edge P E) (hn : Nested s top b.nodes b.current edge')
    (hstop : isBoundary s stop = true) (close : Option Nat) :
    (b.flushEndTag stop close).Records s edge P E := by
  unfold Builder.flushEndTag
  split
  · rename_i o ho
    obtain ⟨E₀, htake, hperm⟩ := h.take ho
    have happend := htake.append
      (k := .element { endOpen := some o, endClose := close, closed := close.isSome }) hn
      (.of_nil rfl ⟨by simp, by simp⟩ ⟨by simp, fun _ => .inr rfl, id⟩) (h.endTagOpen o ho) hstop
    rw [show Kind.parts _ (.element _) = [] from rfl, List.append_nil] at happend
    exact happend.perm hperm
  · exact h

theorem Records.leaveDeclaration (h : b.Records s edge P E) :
    b.leaveDeclaration.Records s edge P E := by
  unfold Builder.leaveDeclaration
  split
  · rename_i id _
    have h' := h.leave id
    exact ⟨h'.1, h'.2, h'.3, h'.4, h'.5, h'.6, h'.7, h'.8⟩
  · exact h

theorem Records.leaveClosedElement (h : b.Records s edge P E) :
    b.leaveClosedElement.Records s edge P E := by
  unfold Builder.leaveClosedElement
  split
  · split
    · exact h.leave _
    · exact h
  · exact h

theorem Records.kindOf_doctype {id : Nat} (h : b.Records s edge P E) (hid : b.doctype = some id) :
    ∃ d, b.kindOf id = .doctype d := by
  obtain ⟨n, hn, hd⟩ := h.doctype id hid
  rw [kindOf_eq hn]
  cases hk : n.kind with
  | doctype d => exact ⟨d, rfl⟩
  | _ => simp [isDoctype, doctype?, hk] at hd

theorem Records.leaveDoctype (h : b.Records s edge P E) (hle : edge ≤ stop)
    (hstop : isBoundary s stop = true) : (b.leaveDoctype stop).Records s stop P E := by
  have h := h.leaveDeclaration
  unfold Builder.leaveDoctype
  generalize b.leaveDeclaration = c at h ⊢
  dsimp only
  split
  · rename_i id hid
    obtain ⟨d, hd⟩ := h.kindOf_doctype hid
    have ht : c.kindOf id ≠ .text := by simp [hd]
    have h' := (h.mono hle).extend ht hstop
    refine ⟨h'.1, h'.2, h'.3, ?_, h'.5, by simp, h'.7, h'.8⟩
    show (c.extend id stop).kindOf (c.parentOf id) ≠ .text
    rw [kindOf_extend]
    exact h.parents id
  · exact h.mono hle

theorem Records.beforeMarkup (h : b.Records s edge P E) (hn : Nested s top b.nodes b.current edge')
    (hstop : isBoundary s edge = true) (inDtd : Bool) :
    (b.beforeMarkup edge inDtd).Records s edge P E := by
  have hsettle : (b.settle edge).Records s edge P E :=
    (h.forget.flushEndTag hn hstop none).leaveDeclaration
  rw [beforeMarkup_eq]
  apply Records.leaveClosedElement
  split
  · exact hsettle.leaveDoctype (Nat.le_refl _) hstop
  · exact hsettle

/-! ## New markup -/

theorem Records.step_content (hc : x.Consistent) (hf : Fits s x b) (h : b.Records s x.pos P E)
    (hy : x.YieldsToContent) (hk : Lexer.StartsContent kind mode) (hlt : x.pos < pos)
    (hx : isBoundary s x.pos = true) (hpos : isBoundary s pos = true) {inDtd : Bool}
    (hin : inDtd = false) :
    Takes s P E ⟨kind, x.pos, pos, fault⟩
      ({ x with inProlog := false, inSubset := false }.moved pos spaced mode)
      (step s b ⟨kind, x.pos, pos, fault⟩ inDtd) := by
  subst hin
  obtain ⟨hsteady, -⟩ := hf.beforeContent hc hy
  obtain ⟨edge', hn⟩ := hf.nested
  have hle := Nat.le_of_lt hlt
  have hbefore := h.beforeMarkup hn hx false
  have hopen (k : Kind) (hk : k.Sound s pos) (ht : k ≠ .text) :=
    (hbefore.mono hle).openNode hsteady.nested hk ht hx hpos
  rcases hk with ⟨rfl, rfl⟩ | hk
  · rw [step_text]
    exact ⟨(hbefore.mono hle).append (k := .text) hsteady.nested (.of_nil rfl trivial trivial) hx
      hpos, trivial⟩
  · simp only [Lexer.contentOpeners, List.map_cons, List.map_nil, List.mem_cons, Prod.mk.injEq,
      List.not_mem_nil, or_false] at hk
    rcases hk with ⟨rfl, rfl⟩ | ⟨rfl, rfl⟩ | ⟨rfl, rfl⟩ | ⟨rfl, rfl⟩ | ⟨rfl, rfl⟩ | ⟨rfl, rfl⟩
    · rw [step_commentOpen]
      exact ⟨hopen (.comment {}) (.of_nil rfl trivial trivial) (by simp), trivial⟩
    · rw [step_cdataOpen]
      exact ⟨hopen (.cdata {}) (.of_nil rfl trivial trivial) (by simp), trivial⟩
    · rw [step_doctypeOpen]
      have h' := hopen (.doctype {}) (sound_doctype.mpr (by rintro _ ⟨⟩)) (by simp)
      refine ⟨⟨h'.1, h'.2, h'.3, h'.4, h'.5, ?_, h'.7, h'.8⟩, trivial⟩
      rintro _ ⟨⟩
      exact ⟨_, getElem?_openNode .., rfl⟩
    · rw [step_endTagOpen]
      have h' := (hbefore.mono hle).wait hsteady.endTagOpen hx
      exact ⟨by simpa [Token.part, Token.endPart] using h', trivial⟩
    · rw [step_instructionOpen]
      exact ⟨hopen (.instruction {}) (.of_nil rfl rfl trivial) (by simp), trivial⟩
    · rw [step_startTagOpen]
      refine ⟨hopen (.element { startOpen := some x.pos })
        (.of_nil rfl ⟨by simp, by simp⟩ ⟨by simp, by simp⟩) (by simp), ?_, ?_⟩
      · rw [openNode_current]
        exact (size_grow ..).symm
      · exact ⟨_, kindOf_openNode .., rfl, rfl, rfl⟩

theorem Records.openDeclaration {t : Token} {body : Declaration.Body} (h : b.Records s t.start P E)
    (hsteady : b.leaveDeclaration.Steady s top t.start) (hbody : body.stored = [])
    (hlt : t.start < t.stop) (hstart : isBoundary s t.start = true)
    (hstop : isBoundary s t.stop = true) :
    (b.openDeclaration t body).Records s t.stop (P ++ []) (E ++ []) ∧
      (b.openDeclaration t body).current + 1 = (b.openDeclaration t body).nodes.size := by
  unfold Builder.openDeclaration
  rw [hsteady.leaveClosedElement_eq]
  have h' := (h.leaveDeclaration.mono (Nat.le_of_lt hlt)).openNode (k := .declaration { body })
    hsteady.nested (sound_declaration.mpr (by simp [Declaration.stored, hbody])) (by simp) hstart
    hstop
  refine ⟨⟨h'.1, h'.2, h'.3, h'.4, h'.5, h'.6, h'.7, nofun⟩, ?_⟩
  show (b.leaveDeclaration.openNode _ _).current + 1 = _
  rw [openNode_current]
  exact (size_grow ..).symm

theorem Records.step_declaration (hc : x.Consistent) (hf : Fits s x b) (h : b.Records s x.pos P E)
    (hy : x.YieldsToDeclaration) (hk : Lexer.StartsDeclaration kind mode) (hlt : x.pos < pos)
    (hx : isBoundary s x.pos = true) (hpos : isBoundary s pos = true) {inDtd : Bool}
    (hin : inDtd = true) :
    Takes s P E ⟨kind, x.pos, pos, fault⟩ ({ x with inProlog := false }.moved pos spaced mode)
      (step s b ⟨kind, x.pos, pos, fault⟩ inDtd) := by
  subst hin
  obtain ⟨hsteady, -⟩ := hf.beforeDeclaration hc hy
  obtain ⟨edge', hn⟩ := hf.nested
  have hle := Nat.le_of_lt hlt
  have hbefore := h.beforeMarkup hn hx true
  have hopen (k : Kind) (hk : k.Sound s pos) (ht : k ≠ .text) :=
    (hbefore.mono hle).openNode hsteady.nested hk ht hx hpos
  have hnew (body : Declaration.Body) (hbody : body.stored = []) :=
    h.openDeclaration (t := ⟨kind, x.pos, pos, fault⟩) (hf.leaveDeclaration hy).1 hbody hlt hx hpos
  rcases hk with ⟨rfl, rfl⟩ | hk
  · rw [step_text]
    exact ⟨(hbefore.mono hle).append (k := .text) hsteady.nested (.of_nil rfl trivial trivial) hx
      hpos, trivial⟩
  · simp only [Lexer.dtdOpeners, List.map_cons, List.map_nil, List.mem_cons, Prod.mk.injEq,
      List.not_mem_nil, or_false] at hk
    rcases hk with ⟨rfl, rfl⟩ | ⟨rfl, rfl⟩ | ⟨rfl, rfl⟩ | ⟨rfl, rfl⟩ | ⟨rfl, rfl⟩ | ⟨rfl, rfl⟩
    · rw [step_dtd]
      exact hnew _ rfl
    · rw [step_dtd]
      exact hnew _ rfl
    · rw [step_dtd]
      exact hnew _ rfl
    · rw [step_dtd]
      exact hnew _ rfl
    · rw [step_commentOpen]
      exact ⟨hopen (.comment {}) (.of_nil rfl trivial trivial) (by simp), trivial⟩
    · rw [step_instructionOpen]
      exact ⟨hopen (.instruction {}) (.of_nil rfl rfl trivial) (by simp), trivial⟩

/-! ## Inside a tag -/

section tag
variable {i j : Nat} (h : b.Records s i P E) (hle : i ≤ j) (hj : isBoundary s j = true)
variable (fault : Option Token.Fault) (inDtd : Bool)
include h hle hj

theorem Records.startTagName {e : Element} (hn : Nested s top b.nodes b.current edge)
    (hkind : b.kindOf b.current = .element e) (hlast : b.current + 1 = b.nodes.size)
    (hspan : e.tagSpan = none) (hend : e.endOpen = none) (hendSpan : e.endTagSpan = none)
    (hi : isBoundary s i = true) :
    (step s b ⟨.startTagName, i, j, fault⟩ inDtd).Records s j (P ++ [.startTagName ⟨i, j⟩]) E ∧
      Owns false ((step s b ⟨.startTagName, i, j, fault⟩ inDtd).kindOf
        (step s b ⟨.startTagName, i, j, fault⟩ inDtd).current) := by
  rw [step_startTagName hkind]
  have h' := h.update hkind (writes_startTagName hspan hend hendSpan ⟨hle, Nat.le_refl _, hi, hj⟩)
    (.inr hlast) hle hj
  rw [List.append_nil] at h'
  exact ⟨h', _, kindOf_update_current hn⟩

theorem Records.startTagClose (ho : Owns false (b.kindOf b.current)) :
    (step s b ⟨.startTagClose, i, j, fault⟩ inDtd).Records s j P E := by
  obtain ⟨e, he⟩ := ho
  rw [step_startTagClose he]
  exact h.forget.adjust he (writes_element hle rfl rfl rfl rfl rfl id .inl) hle hj

theorem Records.startTagSelfClose (ho : Owns false (b.kindOf b.current)) :
    (step s b ⟨.startTagSelfClose, i, j, fault⟩ inDtd).Records s j P E := by
  obtain ⟨e, he⟩ := ho
  rw [step_startTagSelfClose he]
  exact h.forget.finish he (writes_element hle rfl rfl rfl rfl rfl (fun _ => rfl) .inl) hle hj

theorem Records.unknown :
    (step s b ⟨.unknown, i, j, fault⟩ inDtd).Records s j P E ∧
      (step s b ⟨.unknown, i, j, fault⟩ inDtd).kindOf
        (step s b ⟨.unknown, i, j, fault⟩ inDtd).current = b.kindOf b.current := by
  cases hkind : b.kindOf b.current with
  | element e =>
    simp only [step, tagToken, hkind]
    split
    · exact ⟨(h.mono hle).extend h.current hj, (kindOf_extend ..).trans hkind⟩
    · exact ⟨h.mono hle, hkind⟩
  | _ =>
    simp only [step, tagToken, hkind]
    exact ⟨h.mono hle, trivial⟩

theorem Records.endTagClose (hpending : b.endTagOpen = none) {e : Element}
    (he : b.kindOf b.current = .element e) (hclosed : e.closed = true)
    (hend : e.endOpen.isSome = true) :
    (step s b ⟨.endTagClose, i, j, fault⟩ inDtd).Records s j P E := by
  rw [step_endTagClose he hpending hclosed hend]
  exact h.finish he (writes_element hle rfl rfl rfl rfl rfl id fun _ => .inr hclosed) hle hj

end tag

/-! ## The name of an end tag -/

theorem element_of_isOpenAs {name : String} {id : Nat} (h : b.isOpenAs name id = true) :
    ∃ e, b.kindOf id = .element e ∧ e.closed = false ∧ e.tag = some name := by
  unfold isOpenAs at h
  split at h
  · rename_i e he
    simp only [Bool.and_eq_true, Bool.not_eq_true', beq_iff_eq] at h
    exact ⟨e, he, h⟩
  · cases h

theorem kindOf_foldl_extend (b : Builder) (ids : List Nat) (stop id : Nat) :
    (ids.foldl (fun b id => b.extend id stop) b).kindOf id = b.kindOf id := by
  rw [foldl_extend]
  exact kindOf_reach ..

theorem Records.closeAt {start id : Nat} {t : Token} {inner : List Nat} {e : Element}
    (h : b.Records s t.start P E) (hstart : isBoundary s start = true) (hsp : Lies s t.stop t.span)
    (hinner : ∀ c ∈ inner, b.kindOf c ≠ .text) (he : b.kindOf id = .element e)
    (hopen : e.closed = false) (htag : e.tag = some (slice s t.start t.stop)) :
    (b.closeAt inner id start t).Records s t.stop P
      (E ++ [.endTagOpen start, .endTagName t.span]) := by
  have hfold := h.foldl_extend hinner hstart
  have he' := (kindOf_foldl_extend b inner start id).trans he
  have hsound := hfold.sound_kindOf id
  rw [he'] at hsound
  have h' := hfold.update he' (writes_endTagName (o := start) hsp.start_le hopen htag hsp hsound)
    (.inl rfl) hsp.start_le hsp.stop
  rw [List.append_nil] at h'
  unfold Builder.closeAt
  dsimp only
  rw [he']
  exact h'.goTo (by simp [kindOf_update he'])

theorem Records.endTag {start : Nat} {t : Token} (h : b.Records s t.start P E)
    (hn : Nested s top b.nodes b.current edge) (ho : b.endTagOpen = some start)
    (hsp : Lies s t.stop t.span) :
    (endTag s b t).Records s t.stop P (E ++ [.endTagName t.span]) := by
  have hstart := h.endTagOpen start ho
  -- the `</` that waited goes to a node now, which may be far from the last one
  obtain ⟨E₀, htake, hperm⟩ := h.take ho
  have hends : (E₀ ++ [Part.endTagOpen start, .endTagName t.span]).Perm
      (E ++ [.endTagName t.span]) := by
    have := hperm.append_right [Part.endTagName t.span]
    rwa [List.append_assoc] at this
  refine Records.perm ?_ hends
  rw [endTag_eq ho]
  dsimp only
  split
  · rename_i id hid
    obtain ⟨e, he, hopen, htag⟩ := element_of_isOpenAs (List.find?_some hid)
    exact htake.closeAt hstart hsp
      (fun c hc => htake.kindOf_of_mem_chain ((List.takeWhile_sublist _).subset hc)) he hopen htag
  · have hle : t.start ≤ t.stop := hsp.start_le
    have hstop : isBoundary s t.stop = true := hsp.stop
    have h' := (htake.mono hle).openNode
      (k := .element (strayElement (slice s t.start t.stop) start t)) hn
      ⟨by simp [Kind.spans, strayElement, hsp], by simp [Kind.Quotes, strayElement, Token.span],
        by simp [Kind.Closes, strayElement]⟩ (by simp) hstart hstop
    rwa [show Kind.parts _ (.element (strayElement ..)) = [] from rfl, List.append_nil] at h'

/-! ## Attributes -/

theorem Owns.withAttribute {inProlog : Bool} {k : Kind} (h : Owns inProlog k) (id : Nat)
    {i j : Nat} (hle : i ≤ j) :
    ∃ k', withAttribute id k = some k' ∧ Owns inProlog k' ∧ Writes s i j k k' [] [] := by
  cases inProlog with
  | true =>
    obtain ⟨p, rfl, hp⟩ := h
    exact ⟨_, if_pos hp, ⟨_, rfl, hp⟩,
      writes_instruction (i := i) hle (.inl ⟨rfl, rfl⟩) fun _ => .inl⟩
  | false =>
    obtain ⟨e, rfl⟩ := h
    exact ⟨_, rfl, ⟨_, rfl⟩, writes_element hle rfl rfl rfl rfl rfl (fun hc => hc) .inl⟩

theorem Owns.ne_attribute {inProlog : Bool} {k : Kind} {a : Attribute} (h : Owns inProlog k) :
    k ≠ .attribute a := by
  cases inProlog with
  | true =>
    obtain ⟨p, rfl, -⟩ := h
    simp
  | false =>
    obtain ⟨e, rfl⟩ := h
    simp

def attributeNode (s : String) (t : Token) (owner : Nat) : Node :=
  { span := t.span
    parent := some owner
    kind := .attribute { name := slice s t.start t.stop, nameSpan := t.span } }

theorem attributeName_eq {t : Token} {k : Kind}
    (h : withAttribute b.nodes.size (b.kindOf b.current) = some k) : attributeName s b t =
      { b with
        nodes := XmlAssist.grow b.nodes b.current (withKind k t.stop) (attributeNode s t b.current)
        openAttribute := some b.nodes.size } := by
  simp only [attributeName, h]
  rfl

def markDelimiter (a : Attribute) (n : Node) : Node :=
  { n with kind := .attribute { a with hasDelimiter := true } }

theorem assign_eq {t : Token} {id : Nat} {a : Attribute} (hid : b.openAttribute = some id)
    (ha : b.kindOf id = .attribute a) :
    assign b t = (b.modify id (markDelimiter a)).extend b.current t.stop := by
  simp only [assign, hid, ha]
  rfl

theorem attributeValue_eq {t : Token} {id : Nat} {a : Attribute} (hid : b.openAttribute = some id)
    (ha : b.kindOf id = .attribute a) : attributeValue s b t =
      ({ b with openAttribute := none }.update id
        (.attribute (a.withValue (slice s t.start t.stop) t.span)) t.stop).extend b.current
        t.stop := by
  have ha' : { b with openAttribute := none }.kindOf id = .attribute a := ha
  simp only [attributeValue, hid, ha']
  rfl

section attributes
variable {t : Token} {inProlog : Bool} (h : b.Records s t.start P E) (hle : t.start ≤ t.stop)
variable (hstop : isBoundary s t.stop = true) (ho : Owns inProlog (b.kindOf b.current))
include h hle hstop ho

theorem Records.attributeName (hn : Nested s top b.nodes b.current edge)
    (hstart : isBoundary s t.start = true) :
    (attributeName s b t).Records s t.stop (P ++ [.attributeName t.span]) E ∧
      Owns inProlog ((attributeName s b t).kindOf (attributeName s b t).current) ∧
      (attributeName s b t).Awaits := by
  -- the owner gets one more number, and the attribute is a new node behind all others
  obtain ⟨k, hk, ho', hw⟩ := ho.withAttribute (s := s) b.nodes.size hle
  obtain ⟨n, hn', -⟩ := exists_node (k := b.kindOf b.current) rfl hw.inner
  have hne : b.current ≠ b.nodes.size := Nat.ne_of_lt (lt_size_of_getElem? hn')
  have hnew : (attributeNode s t b.current).Sound s t.stop :=
    ⟨hstart, hstop, by simpa [attributeNode, Kind.spans] using ⟨hle, Nat.le_refl _, hstart, hstop⟩,
      ⟨rfl, rfl⟩, trivial⟩
  have hgrow := h.grow (f := withKind k t.stop) hn hle
    (fun m hm => hw.change_update (kindOf_eq hm).symm hstop) hnew rfl
  rw [show Node.ends _ = [] from rfl, List.append_nil] at hgrow
  rw [attributeName_eq hk]
  refine ⟨⟨hgrow.1, hgrow.2, hgrow.3, hgrow.4, hgrow.5, hgrow.6, hgrow.7, hgrow.8⟩, ?_, _, _, rfl,
    (size_grow ..).symm, kindOf_eq (n := attributeNode s t b.current) ?_, rfl⟩
  · rw [kindOf_eq (n := withKind k t.stop n)]
    · exact ho'
    · show (XmlAssist.grow ..)[b.current]? = _
      simp [getElem?_grow, hne, hn']
  · simp [getElem?_grow]

theorem Records.assign (ha : b.Awaits) :
    (assign b t).Records s t.stop P E ∧
      Owns inProlog ((assign b t).kindOf (assign b t).current) ∧ (assign b t).Awaits := by
  obtain ⟨id, a, hid, hlast, hkind, hnone⟩ := ha
  obtain ⟨n, hn, hk⟩ := exists_node hkind (by simp)
  have hw : Writes s t.start t.start (.attribute a)
      (.attribute { a with hasDelimiter := true }) [] [] :=
    ⟨by simp, by simp, by simp, by simp, fun _ => by simp [Kind.parts], rfl,
      fun h => ⟨h.1, h.2, h.3⟩⟩
  have hmodify := h.modify (f := markDelimiter a) (Nat.le_refl _)
    (fun m hm => hw.change ((kindOf_eq hm).symm.trans hkind) (fun hb => hb) fun hb => hb)
    (.inr ⟨rfl, rfl⟩) (.inl rfl)
  rw [List.append_nil, List.append_nil] at hmodify
  rw [assign_eq hid hkind]
  refine ⟨(hmodify.mono hle).extend hmodify.current hstop, ?_, id,
    { a with hasDelimiter := true }, hid, ?_, ?_, hnone⟩
  · show Owns inProlog (kindOf _ b.current)
    rw [kindOf_extend, kindOf_modify_of_ne]
    · exact ho
    · rintro rfl
      exact ho.ne_attribute hkind
  · simpa [Builder.extend, Builder.modify] using hlast
  · rw [kindOf_extend]
    exact kindOf_eq (n := markDelimiter a n) (by simp [Builder.modify, Array.getElem?_modify, hn])

theorem Records.attributeValue (ha : b.Awaits) (hstart : isBoundary s t.start = true) :
    (attributeValue s b t).Records s t.stop (P ++ [.attributeValue t.span]) E ∧
      Owns inProlog ((attributeValue s b t).kindOf (attributeValue s b t).current) := by
  obtain ⟨id, a, hid, hlast, hkind, hnone⟩ := ha
  have hupdate := h.forget.update hkind
    (writes_attributeValue hle hnone ⟨hle, Nat.le_refl _, hstart, hstop⟩) (.inr hlast) hle hstop
  rw [List.append_nil] at hupdate
  rw [attributeValue_eq hid hkind]
  refine ⟨hupdate.extend hupdate.current hstop, ?_⟩
  -- the attribute is not its own owner, so the owner is what it was
  show Owns inProlog (kindOf _ b.current)
  rw [kindOf_extend, Builder.update, kindOf_modify_of_ne]
  · exact ho
  · rintro rfl
    exact ho.ne_attribute hkind

end attributes

/-! ## Inside a comment, a CDATA section or an instruction -/

section sections
variable {i j : Nat} (h : b.Records s i P E) (hle : i ≤ j) (hj : isBoundary s j = true)
variable (fault : Option Token.Fault) (inDtd : Bool)
include h hle hj

theorem Records.enclosedText {c : Enclosed}
    (hc : b.kindOf b.current = .comment c ∨ b.kindOf b.current = .cdata c)
    (hk : kind = .commentText ∨ kind = .cdataText) (hi : isBoundary s i = true) :
    (step s b ⟨kind, i, j, fault⟩ inDtd).Records s j P E := by
  have hsp : Lies s j ⟨i, j⟩ := ⟨hle, Nat.le_refl _, hi, hj⟩
  rcases hc with hc | hc
  · rw [step_text_of_comment hc hk]
    exact h.adjust hc (writes_enclosed hle (.inl rfl) fun sp he => .inr (Option.some.inj he ▸ hsp)) hle hj
  · rw [step_text_of_cdata hc hk]
    exact h.adjust hc (writes_enclosed hle (.inr rfl) fun sp he => .inr (Option.some.inj he ▸ hsp)) hle hj

theorem Records.enclosedClose {c : Enclosed}
    (hc : b.kindOf b.current = .comment c ∨ b.kindOf b.current = .cdata c)
    (hk : kind = .commentClose ∨ kind = .cdataClose) :
    (step s b ⟨kind, i, j, fault⟩ inDtd).Records s j P E := by
  rcases hc with hc | hc
  · rw [step_close_of_comment hc hk]
    exact h.finish hc (writes_enclosed hle (.inl rfl) fun _ => .inl) hle hj
  · rw [step_close_of_cdata hc hk]
    exact h.finish hc (writes_enclosed hle (.inr rfl) fun _ => .inl) hle hj

section instruction
variable {p : Instruction} (hp : b.kindOf b.current = .instruction p)
include hp

theorem Records.prologName (hi : isBoundary s i = true) :
    (step s b ⟨.prologName, i, j, fault⟩ inDtd).Records s j P E ∧
      Owns true ((step s b ⟨.prologName, i, j, fault⟩ inDtd).kindOf
        (step s b ⟨.prologName, i, j, fault⟩ inDtd).current) := by
  rw [step_prologName hp]
  exact ⟨h.adjust hp (writes_instruction hle (.inr ⟨rfl, rfl, hle, Nat.le_refl _, hi, hj⟩)
    fun _ => .inl) hle hj, _, kindOf_update hp (by simp), rfl⟩

theorem Records.instructionTarget (hi : isBoundary s i = true) :
    (step s b ⟨.instructionTarget, i, j, fault⟩ inDtd).Records s j P E := by
  rw [step_instructionTarget hp]
  exact h.adjust hp (writes_instruction hle (.inr ⟨rfl, rfl, hle, Nat.le_refl _, hi, hj⟩)
    fun _ => .inl) hle hj

theorem Records.instructionContent (hi : isBoundary s i = true) :
    (step s b ⟨.instructionContent, i, j, fault⟩ inDtd).Records s j P E := by
  have hsp : Lies s j ⟨i, j⟩ := ⟨hle, Nat.le_refl _, hi, hj⟩
  rw [step_instructionContent hp]
  exact h.adjust hp (writes_instruction (i := i) hle (.inl ⟨rfl, rfl⟩)
    fun sp he => .inr (Option.some.inj he ▸ hsp)) hle hj

theorem Records.instructionClose (hk : kind = .instructionClose ∨ kind = .prologClose) :
    (step s b ⟨kind, i, j, fault⟩ inDtd).Records s j P E := by
  rw [step_close_of_instruction hp hk]
  exact h.forget.finish hp (writes_instruction (i := i) hle (.inl ⟨rfl, rfl⟩) fun _ => .inl) hle hj

end instruction

end sections

/-! ## Inside a document type -/

/-- The content model of a declaration starts with its `(`. -/
def markContent (b : Builder) (k : Token.DtdKind) (t : Token) : Builder :=
  if k = .contentOpen then { b with contentStart := some t.start } else b

/-- The content model up to the end of the token. -/
def contentParameter (s : String) (b : Builder) (t : Token) : Option Parameter :=
  b.contentStart.map fun start => ⟨⟨start, t.stop⟩, slice s start t.stop⟩

theorem markContent_nodes (k : Token.DtdKind) (t : Token) : (b.markContent k t).nodes = b.nodes := by
  unfold markContent
  split <;> rfl

theorem markContent_current (k : Token.DtdKind) (t : Token) :
    (b.markContent k t).current = b.current := by
  unfold markContent
  split <;> rfl

theorem dtdToken_parameter {k : Token.DtdKind} {t : Token} {inDtd : Bool} (h : k.isParameter = true) :
    dtdToken s b k t inDtd = declarationParameter s b k t := by
  simp only [Token.DtdKind.isParameter, Bool.and_eq_true, decide_eq_true_eq] at h
  obtain ⟨hk, hu⟩ := h
  simp only [Lexer.declarationParameters, List.mem_cons, List.not_mem_nil, or_false] at hk
  rcases hk with rfl | rfl | rfl | rfl | rfl | rfl | rfl | rfl | rfl | rfl | rfl | rfl | rfl | rfl |
    rfl | rfl | rfl | rfl | rfl | rfl | rfl | rfl
  case inr.inr.inr.inr.inr.inr.inr.inr.inr.inr.inr.inr.inr.inr.inr.inr.inr.inr.inr.inr.inr =>
    exact absurd rfl hu
  all_goals rfl

section dtd
variable {t : Token} (h : b.Records s t.start P E) (hle : t.start ≤ t.stop)
variable (hstart : isBoundary s t.start = true) (hstop : isBoundary s t.stop = true) (inDtd : Bool)

include hle hstart hstop in
theorem sound_parameter : (parameter s t).Sound s t.stop :=
  ⟨⟨hle, Nat.le_refl _, hstart, hstop⟩, rfl⟩

include h hle hstop

theorem Records.onDoctype {g : Doctype → Doctype}
    (hg : ∀ d, ∀ p ∈ (g d).stored, p ∈ d.stored ∨ p.Sound s t.stop) :
    (b.onDoctype t g).Records s t.stop P E := by
  unfold Builder.onDoctype
  split
  · rename_i id hid
    obtain ⟨d, hd⟩ := h.kindOf_doctype hid
    rw [hd]
    exact h.adjust hd (writes_doctype hle (hg d)) hle hstop
  · exact h.mono hle

theorem Records.doctypeClose :
    (dtdToken s b .doctypeClose t inDtd).Records s t.stop P E := by
  have hleft := h.leaveDeclaration
  simp only [dtdToken]
  generalize b.leaveDeclaration = c at hleft
  split
  · rename_i id hid
    have h' := (hleft.onDoctype (g := fun d => { d with closed := true }) hle hstop
      fun _ _ => .inl).leave id
    exact ⟨h'.1, h'.2, h'.3, h'.4, h'.5, by simp, h'.7, h'.8⟩
  · exact hleft.mono hle

omit h in
include hstart in
theorem sound_joinUnrecognized {first : Option Parameter} {q : Parameter}
    (hfirst : ∀ p, first = some p → p.Sound s t.start)
    (hq : joinUnrecognized s first t = some q) : q.Sound s t.stop := by
  unfold joinUnrecognized at hq
  split at hq
  · rename_i p
    obtain rfl := Option.some.inj hq
    have hp := (hfirst p rfl).lies
    have hp_le : p.span.start ≤ t.stop := Nat.le_trans hp.start_le (Nat.le_trans hp.stop_le hle)
    exact ⟨⟨hp_le, Nat.le_refl _, hp.start, hstop⟩, rfl⟩
  · obtain rfl := Option.some.inj hq
    exact sound_parameter hle hstart hstop

include hstart

theorem Records.doctypeUnrecognized (hnone : b.declaration = none) :
    (unrecognized s b t).Records s t.stop P E := by
  unfold Builder.unrecognized
  rw [hnone, Option.none_or]
  split
  · rename_i id hid
    obtain ⟨d, hd⟩ := h.kindOf_doctype hid
    have hsound := h.sound_kindOf id
    rw [hd, sound_doctype] at hsound
    rw [hd]
    refine h.adjust hd (writes_doctype hle fun p hp => ?_) hle hstop
    simp only [Doctype.stored, List.mem_append, Option.mem_toList] at hp hsound ⊢
    rcases hp with hp | hp
    · exact .inl (.inl hp)
    · exact .inr (sound_joinUnrecognized hle hstart hstop (fun p hp => hsound p (.inr hp)) hp)
  · exact h.mono hle

omit h hle hstart hstop in
theorem part_eq_none {k : Token.DtdKind} (hk : k ∈ Lexer.doctypeParameters) (ht : t.kind = .dtd k) :
    t.part s = none := by
  have hparameter : ∀ k ∈ Lexer.doctypeParameters, k.isParameter = false := by decide
  simp [Token.part, ht, hparameter k hk]

theorem Records.doctypeParameter {k : Token.DtdKind} (hk : k ∈ Lexer.doctypeParameters)
    (hnone : b.declaration = none) : (dtdToken s b k t inDtd).Records s t.stop P E := by
  have hon (k : Token.DtdKind) :
      (b.onDoctype t (addDoctypeParameter k (parameter s t))).Records s t.stop P E :=
    h.onDoctype hle hstop fun d p hp =>
      (mem_stored_addDoctypeParameter hp).imp_right fun (hq : p = _) =>
        hq ▸ sound_parameter hle hstart hstop
  simp only [Lexer.doctypeParameters, List.mem_cons, List.not_mem_nil, or_false] at hk
  rcases hk with rfl | rfl | rfl | rfl | rfl | rfl
  case inr.inr.inr.inr.inr => exact h.doctypeUnrecognized hle hstart hstop hnone
  all_goals exact hon _

omit h hle hstop hstart in
theorem declarationParameter_eq {k : Token.DtdKind} {id : Nat} {d : Declaration}
    (hdecl : b.declaration = some id) (hd : b.kindOf id = .declaration d) :
    declarationParameter s b k t = (b.markContent k t).update id (.declaration
      { d with
        body := addParameter k (parameter s t) (contentParameter s (b.markContent k t) t) d.body
        parameters := d.parameters ++ [parameter s t] }) t.stop := by
  unfold declarationParameter
  split
  · rename_i hnone
    rw [hdecl] at hnone
    cases hnone
  · rename_i id' hid
    obtain rfl := Option.some.inj (hdecl.symm.trans hid)
    have hd' : (b.markContent k t).kindOf id = .declaration d := by
      rwa [kindOf, markContent_nodes]
    dsimp only
    split
    · rename_i d' hkind
      obtain rfl : d' = d := Kind.declaration.inj (hkind.symm.trans hd')
      rfl
    · rename_i hother
      exact absurd hd' (hother d)

omit hle hstop in
theorem Records.markContent (k : Token.DtdKind) : (b.markContent k t).Records s t.start P E := by
  unfold Builder.markContent
  split
  · refine { h with contentStart := ?_ }
    rintro _ ⟨⟩
    exact ⟨hstart, Nat.le_refl _⟩
  · exact h

section declaration
variable {d : Declaration} (hdecl : b.declaration = some b.current)
variable (hd : b.kindOf b.current = .declaration d)
include hdecl hd

theorem Records.declarationParameter {k : Token.DtdKind} (hlast : b.current + 1 = b.nodes.size) :
    (declarationParameter s b k t).Records s t.stop (P ++ [.parameter (parameter s t)]) E ∧
      (declarationParameter s b k t).current + 1 = (declarationParameter s b k t).nodes.size := by
  -- the content model reaches from its `(` to the end of the parameter, also where that is new
  have hmark := h.markContent hstart k
  have hparameter := sound_parameter hle hstart hstop
  rw [declarationParameter_eq hdecl hd]
  have hd' : (b.markContent k t).kindOf b.current = .declaration d := by
    rwa [kindOf, markContent_nodes]
  have hstored : ∀ p ∈ Declaration.stored
      { d with
        body := addParameter k (parameter s t) (contentParameter s (b.markContent k t) t) d.body
        parameters := d.parameters ++ [parameter s t] },
      p ∈ d.stored ∨ p.Sound s t.stop := by
    intro p hp
    simp only [Declaration.stored, List.mem_append, List.mem_singleton] at hp ⊢
    rcases hp with (hp | hp | rfl) | hp
    · rcases mem_stored_addParameter hp with hp | rfl | hp
      · exact .inl (.inl (.inl hp))
      · exact .inr hparameter
      · obtain ⟨start, hcontent, rfl⟩ := Option.map_eq_some_iff.mp hp
        obtain ⟨hb, hle'⟩ := hmark.contentStart start hcontent
        exact .inr ⟨⟨Nat.le_trans hle' hle, Nat.le_refl _, hb, hstop⟩, rfl⟩
    · exact .inl (.inl (.inr hp))
    · exact .inr hparameter
    · exact .inl (.inr hp)
  have h' := hmark.update hd' (writes_declaration hle hstored rfl)
    (.inr (by rwa [markContent_nodes])) hle hstop
  rw [List.append_nil] at h'
  refine ⟨h', ?_⟩
  simpa [Builder.update, Builder.modify, markContent_nodes, markContent_current] using hlast

theorem Records.unrecognized (hlast : b.current + 1 = b.nodes.size) :
    (unrecognized s b t).Records s t.stop P E ∧
      (unrecognized s b t).current + 1 = (unrecognized s b t).nodes.size := by
  have hsound := h.sound_kindOf b.current
  rw [hd, sound_declaration] at hsound
  simp only [Builder.unrecognized, hdecl, Option.some_or, hd]
  refine ⟨h.adjust hd (writes_declaration_same hle (fun p hp => ?_) rfl) hle hstop,
    by simpa [Builder.update, Builder.modify] using hlast⟩
  simp only [Declaration.stored, List.mem_append, Option.mem_toList] at hp hsound ⊢
  rcases hp with hp | hp
  · exact .inl (.inl hp)
  · exact .inr (sound_joinUnrecognized hle hstart hstop (fun p hp => hsound p (.inr hp)) hp)

omit hstart in
theorem Records.declarationClose :
    (dtdToken s b .declarationClose t inDtd).Records s t.stop P E := by
  simp only [dtdToken, hdecl, hd]
  have hw : Writes s t.start t.stop (.declaration d) (.declaration { d with closed := true }) [] [] :=
    writes_declaration_same hle (fun _ => .inl) rfl
  have h' := (h.adjust hd hw hle hstop).leave b.current
  exact ⟨h'.1, h'.2, h'.3, h'.4, h'.5, h'.6, h'.7, h'.8⟩

theorem Records.step_parameter {k : Token.DtdKind} (hk : k ∈ Lexer.declarationParameters)
    (ht : t.kind = .dtd k) (hlast : b.current + 1 = b.nodes.size) :
    (dtdToken s b k t inDtd).Records s t.stop (P ++ (t.part s).toList) E ∧
      (dtdToken s b k t inDtd).current + 1 = (dtdToken s b k t inDtd).nodes.size := by
  by_cases hu : k = .unrecognized
  · subst hu
    have h' := h.unrecognized hle hstart hstop hdecl hd hlast
    simp only [Token.part, ht, Token.DtdKind.isParameter, ne_eq, not_true_eq_false, decide_false,
      Bool.and_false, Bool.false_eq_true, if_false, Option.toList_none, List.append_nil]
    exact h'
  · have hparameter : k.isParameter = true := by
      simp [Token.DtdKind.isParameter, hk, hu]
    have hpart : t.part s = some (.parameter (parameter s t)) := by
      simp [Token.part, ht, hparameter]
    rw [hpart, dtdToken_parameter hparameter]
    exact h.declarationParameter hle hstart hstop hdecl hd hlast

end declaration

end dtd

/-! ## A step -/

theorem detail_contentMode : Detail (x.moved pos spaced x.contentMode) b := by
  unfold Lexer.contentMode
  split <;> trivial

theorem detail_tagMode (h : Owns x.inProlog (b.kindOf b.current)) :
    Detail (x.moved pos spaced x.tagMode) b := by
  unfold Lexer.tagMode
  split <;> exact h

theorem Detail.of_falls (hc : x.Consistent) (h : Detail x b) (hf : Falls x spaced y) :
    Detail y b := by
  have hm := hc.mode
  cases hf with
  | startTag hmode =>
    simp only [Detail, hmode] at h
    rw [Lexer.Agrees, hmode] at hm
    obtain ⟨-, e, he, -⟩ := h
    show Owns x.inProlog _
    rw [hm.1]
    exact ⟨e, he⟩
  | endTag | instruction => trivial
  | backInTag hmode =>
    rcases hmode with hmode | hmode <;>
    · simp only [Detail, hmode] at h
      exact detail_tagMode h.1

/-! ### By token -/

section arms
variable {inDtd : Bool} (h : b.Records s x.pos P E) (hle : x.pos ≤ pos) (hpos : isBoundary s pos = true)
include h hle hpos

theorem Records.takes_startTagName (hc : x.Consistent) (hf : Fits s x b) (hd : Detail x b)
    (hx : isBoundary s x.pos = true) (hmode : x.mode = .afterStartTagOpen) :
    Takes s P E ⟨.startTagName, x.pos, pos, fault⟩ (x.moved pos spaced .inTag)
      (step s b ⟨.startTagName, x.pos, pos, fault⟩ inDtd) := by
  have hm := hc.mode
  obtain ⟨edge', hn⟩ := hf.nested
  obtain ⟨hlast, e, hkind, hspan, hend, hendSpan⟩ := hd.afterStartTagOpen hmode
  obtain ⟨h', ho⟩ := h.startTagName hle hpos fault inDtd hn hkind hlast hspan hend hendSpan hx
  refine h'.takes_part rfl rfl ?_
  rw [Lexer.Agrees, hmode] at hm
  show Owns x.inProlog _
  rw [hm.1]
  exact ho

theorem Records.takes_endTagName (hf : Fits s x b) (hx : isBoundary s x.pos = true)
    (hmode : x.mode = .afterEndTagOpen) :
    Takes s P E ⟨.endTagName, x.pos, pos, fault⟩ (x.moved pos spaced .inEndTag)
      (step s b ⟨.endTagName, x.pos, pos, fault⟩ inDtd) := by
  obtain ⟨edge', hn⟩ := hf.nested
  obtain ⟨start, -, hpending⟩ := hf.afterEndTagOpen hmode
  rw [step_endTagName]
  have h' := h.endTag (t := ⟨.endTagName, x.pos, pos, fault⟩) hn hpending.endTagOpen
    ⟨hle, Nat.le_refl _, hx, hpos⟩
  exact ⟨by simpa [Token.part, Token.endPart] using h', trivial⟩

theorem Records.takes_endTagClose (hf : Fits s x b) (hmode : x.mode = .inEndTag) :
    Takes s P E ⟨.endTagClose, x.pos, pos, fault⟩ (x.moved pos spaced .content)
      (step s b ⟨.endTagClose, x.pos, pos, fault⟩ inDtd) := by
  obtain ⟨edge', hn⟩ := hf.nested
  refine Records.takes ?_ rfl rfl trivial
  rcases hf.inEndTag hmode with ⟨start, -, hpending⟩ | hclosing
  · simp only [Builder.step, tagToken, hpending.endTagOpen, Option.isSome_some, if_true]
    exact (h.mono hle).flushEndTag hn hpos _
  · obtain ⟨e, he, hclosed, hend⟩ := hclosing.kind
    exact h.endTagClose hle hpos fault inDtd hclosing.endTagOpen he hclosed hend

theorem Records.takes_unknown (hd : Detail x b)
    (hmode : x.mode = .inTag ∨ x.mode = .inProlog ∨ x.mode = .inEndTag) :
    Takes s P E ⟨.unknown, x.pos, pos, fault⟩ (x.moved pos spaced x.mode)
      (step s b ⟨.unknown, x.pos, pos, fault⟩ inDtd) := by
  obtain ⟨h', hkind⟩ := h.unknown hle hpos fault inDtd
  refine h'.takes rfl rfl ?_
  rcases hmode with hmode | hmode | hmode <;> simp only [Detail, Lexer.moved_mode, hmode]
  · exact hkind ▸ hd.owns (.inl hmode)
  · exact hkind ▸ hd.owns (.inr hmode)

theorem Records.takes_attributeName (hf : Fits s x b) (hd : Detail x b) (hx : isBoundary s x.pos = true)
    (hmode : x.mode = .inTag ∨ x.mode = .inProlog) :
    Takes s P E ⟨.attributeName, x.pos, pos, fault⟩ (x.moved pos spaced .afterAttributeName)
      (step s b ⟨.attributeName, x.pos, pos, fault⟩ inDtd) := by
  obtain ⟨edge', hn⟩ := hf.nested
  rw [step_attributeName]
  obtain ⟨h', hd'⟩ := h.attributeName (t := ⟨.attributeName, x.pos, pos, fault⟩) hle hpos
    (hd.owns hmode) hn hx
  exact h'.takes_part rfl rfl hd'

theorem Records.takes_assign (hd : Detail x b) (hmode : x.mode = .afterAttributeName) :
    Takes s P E ⟨.assign, x.pos, pos, fault⟩ (x.moved pos spaced .beforeAttributeValue)
      (step s b ⟨.assign, x.pos, pos, fault⟩ inDtd) := by
  obtain ⟨ho, hawaits⟩ := hd.awaits (.inl hmode)
  rw [step_assign]
  obtain ⟨h', hd'⟩ := h.assign (t := ⟨.assign, x.pos, pos, fault⟩) hle hpos ho hawaits
  exact h'.takes rfl rfl hd'

theorem Records.takes_attributeValue (hd : Detail x b) (hx : isBoundary s x.pos = true)
    (hmode : x.mode = .beforeAttributeValue) :
    Takes s P E ⟨.attributeValue, x.pos, pos, fault⟩ (x.moved pos spaced x.tagMode)
      (step s b ⟨.attributeValue, x.pos, pos, fault⟩ inDtd) := by
  obtain ⟨ho, hawaits⟩ := hd.awaits (.inr hmode)
  rw [step_attributeValue]
  obtain ⟨h', ho'⟩ := h.attributeValue (t := ⟨.attributeValue, x.pos, pos, fault⟩) hle hpos ho hawaits hx
  exact h'.takes_part rfl rfl (detail_tagMode ho')

theorem Records.takes_prologClose (hc : x.Consistent) (hd : Detail x b) (hmode : x.mode = .inProlog) :
    Takes s P E ⟨.prologClose, x.pos, pos, fault⟩
      ({ x with inProlog := false }.moved pos spaced x.contentMode)
      (step s b ⟨.prologClose, x.pos, pos, fault⟩ inDtd) := by
  obtain ⟨p, hkind, -⟩ := hd.inProlog hc hmode
  exact (h.instructionClose hle hpos fault inDtd hkind (.inr rfl)).takes rfl rfl
    (detail_contentMode (x := { x with inProlog := false }))

theorem Records.takes_subsetOpen :
    Takes s P E ⟨.dtd .subsetOpen, x.pos, pos, fault⟩
      ({ x with inSubset := true }.moved pos spaced .dtdContent)
      (step s b ⟨.dtd .subsetOpen, x.pos, pos, fault⟩ inDtd) := by
  rw [step_dtd]
  exact Records.takes (h.onDoctype (t := ⟨_, x.pos, pos, fault⟩) hle hpos fun _ _ => .inl) rfl rfl trivial

theorem Records.takes_subsetClose :
    Takes s P E ⟨.dtd .subsetClose, x.pos, pos, fault⟩
      ({ x with inProlog := false, inSubset := false }.moved pos spaced (.doctype .subset))
      (step s b ⟨.dtd .subsetClose, x.pos, pos, fault⟩ inDtd) := by
  have hleft := h.leaveDeclaration
  rw [step_dtd]
  exact Records.takes (hleft.onDoctype (t := ⟨_, x.pos, pos, fault⟩) hle hpos fun _ _ => .inl) rfl rfl
    trivial

theorem Records.takes_doctypeParameter {stage next : Lexer.DoctypeStage} {k : Token.DtdKind}
    (hf : Fits s x b) (hx : isBoundary s x.pos = true) (hmode : x.mode = .doctype stage)
    (hk : k ∈ Lexer.doctypeParameters) :
    Takes s P E ⟨.dtd k, x.pos, pos, fault⟩ (x.moved pos spaced (.doctype next))
      (step s b ⟨.dtd k, x.pos, pos, fault⟩ inDtd) := by
  rw [step_dtd]
  exact (h.doctypeParameter (t := ⟨.dtd _, x.pos, pos, fault⟩) hle hx hpos _ hk
    (hf.inDoctype hmode).declaration).takes (part_eq_none hk rfl) rfl trivial

theorem Records.takes_declarationClose {stage : Lexer.DeclarationStage} (hf : Fits s x b)
    (hmode : x.mode = .declaration stage) :
    Takes s P E ⟨.dtd .declarationClose, x.pos, pos, fault⟩ (x.moved pos spaced .dtdContent)
      (step s b ⟨.dtd .declarationClose, x.pos, pos, fault⟩ inDtd) := by
  have hdeclaring := hf.inDeclaration hmode
  obtain ⟨d, hkind⟩ := hdeclaring.kind
  rw [step_dtd]
  exact (h.declarationClose (t := ⟨_, x.pos, pos, fault⟩) hle hpos _ hdeclaring.declaration
    hkind).takes rfl rfl trivial

theorem Records.takes_declarationParameter {stage next : Lexer.DeclarationStage} {k : Token.DtdKind}
    (hf : Fits s x b) (hd : Detail x b) (hx : isBoundary s x.pos = true)
    (hmode : x.mode = .declaration stage) (hk : k ∈ Lexer.declarationParameters) :
    Takes s P E ⟨.dtd k, x.pos, pos, fault⟩ (x.moved pos spaced (.declaration next))
      (step s b ⟨.dtd k, x.pos, pos, fault⟩ inDtd) := by
  have hdeclaring := hf.inDeclaration hmode
  obtain ⟨d, hkind⟩ := hdeclaring.kind
  rw [step_dtd]
  obtain ⟨h', hlast⟩ := h.step_parameter (t := ⟨.dtd _, x.pos, pos, fault⟩) hle hx hpos inDtd
    hdeclaring.declaration hkind hk rfl (hd.inDeclaration hmode)
  exact ⟨by simpa [Token.endPart] using h', hlast⟩

end arms

/-- **Every token that can be read is kept.** -/
theorem Records.step (hc : x.Consistent) (hf : Fits s x b) (hd : Detail x b)
    (h : b.Records s x.pos P E) (hr : Reads x pos spaced kind y) (hlt : x.pos < pos)
    (hx : isBoundary s x.pos = true) (hpos : isBoundary s pos = true) :
    Takes s P E ⟨kind, x.pos, pos, fault⟩ y (step s b ⟨kind, x.pos, pos, fault⟩ y.inDtd) := by
  have hle := Nat.le_of_lt hlt
  cases hr with
  | blank => exact (h.mono hle).takes rfl rfl hd
  | content hy hk =>
    have hfile := hc.dtdFile_of_yieldsToContent hy
    exact h.step_content hc hf hy hk hlt hx hpos (by simp [Lexer.inDtd, hfile])
  | declaration hy hk =>
    exact h.step_declaration hc hf hy hk hlt hx hpos (hc.inDtd_of_yieldsToDeclaration hy)
  | startTagName hmode => exact h.takes_startTagName hle hpos hc hf hd hx hmode
  | startTagClose hmode =>
    exact (h.startTagClose hle hpos fault x.inDtd (hd.inTag hc hmode)).takes rfl rfl trivial
  | startTagSelfClose hmode =>
    exact (h.startTagSelfClose hle hpos fault x.inDtd (hd.inTag hc hmode)).takes rfl rfl trivial
  | endTagName hmode => exact h.takes_endTagName hle hpos hf hx hmode
  | endTagClose hmode => exact h.takes_endTagClose hle hpos hf hmode
  | unknown hmode => exact h.takes_unknown hle hpos hd hmode
  | attributeName hmode => exact h.takes_attributeName hle hpos hf hd hx hmode
  | assign hmode => exact h.takes_assign hle hpos hd hmode
  | attributeValue hmode => exact h.takes_attributeValue hle hpos hd hx hmode
  | commentText hmode =>
    obtain ⟨-, c, hkind⟩ := hf.inEnclosed (.inl hmode)
    exact (h.enclosedText hle hpos fault x.inDtd hkind (.inl rfl) hx).takes rfl rfl trivial
  | cdataText hmode =>
    obtain ⟨-, c, hkind⟩ := hf.inEnclosed (.inr hmode)
    exact (h.enclosedText hle hpos fault x.inDtd hkind (.inr rfl) hx).takes rfl rfl trivial
  | commentClose hmode =>
    obtain ⟨-, c, hkind⟩ := hf.inEnclosed (.inl hmode)
    exact (h.enclosedClose hle hpos fault x.inDtd hkind (.inl rfl)).takes rfl rfl detail_contentMode
  | cdataClose hmode =>
    obtain ⟨-, c, hkind⟩ := hf.inEnclosed (.inr hmode)
    exact (h.enclosedClose hle hpos fault x.inDtd hkind (.inr rfl)).takes rfl rfl detail_contentMode
  | prologName hmode =>
    obtain ⟨-, -, p, hkind, -⟩ := hf.afterInstructionOpen hmode
    obtain ⟨h', ho⟩ := h.prologName hle hpos fault x.inDtd hkind hx
    exact h'.takes rfl rfl ho
  | prologClose hmode => exact h.takes_prologClose hle hpos hc hd hmode
  | instructionTarget hmode =>
    obtain ⟨-, -, p, hkind, -⟩ := hf.afterInstructionOpen hmode
    exact (h.instructionTarget hle hpos fault x.inDtd hkind hx).takes rfl rfl trivial
  | instructionContent hmode =>
    obtain ⟨-, p, hkind⟩ := hf.inInstruction hmode
    exact (h.instructionContent hle hpos fault x.inDtd hkind hx).takes rfl rfl trivial
  | instructionClose hmode =>
    obtain ⟨-, p, hkind⟩ := hf.inInstruction hmode
    exact (h.instructionClose hle hpos fault x.inDtd hkind (.inl rfl)).takes rfl rfl detail_contentMode
  | subsetOpen hmode => exact h.takes_subsetOpen hle hpos
  | subsetClose hy hsubset => exact h.takes_subsetClose hle hpos
  | doctypeClose hmode =>
    rw [step_dtd]
    exact (h.doctypeClose (t := ⟨_, x.pos, pos, fault⟩) hle hpos _).takes rfl rfl trivial
  | doctypeParameter hmode hk => exact h.takes_doctypeParameter hle hpos hf hx hmode hk
  | declarationClose hmode => exact h.takes_declarationClose hle hpos hf hmode
  | declarationParameter hmode hk => exact h.takes_declarationParameter hle hpos hf hd hx hmode hk

/-! ## The whole text -/

theorem Records.next (hx : isBoundary s x.pos = true) (hlt : x.pos < size s) (hc : x.Consistent)
    (hf : Fits s x b) (hd : Detail x b) (h : b.Records s x.pos P E) :
    (Builder.step s b (x.step s).1 (x.step s).2.inDtd).Records s (x.step s).2.pos
        (P ++ ((x.step s).1.part s).toList) (E ++ (x.step s).1.endPart.toList) ∧
      Detail (x.step s).2 (Builder.step s b (x.step s).1 (x.step s).2.inDtd) := by
  have hmoves := Lexer.moves_lex hx hlt
  obtain ⟨z, spaced, hz, hreads⟩ := Lexer.lex_turns hc hlt
  rw [Lexer.step_eq_lex hx hlt]
  -- a construct that breaks off is left for another mode at the same place
  rcases hz with rfl | hfalls
  · exact h.step hc hf hd hreads hmoves.ahead.1 hx hmoves.ahead.2
  · have hpos := hfalls.pos_eq
    rw [← hpos] at h hx hmoves ⊢
    exact h.step (hc.of_falls hfalls) (hf.of_falls (Nat.le_of_lt hlt) hfalls) (hd.of_falls hc hfalls)
      hreads hmoves.ahead.1 hx hmoves.ahead.2

def scanned (s : String) (x : Lexer) : List Token := (x.tokens s).map (·.1)

theorem scanned_of_lt (hx : isBoundary s x.pos = true) (hlt : x.pos < size s) :
    scanned s x = (x.step s).1 :: scanned s (x.step s).2 := by
  rw [scanned, tokens_of_lt hx hlt]
  rfl

theorem scanned_pairwise (x : Lexer) (hx : isBoundary s x.pos = true) :
    (scanned s x).Pairwise (·.start < ·.start) ∧ ∀ t ∈ scanned s x, x.pos ≤ t.start := by
  rcases Nat.lt_or_ge x.pos (size s) with hlt | hge
  · have hmoves := Lexer.moves_lex hx hlt
    have hstep := Lexer.step_eq_lex hx hlt
    have hnext : (x.step s).2.pos = (Lexer.lex s x).lexer.pos := by rw [hstep]
    have hahead : x.pos < (x.step s).2.pos := hnext ▸ hmoves.ahead.1
    have hstart : (x.step s).1.start = x.pos := by rw [hstep]
    obtain ⟨hpairs, hle⟩ := scanned_pairwise (x.step s).2 (hnext ▸ hmoves.ahead.2)
    rw [scanned_of_lt hx hlt, List.pairwise_cons]
    refine ⟨⟨fun t ht => ?_, hpairs⟩, fun t ht => ?_⟩
    · rw [hstart]
      exact Nat.lt_of_lt_of_le hahead (hle t ht)
    · rcases List.mem_cons.mp ht with rfl | ht
      · exact Nat.le_of_eq hstart.symm
      · exact Nat.le_trans (Nat.le_of_lt hahead) (hle t ht)
  · rw [scanned, Lexer.tokens_at_end hge]
    exact ⟨.nil, by simp⟩
termination_by size s - x.pos
decreasing_by omega

theorem filterMap_scanned_of_lt (f : Token → Option Part) (hx : isBoundary s x.pos = true)
    (hlt : x.pos < size s) :
    (scanned s x).filterMap f = (f (x.step s).1).toList ++ (scanned s (x.step s).2).filterMap f := by
  rw [scanned_of_lt hx hlt]
  cases hf : f (x.step s).1 <;> simp [hf]

/-- What is read up to the end of the text is kept. -/
theorem records_tokens (x : Lexer) (b : Builder) (P E : List Part) (hx : isBoundary s x.pos = true)
    (hc : x.Consistent) (hf : Fits s x b) (hd : Detail x b) (h : b.Records s x.pos P E) :
    ((x.tokens s).foldl (fun b (t, x) => Builder.step s b t x.inDtd) b).Records s (size s)
      (P ++ (scanned s x).filterMap (Token.part s)) (E ++ (scanned s x).filterMap Token.endPart) := by
  rcases Nat.lt_or_ge x.pos (size s) with hlt | hge
  · obtain ⟨hc', -, hf'⟩ := hf.next hx hlt hc
    obtain ⟨h', hd'⟩ := h.next hx hlt hc hf hd
    have hmoves := Lexer.moves_lex hx hlt
    have hnext : (x.step s).2.pos = (Lexer.lex s x).lexer.pos := by rw [Lexer.step_eq_lex hx hlt]
    have hahead : x.pos < (x.step s).2.pos := hnext ▸ hmoves.ahead.1
    have hrun := records_tokens (x.step s).2 _ _ _ (hnext ▸ hmoves.ahead.2) hc' hf' hd' h'
    rw [filterMap_scanned_of_lt _ hx hlt, filterMap_scanned_of_lt _ hx hlt, tokens_of_lt hx hlt,
      ← List.append_assoc, ← List.append_assoc]
    exact hrun
  · rw [scanned, Lexer.tokens_at_end hge]
    simpa using h.mono (Text.le_size_of_isBoundary hx)
termination_by size s - x.pos
decreasing_by omega

theorem Records.nodes_finish (hn : Nested s top b.nodes b.current edge)
    (h : b.Records s (size s) P E) :
    (b.finish s).toList.flatMap Node.parts = P ∧ ((b.finish s).toList.flatMap Node.ends).Perm E ∧
      ∀ (id : Nat) (n : Node), (b.finish s)[id]? = some n → n.Sound s (size s) := by
  have hend := Text.isBoundary_size s
  have hflush := h.flushEndTag hn hend none
  have hopen : (b.flushEndTag (size s) none).endTagOpen = none := by
    unfold Builder.flushEndTag
    split
    · rfl
    · assumption
  unfold Builder.finish
  dsimp only
  generalize b.flushEndTag (size s) none = c at hflush hopen
  have h' := hflush.foldl_extend (fun _ hc => hflush.kindOf_of_mem_chain hc) hend
  have hends := h'.ends
  rw [Builder.foldl_extend] at h' hends ⊢
  rw [show Builder.endTagOpen _ = none from hopen] at hends
  exact ⟨h'.parts, by simpa using hends, h'.sound⟩

/-! ## The start -/

theorem records_emptyDocument (s : String) : Records s 0 [] [] { nodes := emptyDocument s } where
  parts := rfl
  ends := .nil
  sound id n hn := by
    obtain ⟨-, rfl⟩ := getElem?_emptyDocument s hn
    exact ⟨Text.isBoundary_zero s, Text.isBoundary_size s, by simp [Kind.spans], trivial, trivial⟩
  current := by simp [kindOf, emptyDocument]
  parents id := by
    cases id <;> simp [kindOf, parentOf, emptyDocument]
  doctype := nofun
  endTagOpen := nofun
  contentStart := nofun

theorem records_start (s : String) (dtdFile : Bool) : (start s dtdFile).Records s 0 [] [] := by
  cases dtdFile with
  | false => exact records_emptyDocument s
  | true =>
    have h' := (records_emptyDocument s).openNode (k := .doctype { synthetic := true })
      (nested_emptyDocument s) (sound_doctype.mpr nofun) (by simp) (Text.isBoundary_zero s)
      (Text.isBoundary_size s)
    refine ⟨h'.1, h'.2, h'.3, h'.4, h'.5, ?_, h'.7, h'.8⟩
    rintro _ ⟨⟩
    exact ⟨_, getElem?_openNode .., rfl⟩

/-- **The nodes of every text keep the parts of all its tokens.** -/
theorem build_keeps (s : String) (dtdFile : Bool) :
    let ts := scanned s (if dtdFile then Lexer.declarations else Lexer.document)
    (build s dtdFile).toList.flatMap Node.parts = ts.filterMap (Token.part s) ∧
      ((build s dtdFile).toList.flatMap Node.ends).Perm (ts.filterMap Token.endPart) ∧
      ∀ (id : Nat) (n : Node), (build s dtdFile)[id]? = some n → n.Sound s (size s) := by
  cases dtdFile with
  | false =>
    have hc : Lexer.document.Consistent := ⟨nofun, nofun, rfl, rfl⟩
    have hx := Text.isBoundary_zero s
    obtain ⟨y, -, -, hf⟩ := fits_tokens Lexer.document (start s false) hx hc (fits_document s)
    obtain ⟨edge, hn⟩ := hf.nested
    exact (records_tokens Lexer.document (start s false) [] [] hx hc (fits_document s) trivial
      (records_start s false)).nodes_finish hn
  | true =>
    have hc : Lexer.declarations.Consistent := ⟨fun _ => rfl, nofun, rfl, rfl⟩
    have hx := Text.isBoundary_zero s
    obtain ⟨y, -, -, hf⟩ := fits_tokens Lexer.declarations (start s true) hx hc (fits_declarations s)
    obtain ⟨edge, hn⟩ := hf.nested
    exact (records_tokens Lexer.declarations (start s true) [] [] hx hc (fits_declarations s) trivial
      (records_start s true)).nodes_finish hn

end XmlAssist.Builder
