import XmlAssist.Proofs.Lexer.Order
import XmlAssist.Proofs.Tree.Growth

/-!
# The builder beside the lexer

The builder keeps the nodes nested only because of the order in which tokens come. `Fits` says what
the builder is like behind a token from the mode of the lexer there. Wherever new markup can start,
nothing but nodes is open once `Builder.beforeMarkup` is done (`Fits.beforeContent`,
`Fits.beforeDeclaration`).
-/

namespace XmlAssist

open Node
open Text (size)
open Lexer (Reads Falls)

/-- What is read in the mode stands inside a node of its own. -/
def Lexer.Mode.isInner : Lexer.Mode → Bool
  | .inComment | .afterInstructionOpen | .inInstruction | .declaration _ => true
  | _ => false

def Lexer.inDoctype (x : Lexer) : Bool :=
  x.inSubset || match x.mode with
    | .doctype _ => true
    | _ => false

namespace Builder

variable {s : String} {top edge stop : Nat} {x y : Lexer} {b b' : Builder}

/-- The open document type is the one that stands for the file, or it is the current node or the
node right around it, as `inner` says. -/
def AtDoctype (file inDoctype inner : Bool) (b : Builder) : Prop :=
  ∀ i, b.doctype = some i →
    if file then i = 1
    else inDoctype = true ∧ 0 < i ∧
      (if inner then parentAt b.nodes b.current else some b.current) = some i

/-- A declaration is being read, which is the current node. -/
structure Declaring (s : String) (top edge : Nat) (b : Builder) : Prop where
  steady : { b with declaration := none }.Steady s top edge
  declaration : b.declaration = some b.current
  kind : ∃ d, b.kindOf b.current = .declaration d
  isSealed : Sealed b.nodes b.current

/-- What the builder is like where the lexer is at `x`. -/
def Phase (s : String) (x : Lexer) (b : Builder) : Prop :=
  let top := x.dtdFile.toNat
  match x.mode with
  | .content | .dtdContent | .doctype _ => b.Steady s top x.pos
  | .afterStartTagOpen | .inTag | .inProlog | .afterAttributeName | .beforeAttributeValue =>
    b.Steady s top x.pos ∧ b.OwnsAttribute
  | .inComment | .inCData =>
    b.Steady s top x.pos ∧ ∃ c, b.kindOf b.current = .comment c ∨ b.kindOf b.current = .cdata c
  | .afterInstructionOpen =>
    b.Steady s top x.pos ∧ b.openAttribute = none ∧
      ∃ i, b.kindOf b.current = .instruction i ∧ i.isProlog = false
  | .inInstruction => b.Steady s top x.pos ∧ ∃ i, b.kindOf b.current = .instruction i
  | .afterEndTagOpen => ∃ start < x.pos, b.Pending s top start start
  | .inEndTag => (∃ start < x.pos, b.Pending s top start x.pos) ∨ b.Closing s top x.pos
  | .declaration _ => b.Declaring s top x.pos

/-- The builder and the lexer belong together. -/
structure Fits (s : String) (x : Lexer) (b : Builder) : Prop where
  phase : Phase s x b
  doctype : AtDoctype x.dtdFile x.inDoctype x.mode.isInner b

section modes
variable (h : Fits s x b)
include h

theorem Fits.inDoctype {stage : Lexer.DoctypeStage} (hmode : x.mode = .doctype stage) :
    b.Steady s x.dtdFile.toNat x.pos := by
  simpa only [Phase, hmode] using h.phase

theorem Fits.inTag (hmode : x.mode = .afterStartTagOpen ∨ x.mode = .inTag ∨ x.mode = .inProlog ∨
      x.mode = .afterAttributeName ∨ x.mode = .beforeAttributeValue) :
    b.Steady s x.dtdFile.toNat x.pos ∧ b.OwnsAttribute := by
  have hphase := h.phase
  rcases hmode with hmode | hmode | hmode | hmode | hmode <;> simpa only [Phase, hmode] using hphase

theorem Fits.inEnclosed (hmode : x.mode = .inComment ∨ x.mode = .inCData) :
    b.Steady s x.dtdFile.toNat x.pos ∧
      ∃ c, b.kindOf b.current = .comment c ∨ b.kindOf b.current = .cdata c := by
  have hphase := h.phase
  rcases hmode with hmode | hmode <;> simpa only [Phase, hmode] using hphase

theorem Fits.afterInstructionOpen (hmode : x.mode = .afterInstructionOpen) :
    b.Steady s x.dtdFile.toNat x.pos ∧ b.openAttribute = none ∧
      ∃ i, b.kindOf b.current = .instruction i ∧ i.isProlog = false := by
  simpa only [Phase, hmode] using h.phase

theorem Fits.inInstruction (hmode : x.mode = .inInstruction) :
    b.Steady s x.dtdFile.toNat x.pos ∧ ∃ i, b.kindOf b.current = .instruction i := by
  simpa only [Phase, hmode] using h.phase

theorem Fits.afterEndTagOpen (hmode : x.mode = .afterEndTagOpen) :
    ∃ start < x.pos, b.Pending s x.dtdFile.toNat start start := by
  simpa only [Phase, hmode] using h.phase

theorem Fits.inEndTag (hmode : x.mode = .inEndTag) :
    (∃ start < x.pos, b.Pending s x.dtdFile.toNat start x.pos) ∨
      b.Closing s x.dtdFile.toNat x.pos := by
  simpa only [Phase, hmode] using h.phase

theorem Fits.inDeclaration {stage : Lexer.DeclarationStage} (hmode : x.mode = .declaration stage) :
    b.Declaring s x.dtdFile.toNat x.pos := by
  simpa only [Phase, hmode] using h.phase

end modes

/-! ## The open document type -/

theorem AtDoctype.of_none {file inDoctype inner : Bool} (h : b.doctype = none) :
    AtDoctype file inDoctype inner b := by
  intro i hi
  rw [h] at hi
  cases hi

theorem AtDoctype.eq_none {file inner : Bool} (h : AtDoctype file false inner b)
    (hfile : file = false) : b.doctype = none := by
  cases hd : b.doctype with
  | none => rfl
  | some i =>
    have := h i hd
    rw [hfile, if_neg (by simp)] at this
    exact absurd this.1 (by simp)

theorem AtDoctype.outside {file inner inner' inDoctype' : Bool} (h : AtDoctype file false inner b)
    (hd : b'.doctype = b.doctype) : AtDoctype file inDoctype' inner' b' := by
  intro i hi
  have hi' := h i (hd ▸ hi)
  cases file with
  | true => exact hi'
  | false => exact absurd hi'.1 (by simp)

theorem AtDoctype.of_relinks {file inDoctype inner : Bool} (h : AtDoctype file inDoctype inner b)
    (hlinks : Relinks b.nodes b'.nodes) (hd : b'.doctype = b.doctype)
    (hcurrent : b'.current = b.current) : AtDoctype file inDoctype inner b' := by
  intro i hi
  have hi' := h i (hd ▸ hi)
  rwa [hcurrent, hlinks.parentAt]

theorem AtDoctype.leave {file inDoctype : Bool} (h : AtDoctype file inDoctype true b)
    (hd : b'.doctype = b.doctype) (hcurrent : parentAt b.nodes b.current = some b'.current) :
    AtDoctype file inDoctype false b' := by
  intro i hi
  have hi' := h i (hd ▸ hi)
  rw [if_pos rfl, hcurrent] at hi'
  exact hi'

theorem AtDoctype.openNode {file inDoctype : Bool} (h : AtDoctype file inDoctype false b)
    (k : Kind) (span : Span) : AtDoctype file inDoctype true (b.openNode k span) := by
  intro i hi
  rw [if_pos rfl, parentAt_openNode]
  exact h i hi

theorem AtDoctype.append {file inDoctype : Bool} (h : AtDoctype file inDoctype false b) (k : Kind)
    (span : Span) : AtDoctype file inDoctype false (b.append k span) := h

theorem AtDoctype.mem_chain {file inDoctype inner : Bool} {i : Nat}
    (h : AtDoctype file inDoctype inner b) (hn : Nested s file.toNat b.nodes b.current edge)
    (hi : b.doctype = some i) : i ∈ chain b.nodes b.current := by
  have hi' := h i hi
  cases file with
  | true =>
    rw [if_pos rfl] at hi'
    exact hi' ▸ hn.top_mem
  | false =>
    obtain ⟨-, -, hi'⟩ := hi'
    cases inner with
    | true => exact parentAt_mem_chain hi' (hn.arena.parentAt_lt hi')
    | false =>
      obtain rfl := Option.some.inj hi'
      exact mem_chain_self ..

theorem onDoctype_eq {t : Token} {g : Doctype → Doctype} {i : Nat} (h : b.doctype = some i) :
    ∃ f, b.onDoctype t g = b.modify i f ∧
      (∀ n, b.nodes[i]? = some n → Grows t.stop n (f n)) ∧
      (∀ n, b.nodes[i]? = some n → (f n).kind.isClosedElement = n.kind.isClosedElement) ∧
      ∀ n, t.stop ≤ (f n).span.stop := by
  unfold onDoctype
  rw [h]
  dsimp only
  split
  · rename_i d hd
    refine ⟨_, rfl, grows_update (by rw [hd]; trivial), fun n hn => ?_, fun n => Nat.le_max_right ..⟩
    rw [kindOf_eq hn] at hd
    rw [hd]
    rfl
  · exact ⟨_, rfl, fun n _ => grows_extend n (Nat.le_refl _), fun _ _ => rfl,
      fun n => Nat.le_max_right ..⟩

theorem Steady.onDoctype {file inDoctype inner : Bool} {t : Token} {g : Doctype → Doctype}
    (h : b.Steady s file.toNat edge) (hd : AtDoctype file inDoctype inner b)
    (hle : edge ≤ t.stop) (hsize : t.stop ≤ size s) :
    (b.onDoctype t g).Steady s file.toNat t.stop ∧ AtDoctype file inDoctype inner (b.onDoctype t g) := by
  cases hi : b.doctype with
  | none =>
    have hb : b.onDoctype t g = b := by simp [Builder.onDoctype, hi]
    rw [hb]
    exact ⟨h.mono hle hsize, hd⟩
  | some i =>
    obtain ⟨f, hf, hgrows, hclosed, -⟩ := onDoctype_eq (g := g) (t := t) hi
    rw [hf]
    exact ⟨h.modify (.inl (hd.mem_chain h.nested hi)) hgrows hclosed hle hsize,
      hd.of_relinks (relinks_modify fun n hn => (hgrows n hn).links) rfl rfl⟩

/-! ## Before new markup -/

theorem Declaring.leave (h : b.Declaring s top edge) :
    b.leaveDeclaration.Steady s top edge ∧
      parentAt b.nodes b.current = some b.leaveDeclaration.current ∧
      b.leaveDeclaration.doctype = b.doctype := by
  obtain ⟨d, hd⟩ := h.kind
  obtain ⟨n, hn, -⟩ := h.steady.nested.current_node
  have hkind := (kindOf_eq hn).symm.trans hd
  have htop := h.steady.nested.top_lt hn (by simp [hkind]) (by simp [isDoctype, doctype?, hkind])
  obtain ⟨hp, hleft⟩ := leave_spec h.steady.nested htop h.isSealed
  have hb : b.leaveDeclaration = { { b with declaration := none }.leave with declaration := none } := by
    rw [leaveDeclaration, h.declaration]
    rfl
  rw [hb]
  have hlt := h.steady.nested.arena.parentAt_lt hp
  exact ⟨⟨hleft, h.steady.unclosed.of_mem_chain (parentAt_mem_chain hp hlt), h.steady.endTagOpen, rfl⟩,
    hp, rfl⟩

theorem leaveDeclaration_eq (h : b.declaration = none) : b.leaveDeclaration = b := by
  rw [leaveDeclaration, h]

theorem flushEndTag_eq {close : Option Nat} (h : b.endTagOpen = none) :
    b.flushEndTag stop close = b := by
  rw [flushEndTag, h]

theorem Steady.leaveClosedElement_eq (h : b.Steady s top edge) : b.leaveClosedElement = b := by
  obtain ⟨n, hn, -⟩ := h.nested.current_node
  have hclosed := h.unclosed b.current (mem_chain_self ..) n hn
  unfold leaveClosedElement
  rw [kindOf_eq hn]
  split
  · rename_i e he
    rw [he] at hclosed
    exact if_neg (by simp only [Kind.isClosedElement] at hclosed; simp [hclosed])
  · rfl

theorem Closing.leaveClosedElement_eq (h : b.Closing s top edge) : b.leaveClosedElement = b.leave := by
  obtain ⟨e, he, hclosed, -⟩ := h.kind
  unfold leaveClosedElement
  rw [he]
  exact if_pos hclosed

theorem Steady.leaveDoctype (h : b.Steady s 0 edge) (hd : AtDoctype false true false b) :
    (b.leaveDoctype edge).Steady s 0 edge ∧ (b.leaveDoctype edge).doctype = none := by
  unfold Builder.leaveDoctype
  rw [leaveDeclaration_eq h.declaration]
  dsimp only
  split
  · rename_i i hi
    obtain ⟨-, hpos, hcurrent⟩ := hd i hi
    obtain rfl := Option.some.inj hcurrent
    obtain ⟨hclose, hp⟩ := h.close hpos (fun n _ => grows_extend n (Nat.le_refl edge))
      (fun n => Nat.le_max_right ..) (Nat.le_refl _) h.nested.edge_le
    rw [parentOf_eq hp]
    exact ⟨⟨hclose.nested, hclose.unclosed, h.endTagOpen, h.declaration⟩, rfl⟩
  · exact ⟨h, ‹_›⟩

/-- Nothing but nodes is open, or only the end tag of the current element. -/
def Settled (s : String) (file : Bool) (edge : Nat) (b : Builder) : Prop :=
  (b.Steady s file.toNat edge ∧ AtDoctype file true false b) ∨
    (b.Closing s file.toNat edge ∧ b.doctype = none)

/-- The builder without an open attribute, where an end tag without a name has become a node and the
declaration has been left. -/
def settle (b : Builder) (start : Nat) : Builder :=
  ({ b with openAttribute := none }.flushEndTag start none).leaveDeclaration

theorem openAttribute_leaveDeclaration (b : Builder) :
    b.leaveDeclaration.openAttribute = b.openAttribute := by
  unfold leaveDeclaration
  split <;> rfl

theorem openAttribute_settle (b : Builder) (start : Nat) : (b.settle start).openAttribute = none := by
  unfold settle
  rw [openAttribute_leaveDeclaration]
  unfold flushEndTag
  split <;> rfl

theorem AtDoctype.weaken {file inDoctype inner : Bool} (h : AtDoctype file inDoctype inner b) :
    AtDoctype file true inner b := by
  intro i hi
  have hi' := h i hi
  cases file with
  | true => exact hi'
  | false => exact ⟨rfl, hi'.2⟩

theorem Steady.forget (h : b.Steady s top edge) : { b with openAttribute := none }.Steady s top edge :=
  ⟨h.1, h.2, h.3, h.4⟩

theorem Closing.forget (h : b.Closing s top edge) :
    { b with openAttribute := none }.Closing s top edge :=
  ⟨⟨h.nested, h.around, h.isSealed⟩, h.kind, h.endTagOpen, h.declaration⟩

theorem Pending.forget {start : Nat} (h : b.Pending s top start edge) :
    { b with openAttribute := none }.Pending s top start edge := ⟨h.1, h.2, h.3, h.4, h.5⟩

theorem Declaring.forget (h : b.Declaring s top edge) :
    { b with openAttribute := none }.Declaring s top edge :=
  ⟨⟨h.1.1, h.1.2, h.1.3, h.1.4⟩, h.2, h.3, h.4⟩

theorem AtDoctype.strengthen {file inDoctype inner : Bool} (h : AtDoctype file true inner b)
    (hd : file = false → inDoctype = true) : AtDoctype file inDoctype inner b := by
  intro i hi
  have hi' := h i hi
  cases file with
  | true => exact hi'
  | false => exact ⟨hd rfl, hi'.2⟩

theorem Steady.settled {file inDoctype : Bool} {start : Nat} (h : b.Steady s file.toNat edge)
    (hd : AtDoctype file inDoctype false b) : (b.settle start).Settled s file edge := by
  rw [settle, flushEndTag_eq h.forget.endTagOpen, leaveDeclaration_eq h.forget.declaration]
  exact .inl ⟨h.forget, hd.weaken⟩

theorem Closing.settled {file : Bool} {start : Nat} (h : b.Closing s file.toNat edge)
    (hd : b.doctype = none) : (b.settle start).Settled s file edge := by
  rw [settle, flushEndTag_eq h.forget.endTagOpen, leaveDeclaration_eq h.forget.declaration]
  exact .inr ⟨h.forget, hd⟩

theorem Pending.settled {file : Bool} {start : Nat} (h : b.Pending s file.toNat start edge)
    (hlt : start < edge) (hd : b.doctype = none) : (b.settle edge).Settled s file edge := by
  have hflush := h.forget.flush hlt (Nat.le_refl _) h.nested.edge_le none
  refine .inl ?_
  rw [settle, leaveDeclaration_eq hflush.declaration]
  refine ⟨hflush, .of_none ?_⟩
  rw [flushEndTag, h.forget.endTagOpen]
  exact hd

theorem Declaring.settled {file inDoctype : Bool} {start : Nat} (h : b.Declaring s file.toNat edge)
    (hd : AtDoctype file inDoctype true b) : (b.settle start).Settled s file edge := by
  obtain ⟨hleave, hp, hdoctype⟩ := h.forget.leave
  have hnone : { b with openAttribute := none }.endTagOpen = none := h.steady.endTagOpen
  rw [settle, flushEndTag_eq hnone]
  exact .inl ⟨hleave, (hd.leave hdoctype hp).weaken⟩

theorem Fits.settled (hc : x.Consistent) (h : Fits s x b)
    (hy : x.YieldsToContent ∨ x.YieldsToDeclaration) : (b.settle x.pos).Settled s x.dtdFile x.pos := by
  have hphase := h.phase
  have hd := h.doctype
  have hm := hc.mode
  cases hmode : x.mode with
  | content | dtdContent | doctype _ =>
    simp only [Phase, hmode] at hphase
    rw [hmode] at hd
    exact hphase.settled hd
  | inTag | inProlog =>
    simp only [Phase, hmode] at hphase
    rw [hmode] at hd
    exact hphase.1.settled hd
  | inEndTag =>
    simp only [Phase, hmode] at hphase
    simp only [Lexer.Agrees, hmode] at hm
    have hnone : b.doctype = none := by
      rw [hmode, Lexer.inDoctype, hmode, Lexer.inSubset_eq_false hm.2] at hd
      exact hd.eq_none (Lexer.dtdFile_eq_false hm.2)
    rcases hphase with ⟨start, hlt, hpending⟩ | hclosing
    · exact hpending.settled hlt hnone
    · exact hclosing.settled hnone
  | declaration _ =>
    simp only [Phase, hmode] at hphase
    rw [hmode] at hd
    exact hphase.settled hd
  | _ => simp [Lexer.YieldsToContent, Lexer.YieldsToDeclaration, hmode] at hy

theorem openAttribute_leaveDoctype (b : Builder) (stop : Nat) :
    (b.leaveDoctype stop).openAttribute = b.openAttribute := by
  unfold leaveDoctype
  dsimp only
  split <;> exact openAttribute_leaveDeclaration b

theorem openAttribute_leaveClosedElement (b : Builder) :
    b.leaveClosedElement.openAttribute = b.openAttribute := by
  unfold leaveClosedElement
  split
  · split <;> rfl
  · rfl

theorem beforeMarkup_eq (b : Builder) (start : Nat) (inDtd : Bool) :
    b.beforeMarkup start inDtd =
      (if (b.settle start).doctype.isSome && !inDtd then (b.settle start).leaveDoctype start
        else b.settle start).leaveClosedElement := rfl

theorem openAttribute_beforeMarkup (b : Builder) (start : Nat) (inDtd : Bool) :
    (b.beforeMarkup start inDtd).openAttribute = none := by
  rw [beforeMarkup_eq, openAttribute_leaveClosedElement]
  split
  · rw [openAttribute_leaveDoctype, openAttribute_settle]
  · exact openAttribute_settle b start

theorem Settled.leaveClosedElement {file : Bool} (h : b.Settled s file edge) :
    b.leaveClosedElement.Steady s file.toNat edge ∧ AtDoctype file true false b.leaveClosedElement := by
  rcases h with ⟨hsteady, hd⟩ | ⟨hclosing, hd⟩
  · rw [hsteady.leaveClosedElement_eq]
    exact ⟨hsteady, hd⟩
  · rw [hclosing.leaveClosedElement_eq]
    exact ⟨hclosing.leave, .of_none hd⟩

/-- Before new content of a document. -/
theorem Fits.beforeContent (hc : x.Consistent) (h : Fits s x b) (hy : x.YieldsToContent) :
    (b.beforeMarkup x.pos false).Steady s x.dtdFile.toNat x.pos ∧
      (b.beforeMarkup x.pos false).doctype = none := by
  have hsettled := h.settled hc (.inl hy)
  rw [hc.dtdFile_of_yieldsToContent hy] at hsettled ⊢
  rw [beforeMarkup_eq]
  cases hdoctype : (b.settle x.pos).doctype with
  | none =>
    obtain ⟨hsteady, hd⟩ := hsettled.leaveClosedElement
    refine ⟨hsteady, ?_⟩
    show (b.settle x.pos).leaveClosedElement.doctype = none
    unfold leaveClosedElement
    split
    · split <;> exact hdoctype
    · exact hdoctype
  | some i =>
    rcases hsettled with ⟨hsteady, hd⟩ | ⟨-, hnone⟩
    · obtain ⟨hleave, hnone⟩ := hsteady.leaveDoctype hd
      show ((b.settle x.pos).leaveDoctype x.pos).leaveClosedElement.Steady s 0 x.pos ∧
        ((b.settle x.pos).leaveDoctype x.pos).leaveClosedElement.doctype = none
      rw [hleave.leaveClosedElement_eq]
      exact ⟨hleave, hnone⟩
    · rw [hdoctype] at hnone
      cases hnone

/-- Before anything new between declarations. -/
theorem Fits.beforeDeclaration (hc : x.Consistent) (h : Fits s x b) (hy : x.YieldsToDeclaration) :
    (b.beforeMarkup x.pos true).Steady s x.dtdFile.toNat x.pos ∧
      AtDoctype x.dtdFile true false (b.beforeMarkup x.pos true) := by
  rw [beforeMarkup_eq, Bool.not_true, Bool.and_false, if_neg (by simp)]
  exact (h.settled hc (.inr hy)).leaveClosedElement

end Builder

end XmlAssist
