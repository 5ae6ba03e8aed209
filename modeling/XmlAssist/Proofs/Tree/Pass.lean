import XmlAssist.Proofs.Tree.Building
import XmlAssist.Proofs.Tree.Tokens

/-!
# One pass over the tokens

Every token that can be read keeps the builder and the lexer together (`Fits.step`), and so a whole
text does (`fits_tokens`). At the end of the text all that is open ends there, so that every node
is sealed (`build_spec`).
-/

namespace XmlAssist.Builder

open Node
open Text (size)
open Lexer (Reads Falls)

variable {s : String} {top edge : Nat} {x y : Lexer} {b b' : Builder}
variable {pos : Nat} {spaced : Bool} {mode : Lexer.Mode} {kind : Token.Kind} {fault : Option Token.Fault}

/-! ## New markup -/

theorem Fits.step_content (hc : x.Consistent) (h : Fits s x b) (hy : x.YieldsToContent)
    (hk : Lexer.StartsContent kind mode) (hlt : x.pos < pos) (hsize : pos ≤ size s) {inDtd : Bool}
    (hin : inDtd = false) :
    Fits s ({ x with inProlog := false, inSubset := false }.moved pos spaced mode)
      (step s b ⟨kind, x.pos, pos, fault⟩ inDtd) := by
  subst hin
  obtain ⟨hsteady, hnone⟩ := h.beforeContent hc hy
  have hopen := openAttribute_beforeMarkup b x.pos false
  rcases hk with ⟨rfl, rfl⟩ | hk
  · rw [step_text]
    exact ⟨hsteady.append trivial hlt hsize, .of_none ((append_doctype ..).trans hnone)⟩
  · simp only [Lexer.contentOpeners, List.map_cons, List.map_nil, List.mem_cons, Prod.mk.injEq,
      List.not_mem_nil, or_false] at hk
    rcases hk with ⟨rfl, rfl⟩ | ⟨rfl, rfl⟩ | ⟨rfl, rfl⟩ | ⟨rfl, rfl⟩ | ⟨rfl, rfl⟩ | ⟨rfl, rfl⟩
    · rw [step_commentOpen]
      exact ⟨⟨hsteady.openNode trivial rfl hlt hsize, _, .inl (kindOf_openNode ..)⟩,
        .of_none ((openNode_doctype ..).trans hnone)⟩
    · rw [step_cdataOpen]
      exact ⟨⟨hsteady.openNode trivial rfl hlt hsize, _, .inr (kindOf_openNode ..)⟩,
        .of_none ((openNode_doctype ..).trans hnone)⟩
    · rw [step_doctypeOpen]
      obtain ⟨h₁, h₂, h₃, h₄⟩ := hsteady.openNode (k := .doctype {}) trivial rfl hlt hsize
      refine ⟨⟨h₁, h₂, h₃, h₄⟩, fun i hi => ?_⟩
      obtain rfl := Option.some.inj hi
      obtain ⟨n, hn, -⟩ := hsteady.nested.current_node
      have hpos := Nat.zero_lt_of_lt (lt_size_of_getElem? hn)
      rw [show Lexer.dtdFile _ = false from hc.dtdFile_of_yieldsToContent hy, if_neg (by simp)]
      exact ⟨rfl, by rw [openNode_current]; exact hpos, rfl⟩
    · rw [step_endTagOpen]
      refine ⟨⟨x.pos, hlt, hsteady.nested, hsteady.unclosed, rfl, hsteady.declaration, ?_⟩, .of_none hnone⟩
      exact hsteady.nested.fresh (Nat.le_refl _)
    · rw [step_instructionOpen]
      exact ⟨⟨hsteady.openNode rfl rfl hlt hsize, (openNode_openAttribute ..).trans hopen, _,
        kindOf_openNode .., rfl⟩, .of_none ((openNode_doctype ..).trans hnone)⟩
    · rw [step_startTagOpen]
      exact ⟨⟨hsteady.openNode rfl rfl hlt hsize,
        .of_none ((openNode_openAttribute ..).trans hopen)⟩, .of_none ((openNode_doctype ..).trans hnone)⟩

theorem Steady.openDeclaration {file : Bool} {t : Token} {body : Declaration.Body}
    (h : b.leaveDeclaration.Steady s file.toNat t.start) (hd : AtDoctype file true false b.leaveDeclaration)
    (hlt : t.start < t.stop) (hsize : t.stop ≤ size s) :
    (b.openDeclaration t body).Declaring s file.toNat t.stop ∧
      AtDoctype file true true (b.openDeclaration t body) := by
  unfold Builder.openDeclaration
  rw [h.leaveClosedElement_eq]
  obtain ⟨h₁, h₂, h₃, h₄⟩ := h.openNode (k := .declaration { body }) trivial rfl hlt hsize
  have hnew := getElem?_openNode b.leaveDeclaration (.declaration { body }) t.span
  refine ⟨⟨⟨h₁, h₂, h₃, rfl⟩, rfl, ⟨_, kindOf_openNode b.leaveDeclaration ..⟩, ?_⟩, ?_⟩
  · exact h₁.sealed_of_edge_le hnew h₁.top_le (Nat.le_refl _)
  · exact hd.openNode (.declaration { body }) t.span

theorem Fits.leaveDeclaration (h : Fits s x b) (hy : x.YieldsToDeclaration) :
    b.leaveDeclaration.Steady s x.dtdFile.toNat x.pos ∧
      AtDoctype x.dtdFile true false b.leaveDeclaration := by
  have hphase := h.phase
  have hd := h.doctype
  cases hmode : x.mode with
  | dtdContent =>
    simp only [Phase, hmode] at hphase
    rw [hmode] at hd
    rw [leaveDeclaration_eq hphase.declaration]
    exact ⟨hphase, hd.weaken⟩
  | inProlog =>
    simp only [Phase, hmode] at hphase
    rw [hmode] at hd
    rw [leaveDeclaration_eq hphase.1.declaration]
    exact ⟨hphase.1, hd.weaken⟩
  | declaration _ =>
    simp only [Phase, hmode] at hphase
    rw [hmode] at hd
    obtain ⟨hleave, hp, hdoctype⟩ := hphase.leave
    exact ⟨hleave, (hd.leave hdoctype hp).weaken⟩
  | _ => simp [Lexer.YieldsToDeclaration, hmode] at hy

theorem Fits.step_declaration (hc : x.Consistent) (h : Fits s x b) (hy : x.YieldsToDeclaration)
    (hk : Lexer.StartsDeclaration kind mode) (hlt : x.pos < pos) (hsize : pos ≤ size s) {inDtd : Bool}
    (hin : inDtd = true) :
    Fits s ({ x with inProlog := false }.moved pos spaced mode)
      (step s b ⟨kind, x.pos, pos, fault⟩ inDtd) := by
  subst hin
  obtain ⟨hsteady, hd⟩ := h.beforeDeclaration hc hy
  have hopen := openAttribute_beforeMarkup b x.pos true
  have hsubset : x.dtdFile = false → ({ x with inProlog := false }.moved pos spaced mode).inDoctype = true := by
    intro hfile
    have hdtd := hc.inDtd_of_yieldsToDeclaration hy
    simp only [Lexer.inDtd, hfile, Bool.false_or] at hdtd
    simp [Lexer.inDoctype, hdtd]
  have hnew (body : Declaration.Body) :
      (b.openDeclaration ⟨kind, x.pos, pos, fault⟩ body).Declaring s x.dtdFile.toNat pos ∧
        AtDoctype x.dtdFile true true (b.openDeclaration ⟨kind, x.pos, pos, fault⟩ body) :=
    Steady.openDeclaration (t := ⟨kind, x.pos, pos, fault⟩) (h.leaveDeclaration hy).1
      (h.leaveDeclaration hy).2 hlt hsize
  rcases hk with ⟨rfl, rfl⟩ | hk
  · rw [step_text]
    exact ⟨hsteady.append trivial hlt hsize, (hd.append .text _).strengthen hsubset⟩
  · simp only [Lexer.dtdOpeners, List.map_cons, List.map_nil, List.mem_cons, Prod.mk.injEq,
      List.not_mem_nil, or_false] at hk
    rcases hk with ⟨rfl, rfl⟩ | ⟨rfl, rfl⟩ | ⟨rfl, rfl⟩ | ⟨rfl, rfl⟩ | ⟨rfl, rfl⟩ | ⟨rfl, rfl⟩
    · rw [step_dtd]
      exact ⟨(hnew _).1, (hnew _).2.strengthen hsubset⟩
    · rw [step_dtd]
      exact ⟨(hnew _).1, (hnew _).2.strengthen hsubset⟩
    · rw [step_dtd]
      exact ⟨(hnew _).1, (hnew _).2.strengthen hsubset⟩
    · rw [step_dtd]
      exact ⟨(hnew _).1, (hnew _).2.strengthen hsubset⟩
    · rw [step_commentOpen]
      refine ⟨⟨hsteady.openNode trivial rfl hlt hsize, _, .inl (kindOf_openNode ..)⟩, ?_⟩
      exact (hd.openNode _ _).strengthen hsubset
    · rw [step_instructionOpen]
      refine ⟨⟨hsteady.openNode rfl rfl hlt hsize, (openNode_openAttribute ..).trans hopen, _,
        kindOf_openNode .., rfl⟩, ?_⟩
      exact (hd.openNode _ _).strengthen hsubset

/-! ## Inside a tag -/

theorem Fits.of_outside (h : Fits s x b) (hx : x.inDoctype = false) (hfile : y.dtdFile = x.dtdFile)
    (hphase : Phase s y b') (hd : b'.doctype = b.doctype) : Fits s y b' := by
  refine ⟨hphase, ?_⟩
  have hout := h.doctype
  rw [hx] at hout
  rw [hfile]
  exact hout.outside hd

theorem phase_tagMode (h : b.Steady s x.dtdFile.toNat pos) (ha : b.OwnsAttribute) :
    Phase s (x.moved pos spaced x.tagMode) b := by
  unfold Lexer.tagMode
  split <;> exact ⟨h, ha⟩

theorem phase_contentMode (h : b.Steady s x.dtdFile.toNat pos) :
    Phase s (x.moved pos spaced x.contentMode) b := by
  unfold Lexer.contentMode
  split <;> exact h

theorem inDoctype_eq_false (hc : x.Consistent) (hmode : x.mode = .afterStartTagOpen ∨
    x.mode = .afterEndTagOpen ∨ x.mode = .inTag ∨ x.mode = .inProlog ∨ x.mode = .inEndTag ∨
    x.mode = .afterAttributeName ∨ x.mode = .beforeAttributeValue ∨ x.mode = .inCData) :
    x.inDoctype = false := by
  have hm := hc.mode
  rcases hmode with h | h | h | h | h | h | h | h <;> simp only [Lexer.Agrees, h] at hm
  case inr.inr.inr.inl => simp [Lexer.inDoctype, h, hm.2]
  case inr.inr.inr.inr.inr.inl | inr.inr.inr.inr.inr.inr.inl => simp [Lexer.inDoctype, h, hm.1]
  all_goals simp [Lexer.inDoctype, h, Lexer.inSubset_eq_false hm.2]

/-- The second builder is the first one with some nodes changed but all links kept. -/
structure Keeps (b b' : Builder) : Prop where
  links : Relinks b.nodes b'.nodes
  current : b'.current = b.current
  doctype : b'.doctype = b.doctype
  openAttribute : b'.openAttribute = b.openAttribute

theorem Keeps.refl (b : Builder) : Keeps b b :=
  ⟨fun j => by cases b.nodes[j]? <;> simp [SameLinks.refl], rfl, rfl, rfl⟩

theorem OwnsAttribute.of_keeps (h : b.OwnsAttribute) (hk : Keeps b b') : b'.OwnsAttribute :=
  h.of_relinks hk.links hk.openAttribute hk.current

theorem AtDoctype.of_keeps {file inDoctype inner : Bool} (h : AtDoctype file inDoctype inner b)
    (hk : Keeps b b') : AtDoctype file inDoctype inner b' :=
  h.of_relinks hk.links hk.doctype hk.current

theorem Steady.adjust {k : Kind} {stop : Nat} (h : b.Steady s top edge) (k' : Kind)
    (hkind : b.kindOf b.current = k) (hk : k.Alike k')
    (hclosed : k'.isClosedElement = k.isClosedElement) (hle : edge ≤ stop) (hsize : stop ≤ size s) :
    (b.update b.current k' stop).Steady s top stop ∧ Keeps b (b.update b.current k' stop) := by
  subst hkind
  exact ⟨h.update mayGrow_current hk hclosed hle hsize, relinks_update hk stop, rfl, rfl, rfl⟩

theorem Steady.finish {k : Kind} {stop : Nat} (h : b.Steady s top edge) (k' : Kind)
    (hkind : b.kindOf b.current = k) (hk : k.Alike k') (hinner : k.isOuter = false)
    (hle : edge ≤ stop) (hsize : stop ≤ size s) :
    (b.update b.current k' stop).leave.Steady s top stop ∧
      parentAt b.nodes b.current = some (b.update b.current k' stop).leave.current := by
  subst hkind
  obtain ⟨n, hn, -⟩ := h.nested.current_node
  rw [kindOf_eq hn] at hinner
  exact h.close (top_lt_of_kind h.nested hn hinner) (grows_update hk) (fun _ => Nat.le_max_right ..)
    hle hsize

section tag
variable {i j : Nat} (fault : Option Token.Fault) (inDtd : Bool)

theorem Steady.startTagName (h : b.Steady s top i) (hle : i ≤ j) (hsize : j ≤ size s) :
    (step s b ⟨.startTagName, i, j, fault⟩ inDtd).Steady s top j ∧
      Keeps b (step s b ⟨.startTagName, i, j, fault⟩ inDtd) := by
  cases hkind : b.kindOf b.current with
  | element e =>
    rw [step_startTagName hkind]
    exact h.adjust _ hkind rfl rfl hle hsize
  | _ =>
    simp only [step, tagToken, hkind]
    exact ⟨h.mono hle hsize, .refl b⟩

theorem Steady.unknown (h : b.Steady s top i) (hle : i ≤ j) (hsize : j ≤ size s) :
    (step s b ⟨.unknown, i, j, fault⟩ inDtd).Steady s top j ∧
      Keeps b (step s b ⟨.unknown, i, j, fault⟩ inDtd) := by
  cases hkind : b.kindOf b.current with
  | element e =>
    simp only [step, tagToken, hkind]
    split
    · exact ⟨h.extend mayGrow_current hle hsize, relinks_extend _ _ _, rfl, rfl, rfl⟩
    · exact ⟨h.mono hle hsize, .refl b⟩
  | _ =>
    simp only [step, tagToken, hkind]
    exact ⟨h.mono hle hsize, .refl b⟩

theorem Steady.startTagClose (h : b.Steady s top i) (hle : i ≤ j) (hsize : j ≤ size s) :
    (step s b ⟨.startTagClose, i, j, fault⟩ inDtd).Steady s top j ∧
      (step s b ⟨.startTagClose, i, j, fault⟩ inDtd).doctype = b.doctype := by
  cases hkind : b.kindOf b.current with
  | element e =>
    rw [step_startTagClose hkind]
    refine ⟨(h.forget.adjust _ hkind ?_ ?_ hle hsize).1, rfl⟩ <;> rfl
  | _ =>
    simp only [step, tagToken, hkind]
    exact ⟨h.forget.mono hle hsize, trivial⟩

theorem Steady.startTagSelfClose (h : b.Steady s top i) (hle : i ≤ j) (hsize : j ≤ size s) :
    (step s b ⟨.startTagSelfClose, i, j, fault⟩ inDtd).Steady s top j ∧
      (step s b ⟨.startTagSelfClose, i, j, fault⟩ inDtd).doctype = b.doctype := by
  cases hkind : b.kindOf b.current with
  | element e =>
    rw [step_startTagSelfClose hkind]
    refine ⟨(h.forget.finish _ hkind ?_ rfl hle hsize).1, rfl⟩
    rfl
  | _ =>
    simp only [step, tagToken, hkind]
    exact ⟨h.forget.mono hle hsize, trivial⟩

theorem doctype_attributeName (t : Token) : (attributeName s b t).doctype = b.doctype := by
  unfold attributeName
  dsimp only
  split <;> rfl

theorem doctype_assign (t : Token) : (assign b t).doctype = b.doctype := by
  unfold assign
  split
  · split <;> rfl
  · rfl

theorem doctype_attributeValue (t : Token) : (attributeValue s b t).doctype = b.doctype := by
  unfold attributeValue
  split
  · dsimp only
    split <;> rfl
  · rfl

theorem doctype_endTag {start : Nat} (t : Token) (h : b.endTagOpen = some start) :
    (endTag s b t).doctype = b.doctype := by
  rw [endTag_eq h]
  dsimp only
  split
  · rw [closeAt, foldl_extend]
    dsimp only
    split <;> rfl
  · rfl

theorem Closing.endTagClose (h : b.Closing s top i) (hle : i ≤ j) (hsize : j ≤ size s) :
    (step s b ⟨.endTagClose, i, j, fault⟩ inDtd).Steady s top j ∧
      (step s b ⟨.endTagClose, i, j, fault⟩ inDtd).doctype = b.doctype := by
  obtain ⟨e, he, hclosed, hend⟩ := h.kind
  rw [step_endTagClose he h.endTagOpen hclosed hend]
  exact ⟨h.close he rfl hle hsize, rfl⟩

theorem Pending.endTagClose {start : Nat} (h : b.Pending s top start i) (hstart : start < i)
    (hle : i ≤ j) (hsize : j ≤ size s) :
    (step s b ⟨.endTagClose, i, j, fault⟩ inDtd).Steady s top j ∧
      (step s b ⟨.endTagClose, i, j, fault⟩ inDtd).doctype = b.doctype := by
  simp only [step, tagToken, h.endTagOpen, Option.isSome_some, if_true]
  refine ⟨h.flush (Nat.lt_of_lt_of_le hstart hle) hle hsize _, ?_⟩
  rw [flushEndTag, h.endTagOpen]
  rfl

theorem Closing.unknown (h : b.Closing s top i) :
    step s b ⟨.unknown, i, j, fault⟩ inDtd = b := by
  obtain ⟨e, he, -, hend⟩ := h.kind
  have hnone : e.endOpen.isNone = false := by simpa [Option.isNone_iff_eq_none] using hend
  simp [step, tagToken, he, hnone]

theorem Pending.unknown {start : Nat} (h : b.Pending s top start i) (hle : i ≤ j)
    (hsize : j ≤ size s) :
    (step s b ⟨.unknown, i, j, fault⟩ inDtd).Pending s top start j ∧
      (step s b ⟨.unknown, i, j, fault⟩ inDtd).doctype = b.doctype := by
  cases hkind : b.kindOf b.current with
  | element e =>
    simp only [step, tagToken, hkind]
    split
    · exact ⟨h.extend hle hsize, rfl⟩
    · exact ⟨h.mono hle hsize, rfl⟩
  | _ =>
    simp only [step, tagToken, hkind]
    exact ⟨h.mono hle hsize, trivial⟩

end tag

/-! ## Inside a comment, a CDATA section or an instruction -/

theorem kindOf_update_current {k : Kind} {stop : Nat} (h : Nested s top b.nodes b.current edge) :
    (b.update b.current k stop).kindOf (b.update b.current k stop).current = k := by
  obtain ⟨n, hn, -⟩ := h.current_node
  refine kindOf_eq (n := withKind k stop n) ?_
  show (b.nodes.modify b.current _)[b.current]? = _
  rw [Array.getElem?_modify, if_pos rfl, hn]
  rfl

section sections
variable {i j : Nat} (fault : Option Token.Fault) (inDtd : Bool)

theorem Steady.enclosedText {c : Enclosed} (h : b.Steady s top i)
    (hc : b.kindOf b.current = .comment c ∨ b.kindOf b.current = .cdata c)
    (hk : kind = .commentText ∨ kind = .cdataText) (hle : i ≤ j) (hsize : j ≤ size s) :
    (step s b ⟨kind, i, j, fault⟩ inDtd).Steady s top j ∧
      Keeps b (step s b ⟨kind, i, j, fault⟩ inDtd) ∧
      ∃ c, (step s b ⟨kind, i, j, fault⟩ inDtd).kindOf b.current = .comment c ∨
        (step s b ⟨kind, i, j, fault⟩ inDtd).kindOf b.current = .cdata c := by
  rcases hc with hc | hc
  · obtain ⟨h', hkeeps⟩ := h.adjust (.comment { c with content := some ⟨i, j⟩ }) hc trivial rfl
      hle hsize
    rw [step_text_of_comment hc hk]
    exact ⟨h', hkeeps, _, .inl (kindOf_update_current h.nested)⟩
  · obtain ⟨h', hkeeps⟩ := h.adjust (.cdata { c with content := some ⟨i, j⟩ }) hc trivial rfl
      hle hsize
    rw [step_text_of_cdata hc hk]
    exact ⟨h', hkeeps, _, .inr (kindOf_update_current h.nested)⟩

theorem Steady.enclosedClose {c : Enclosed} (h : b.Steady s top i)
    (hc : b.kindOf b.current = .comment c ∨ b.kindOf b.current = .cdata c)
    (hk : kind = .commentClose ∨ kind = .cdataClose) (hle : i ≤ j) (hsize : j ≤ size s) :
    (step s b ⟨kind, i, j, fault⟩ inDtd).Steady s top j ∧
      parentAt b.nodes b.current = some (step s b ⟨kind, i, j, fault⟩ inDtd).current ∧
      (step s b ⟨kind, i, j, fault⟩ inDtd).doctype = b.doctype := by
  rcases hc with hc | hc
  · obtain ⟨h', hp⟩ := h.finish (.comment { c with closed := true }) hc trivial rfl hle
      hsize
    rw [step_close_of_comment hc hk]
    exact ⟨h', hp, rfl⟩
  · obtain ⟨h', hp⟩ := h.finish (.cdata { c with closed := true }) hc trivial rfl hle
      hsize
    rw [step_close_of_cdata hc hk]
    exact ⟨h', hp, rfl⟩

theorem Steady.instructionPart {p p' : Instruction} {b' : Builder} (h : b.Steady s top i)
    (hp : b.kindOf b.current = .instruction p) (hb : b' = b.update b.current (.instruction p') j)
    (hattr : p'.attributes = p.attributes) (hprolog : p.isProlog = true → p'.isProlog = true)
    (hle : i ≤ j) (hsize : j ≤ size s) :
    b'.Steady s top j ∧ Keeps b b' ∧ b'.kindOf b'.current = .instruction p' := by
  subst hb
  obtain ⟨h', hkeeps⟩ := h.adjust (.instruction p') hp ⟨hattr, hprolog⟩ rfl hle hsize
  exact ⟨h', hkeeps, kindOf_update_current h.nested⟩

theorem Steady.prologName {p : Instruction} (h : b.Steady s top i)
    (hp : b.kindOf b.current = .instruction p) (hle : i ≤ j) (hsize : j ≤ size s) :
    (step s b ⟨.prologName, i, j, fault⟩ inDtd).Steady s top j ∧
      Keeps b (step s b ⟨.prologName, i, j, fault⟩ inDtd) := by
  obtain ⟨h', hkeeps, -⟩ := h.instructionPart hp (step_prologName hp) rfl (fun _ => rfl) hle hsize
  exact ⟨h', hkeeps⟩

theorem Steady.instructionTarget {p : Instruction} (h : b.Steady s top i)
    (hp : b.kindOf b.current = .instruction p) (hprolog : p.isProlog = false) (hle : i ≤ j)
    (hsize : j ≤ size s) :
    (step s b ⟨.instructionTarget, i, j, fault⟩ inDtd).Steady s top j ∧
      Keeps b (step s b ⟨.instructionTarget, i, j, fault⟩ inDtd) ∧
      ∃ p', (step s b ⟨.instructionTarget, i, j, fault⟩ inDtd).kindOf
        (step s b ⟨.instructionTarget, i, j, fault⟩ inDtd).current = .instruction p' := by
  obtain ⟨h', hkeeps, hkind⟩ := h.instructionPart hp (step_instructionTarget hp) rfl (by simp [hprolog]) hle hsize
  exact ⟨h', hkeeps, _, hkind⟩

theorem Steady.instructionContent {p : Instruction} (h : b.Steady s top i)
    (hp : b.kindOf b.current = .instruction p) (hle : i ≤ j) (hsize : j ≤ size s) :
    (step s b ⟨.instructionContent, i, j, fault⟩ inDtd).Steady s top j ∧
      Keeps b (step s b ⟨.instructionContent, i, j, fault⟩ inDtd) ∧
      ∃ p', (step s b ⟨.instructionContent, i, j, fault⟩ inDtd).kindOf
        (step s b ⟨.instructionContent, i, j, fault⟩ inDtd).current = .instruction p' := by
  obtain ⟨h', hkeeps, hkind⟩ := h.instructionPart hp (step_instructionContent hp) rfl id hle hsize
  exact ⟨h', hkeeps, _, hkind⟩

theorem Steady.instructionClose {p : Instruction} (h : b.Steady s top i)
    (hp : b.kindOf b.current = .instruction p)
    (hk : kind = .instructionClose ∨ kind = .prologClose) (hle : i ≤ j) (hsize : j ≤ size s) :
    (step s b ⟨kind, i, j, fault⟩ inDtd).Steady s top j ∧
      parentAt b.nodes b.current = some (step s b ⟨kind, i, j, fault⟩ inDtd).current ∧
      (step s b ⟨kind, i, j, fault⟩ inDtd).doctype = b.doctype := by
  obtain ⟨h', hparent⟩ := h.forget.finish (.instruction { p with closed := true }) hp
    ⟨rfl, id⟩ rfl hle hsize
  rw [step_close_of_instruction hp hk]
  exact ⟨h', hparent, rfl⟩

theorem Steady.prologClose (h : b.Steady s top i) (hle : i ≤ j) (hsize : j ≤ size s) :
    (step s b ⟨.prologClose, i, j, fault⟩ inDtd).Steady s top j ∧
      (step s b ⟨.prologClose, i, j, fault⟩ inDtd).doctype = b.doctype := by
  cases hkind : b.kindOf b.current with
  | instruction p =>
    exact (h.instructionClose fault inDtd hkind (.inr rfl) hle hsize).imp_right And.right
  | _ =>
    simp only [step, sectionToken, hkind]
    exact ⟨h.forget.mono hle hsize, trivial⟩

end sections

/-! ## Inside a document type -/

section dtd
variable {t : Token} (inDtd : Bool)

theorem Declaring.adjust {d' : Declaration} (h : b.Declaring s top edge) (hle : edge ≤ t.stop)
    (hsize : t.stop ≤ size s) :
    (b.update b.current (.declaration d') t.stop).Declaring s top t.stop ∧
      Keeps b (b.update b.current (.declaration d') t.stop) := by
  obtain ⟨d, hd⟩ := h.kind
  have hd' : { b with declaration := none }.kindOf b.current = .declaration d := hd
  obtain ⟨h', hkeeps⟩ := h.steady.adjust (.declaration d') hd' trivial rfl hle hsize
  obtain ⟨n, hn, -⟩ := h.steady.nested.current_node
  refine ⟨⟨⟨h'.1, h'.2, h'.3, rfl⟩, h.declaration, ⟨d', kindOf_update_current h.steady.nested⟩, ?_⟩, ?_⟩
  · exact sealed_modify h'.nested (lt_size_of_getElem? hn) h.steady.nested.top_le fun _ =>
      Nat.le_max_right ..
  · exact ⟨hkeeps.links, rfl, rfl, rfl⟩

theorem Declaring.unrecognized (h : b.Declaring s top edge) (hle : edge ≤ t.stop)
    (hsize : t.stop ≤ size s) :
    (unrecognized s b t).Declaring s top t.stop ∧ Keeps b (unrecognized s b t) := by
  obtain ⟨d, hd⟩ := h.kind
  rw [Builder.unrecognized, h.declaration, Option.some_or]
  dsimp only
  rw [hd]
  exact h.adjust hle hsize

theorem Declaring.parameter {k : Token.DtdKind} (h : b.Declaring s top edge) (hle : edge ≤ t.stop)
    (hsize : t.stop ≤ size s) :
    (declarationParameter s b k t).Declaring s top t.stop ∧
      Keeps b (declarationParameter s b k t) := by
  obtain ⟨d, hd⟩ := h.kind
  obtain ⟨nodes, current, doctype, declaration, openAttribute, endTagOpen, contentStart⟩ := b
  obtain rfl : declaration = some current := h.declaration
  by_cases hk : k = .contentOpen
  · have hstart : (Builder.mk nodes current doctype (some current) openAttribute endTagOpen
        (some t.start)).Declaring s top edge := ⟨⟨h.1.1, h.1.2, h.1.3, rfl⟩, h.2, h.3, h.4⟩
    have hd' : kindOf ⟨nodes, current, doctype, some current, openAttribute, endTagOpen,
        some t.start⟩ current = .declaration d := hd
    simp only [declarationParameter, if_pos hk, hd']
    obtain ⟨h', hkeeps⟩ := hstart.adjust hle hsize
    exact ⟨h', hkeeps.links, rfl, rfl, rfl⟩
  · simp only [declarationParameter, if_neg hk, hd]
    exact h.adjust hle hsize

theorem Declaring.step {k : Token.DtdKind} (hk : k ∈ Lexer.declarationParameters)
    (h : b.Declaring s top edge) (hle : edge ≤ t.stop) (hsize : t.stop ≤ size s) :
    (dtdToken s b k t inDtd).Declaring s top t.stop ∧ Keeps b (dtdToken s b k t inDtd) := by
  have hu := h.unrecognized hle hsize
  have hp := fun k => h.parameter (k := k) hle hsize
  simp only [Lexer.declarationParameters, List.mem_cons, List.not_mem_nil, or_false] at hk
  rcases hk with rfl | rfl | rfl | rfl | rfl | rfl | rfl | rfl | rfl | rfl | rfl | rfl | rfl | rfl |
    rfl | rfl | rfl | rfl | rfl | rfl | rfl | rfl
  case inr.inr.inr.inr.inr.inr.inr.inr.inr.inr.inr.inr.inr.inr.inr.inr.inr.inr.inr.inr.inr => exact hu
  all_goals exact hp _

theorem Declaring.close (h : b.Declaring s top edge) (hle : edge ≤ t.stop) (hsize : t.stop ≤ size s) :
    (dtdToken s b .declarationClose t inDtd).Steady s top t.stop ∧
      parentAt b.nodes b.current = some (dtdToken s b .declarationClose t inDtd).current ∧
      (dtdToken s b .declarationClose t inDtd).doctype = b.doctype := by
  obtain ⟨d, hd⟩ := h.kind
  have hd' : { b with declaration := none }.kindOf b.current = .declaration d := hd
  obtain ⟨h', hp⟩ := h.steady.finish (.declaration { d with closed := true }) hd' trivial rfl
    hle hsize
  have hstep : dtdToken s b .declarationClose t inDtd =
      ({ b with declaration := none }.update b.current (.declaration { d with closed := true })
        t.stop).leave := by
    simp only [dtdToken, h.declaration, hd]
    rfl
  rw [hstep]
  exact ⟨h', hp, rfl⟩

theorem keeps_onDoctype {g : Doctype → Doctype} : Keeps b (b.onDoctype t g) := by
  cases hi : b.doctype with
  | none =>
    have hb : b.onDoctype t g = b := by simp [onDoctype, hi]
    rw [hb]
    exact .refl b
  | some i =>
    obtain ⟨f, hf, hgrows, -⟩ := onDoctype_eq (g := g) (t := t) hi
    rw [hf]
    exact ⟨relinks_modify fun n hn => (hgrows n hn).links, rfl, rfl, rfl⟩

theorem Steady.unrecognized {file inDoctype inner : Bool} (h : b.Steady s file.toNat edge)
    (hd : AtDoctype file inDoctype inner b) (hle : edge ≤ t.stop) (hsize : t.stop ≤ size s) :
    (unrecognized s b t).Steady s file.toNat t.stop ∧ Keeps b (unrecognized s b t) := by
  rw [Builder.unrecognized, h.declaration, Option.none_or]
  split
  · rename_i i hi
    have hgrow : MayGrow b.nodes b.current i := .inl (hd.mem_chain h.nested hi)
    split
    · rename_i d hkind
      refine ⟨h.update hgrow ?_ ?_ hle hsize, relinks_update ?_ _, rfl, rfl, rfl⟩
      all_goals
        rw [hkind]
        trivial
    · rename_i d hkind
      refine ⟨h.update hgrow ?_ ?_ hle hsize, relinks_update ?_ _, rfl, rfl, rfl⟩
      all_goals
        rw [hkind]
        trivial
    · exact ⟨h.mono hle hsize, .refl b⟩
  · exact ⟨h.mono hle hsize, .refl b⟩

theorem Steady.doctypeParameter {file inDoctype inner : Bool} {k : Token.DtdKind}
    (hk : k ∈ Lexer.doctypeParameters) (h : b.Steady s file.toNat edge)
    (hd : AtDoctype file inDoctype inner b) (hle : edge ≤ t.stop) (hsize : t.stop ≤ size s) :
    (dtdToken s b k t inDtd).Steady s file.toNat t.stop ∧ Keeps b (dtdToken s b k t inDtd) := by
  simp only [Lexer.doctypeParameters, List.mem_cons, List.not_mem_nil, or_false] at hk
  rcases hk with rfl | rfl | rfl | rfl | rfl | rfl
  case inr.inr.inr.inr.inr => exact h.unrecognized hd hle hsize
  all_goals exact ⟨(h.onDoctype hd hle hsize).1, keeps_onDoctype⟩

theorem Steady.doctypeClose (h : b.Steady s 0 edge) (hd : AtDoctype false true false b)
    (hle : edge ≤ t.stop) (hsize : t.stop ≤ size s) :
    (dtdToken s b .doctypeClose t inDtd).Steady s 0 t.stop ∧
      (dtdToken s b .doctypeClose t inDtd).doctype = none := by
  simp only [dtdToken, leaveDeclaration_eq h.declaration]
  cases hi : b.doctype with
  | none => exact ⟨h.mono hle hsize, hi⟩
  | some i =>
    obtain ⟨-, hpos, hcurrent⟩ := hd i hi
    obtain rfl := Option.some.inj hcurrent
    obtain ⟨f, hf, hgrows, -, hstop⟩ := onDoctype_eq (t := t) (g := fun d => { d with closed := true }) hi
    dsimp only
    rw [hf]
    obtain ⟨⟨h₁, h₂, h₃, h₄⟩, -⟩ := h.close hpos hgrows hstop hle hsize
    exact ⟨⟨h₁, h₂, h₃, h₄⟩, rfl⟩

end dtd

/-! ## A step -/

theorem Fits.blank (h : Fits s x b) (hlt : x.pos < pos) (hsize : pos ≤ size s) :
    Fits s (x.moved pos spaced x.mode) b := by
  have hle := Nat.le_of_lt hlt
  refine ⟨?_, h.doctype⟩
  have hphase := h.phase
  cases hmode : x.mode with
  | content | dtdContent | doctype _ =>
    simp only [Phase, hmode] at hphase
    exact hphase.mono hle hsize
  | afterEndTagOpen =>
    simp only [Phase, hmode] at hphase
    obtain ⟨start, hstart, hpending⟩ := hphase
    exact ⟨start, Nat.lt_trans hstart hlt, hpending⟩
  | inEndTag =>
    simp only [Phase, hmode] at hphase
    rcases hphase with ⟨start, hstart, hpending⟩ | hclosing
    · exact .inl ⟨start, Nat.lt_trans hstart hlt, hpending.mono hle hsize⟩
    · exact .inr (hclosing.mono hle hsize)
  | declaration _ =>
    simp only [Phase, hmode] at hphase
    exact ⟨hphase.steady.mono hle hsize, hphase.2, hphase.3, hphase.4⟩
  | _ =>
    simp only [Phase, hmode] at hphase
    exact ⟨hphase.1.mono hle hsize, hphase.2⟩

theorem Fits.of_falls (h : Fits s x b) (hsize : x.pos ≤ size s) (hf : Falls x spaced y) :
    Fits s y b := by
  have hphase := h.phase
  have hd := h.doctype
  cases hf with
  | startTag hmode =>
    simp only [Phase, hmode] at hphase
    simp only [Lexer.inDoctype, hmode] at hd
    exact ⟨hphase, hd⟩
  | endTag hmode =>
    simp only [Phase, hmode] at hphase
    simp only [Lexer.inDoctype, hmode] at hd
    obtain ⟨start, hstart, hpending⟩ := hphase
    exact ⟨.inl ⟨start, hstart, hpending.mono (Nat.le_of_lt hstart) hsize⟩, hd⟩
  | backInTag hmode =>
    refine ⟨?_, ?_⟩
    · rcases hmode with hmode | hmode <;>
      · simp only [Phase, hmode] at hphase
        exact phase_tagMode hphase.1 hphase.2
    · rcases hmode with hmode | hmode <;>
      · simp only [Lexer.inDoctype, hmode] at hd
        unfold Lexer.tagMode
        split <;> exact hd
  | instruction hmode =>
    simp only [Phase, hmode] at hphase
    simp only [Lexer.inDoctype, hmode] at hd
    exact ⟨⟨hphase.1, _, hphase.2.2.choose_spec.1⟩, hd⟩

theorem inDoctype_contentMode : (x.moved pos spaced x.contentMode).inDoctype = x.inSubset := by
  unfold Lexer.contentMode
  split <;> simp [Lexer.inDoctype]

theorem isInner_contentMode : x.contentMode.isInner = false := by
  unfold Lexer.contentMode
  split <;> rfl

theorem Fits.of_leave (hd : AtDoctype x.dtdFile x.inSubset true b)
    (h : b'.Steady s x.dtdFile.toNat pos) (hp : parentAt b.nodes b.current = some b'.current)
    (hdoctype : b'.doctype = b.doctype) : Fits s (x.moved pos spaced x.contentMode) b' := by
  refine ⟨phase_contentMode h, ?_⟩
  rw [inDoctype_contentMode, Lexer.moved_mode, isInner_contentMode]
  exact hd.leave hdoctype hp

/-! ### Inside a tag -/

section outside
variable {inDtd : Bool} (hc : x.Consistent) (h : Fits s x b) (hle : x.pos ≤ pos) (hsize : pos ≤ size s)
include hc h hle hsize

theorem Fits.startTagName (hmode : x.mode = .afterStartTagOpen) :
    Fits s (x.moved pos spaced .inTag) (step s b ⟨.startTagName, x.pos, pos, fault⟩ inDtd) := by
  obtain ⟨hsteady, howns⟩ := h.inTag (.inl hmode)
  obtain ⟨h', hkeeps⟩ := hsteady.startTagName fault inDtd hle hsize
  exact h.of_outside (inDoctype_eq_false hc (by simp [hmode])) rfl ⟨h', howns.of_keeps hkeeps⟩
    hkeeps.doctype

theorem Fits.startTagClose (hmode : x.mode = .inTag) :
    Fits s (x.moved pos spaced .content) (step s b ⟨.startTagClose, x.pos, pos, fault⟩ inDtd) := by
  obtain ⟨hsteady, -⟩ := h.inTag (.inr (.inl hmode))
  obtain ⟨h', hdoctype⟩ := hsteady.startTagClose fault inDtd hle hsize
  exact h.of_outside (inDoctype_eq_false hc (by simp [hmode])) rfl h' hdoctype

theorem Fits.startTagSelfClose (hmode : x.mode = .inTag) :
    Fits s (x.moved pos spaced .content) (step s b ⟨.startTagSelfClose, x.pos, pos, fault⟩ inDtd) := by
  obtain ⟨hsteady, -⟩ := h.inTag (.inr (.inl hmode))
  obtain ⟨h', hdoctype⟩ := hsteady.startTagSelfClose fault inDtd hle hsize
  exact h.of_outside (inDoctype_eq_false hc (by simp [hmode])) rfl h' hdoctype

theorem Fits.endTagName (hmode : x.mode = .afterEndTagOpen) :
    Fits s (x.moved pos spaced .inEndTag) (step s b ⟨.endTagName, x.pos, pos, fault⟩ inDtd) := by
  obtain ⟨start, hstart, hpending⟩ := h.afterEndTagOpen hmode
  have hclosing := hpending.endTag (t := ⟨.endTagName, x.pos, pos, fault⟩)
    (Nat.lt_of_lt_of_le hstart hle) hsize
  exact h.of_outside (inDoctype_eq_false hc (by simp [hmode])) rfl (.inr hclosing)
    (doctype_endTag _ hpending.endTagOpen)

theorem Fits.endTagClose (hmode : x.mode = .inEndTag) :
    Fits s (x.moved pos spaced .content) (step s b ⟨.endTagClose, x.pos, pos, fault⟩ inDtd) := by
  have hout := inDoctype_eq_false hc (by simp [hmode])
  rcases h.inEndTag hmode with ⟨start, hstart, hpending⟩ | hclosing
  · obtain ⟨h', hdoctype⟩ := hpending.endTagClose fault inDtd hstart hle hsize
    exact h.of_outside hout rfl h' hdoctype
  · obtain ⟨h', hdoctype⟩ := hclosing.endTagClose fault inDtd hle hsize
    exact h.of_outside hout rfl h' hdoctype

theorem Fits.unknown_inTag (hmode : x.mode = .inTag ∨ x.mode = .inProlog) :
    Fits s (x.moved pos spaced x.mode) (step s b ⟨.unknown, x.pos, pos, fault⟩ inDtd) := by
  obtain ⟨hsteady, howns⟩ := h.inTag (by rcases hmode with hmode | hmode <;> simp [hmode])
  obtain ⟨h', hkeeps⟩ := hsteady.unknown fault inDtd hle hsize
  refine h.of_outside (inDoctype_eq_false hc (by rcases hmode with hmode | hmode <;> simp [hmode])) rfl ?_
    hkeeps.doctype
  rcases hmode with hmode | hmode <;>
  · rw [hmode]
    exact ⟨h', howns.of_keeps hkeeps⟩

omit hle in
theorem Fits.unknown_inEndTag (hlt : x.pos < pos) (hmode : x.mode = .inEndTag) :
    Fits s (x.moved pos spaced x.mode) (step s b ⟨.unknown, x.pos, pos, fault⟩ inDtd) := by
  rcases h.inEndTag hmode with ⟨start, hstart, hpending⟩ | hclosing
  · obtain ⟨h', hdoctype⟩ := hpending.unknown fault inDtd (Nat.le_of_lt hlt) hsize
    refine h.of_outside (inDoctype_eq_false hc (by simp [hmode])) rfl ?_ hdoctype
    rw [hmode]
    exact .inl ⟨start, Nat.lt_trans hstart hlt, h'⟩
  · rw [hclosing.unknown fault _]
    exact h.blank hlt hsize

omit hle in
theorem Fits.attributeName (hlt : x.pos < pos) (hmode : x.mode = .inTag ∨ x.mode = .inProlog) :
    Fits s (x.moved pos spaced .afterAttributeName)
      (step s b ⟨.attributeName, x.pos, pos, fault⟩ inDtd) := by
  obtain ⟨hsteady, howns⟩ := h.inTag (by rcases hmode with hmode | hmode <;> simp [hmode])
  exact h.of_outside (inDoctype_eq_false hc (by rcases hmode with hmode | hmode <;> simp [hmode])) rfl
    (hsteady.attributeName (t := ⟨.attributeName, x.pos, pos, fault⟩) howns hlt hsize)
    (doctype_attributeName _)

theorem Fits.assign (hmode : x.mode = .afterAttributeName) :
    Fits s (x.moved pos spaced .beforeAttributeValue) (step s b ⟨.assign, x.pos, pos, fault⟩ inDtd) := by
  obtain ⟨hsteady, howns⟩ := h.inTag (by simp [hmode])
  exact h.of_outside (inDoctype_eq_false hc (by simp [hmode])) rfl
    (hsteady.assign (t := ⟨.assign, x.pos, pos, fault⟩) howns hle hsize) (doctype_assign _)

theorem Fits.attributeValue (hmode : x.mode = .beforeAttributeValue) :
    Fits s (x.moved pos spaced x.tagMode) (step s b ⟨.attributeValue, x.pos, pos, fault⟩ inDtd) := by
  obtain ⟨hsteady, howns⟩ := h.inTag (by simp [hmode])
  obtain ⟨h', ha⟩ :=
    hsteady.attributeValue (t := ⟨.attributeValue, x.pos, pos, fault⟩) howns hle hsize
  exact h.of_outside (inDoctype_eq_false hc (by simp [hmode])) rfl (phase_tagMode h' ha)
    (doctype_attributeValue _)

/-! ### Inside a CDATA section or the XML declaration -/

theorem Fits.cdataText (hmode : x.mode = .inCData) :
    Fits s (x.moved pos spaced .inCData) (step s b ⟨.cdataText, x.pos, pos, fault⟩ inDtd) := by
  obtain ⟨hsteady, c, hkind⟩ := h.inEnclosed (.inr hmode)
  obtain ⟨h', hkeeps, hkind'⟩ := hsteady.enclosedText fault inDtd hkind (.inr rfl) hle hsize
  rw [← hkeeps.current] at hkind'
  exact h.of_outside (inDoctype_eq_false hc (by simp [hmode])) rfl ⟨h', hkind'⟩ hkeeps.doctype

theorem Fits.cdataClose (hmode : x.mode = .inCData) :
    Fits s (x.moved pos spaced x.contentMode) (step s b ⟨.cdataClose, x.pos, pos, fault⟩ inDtd) := by
  obtain ⟨hsteady, c, hkind⟩ := h.inEnclosed (.inr hmode)
  obtain ⟨h', -, hdoctype⟩ := hsteady.enclosedClose fault inDtd hkind (.inr rfl) hle hsize
  exact h.of_outside (inDoctype_eq_false hc (by simp [hmode])) rfl (phase_contentMode h') hdoctype

theorem Fits.prologName (hmode : x.mode = .afterInstructionOpen) (hpos : x.pos = 2) :
    Fits s ({ x with inProlog := true }.moved pos spaced .inProlog)
      (step s b ⟨.prologName, x.pos, pos, fault⟩ inDtd) := by
  obtain ⟨hsteady, hopen, p, hkind, -⟩ := h.afterInstructionOpen hmode
  -- a document type does not end as early as that
  have hsubset : x.inSubset = false :=
    Bool.eq_false_iff.mpr fun hs => absurd (hc.subset hs) (by omega)
  obtain ⟨h', hkeeps⟩ := hsteady.prologName fault inDtd hkind hle hsize
  exact h.of_outside (by simp [Lexer.inDoctype, hmode, hsubset]) rfl
    ⟨h', .of_none (hkeeps.openAttribute.trans hopen)⟩ hkeeps.doctype

theorem Fits.prologClose (hmode : x.mode = .inProlog) :
    Fits s ({ x with inProlog := false }.moved pos spaced x.contentMode)
      (step s b ⟨.prologClose, x.pos, pos, fault⟩ inDtd) := by
  obtain ⟨hsteady, -⟩ := h.inTag (by simp [hmode])
  obtain ⟨h', hdoctype⟩ := hsteady.prologClose fault inDtd hle hsize
  exact h.of_outside (inDoctype_eq_false hc (by simp [hmode])) rfl
    (phase_contentMode (x := { x with inProlog := false }) h') hdoctype

/-! ### Inside a document type -/

theorem Fits.doctypeClose {stage : Lexer.DoctypeStage} (hmode : x.mode = .doctype stage) :
    Fits s ({ x with inSubset := false }.moved pos spaced .content)
      (step s b ⟨.dtd .doctypeClose, x.pos, pos, fault⟩ inDtd) := by
  have hsteady := h.inDoctype hmode
  have hd := h.doctype
  have hm := hc.mode
  simp only [Lexer.Agrees, hmode] at hm
  rw [hmode] at hd
  have hfile := Lexer.dtdFile_eq_false hm.2.1
  rw [hfile] at hsteady hd
  obtain ⟨h', hnone⟩ :=
    hsteady.doctypeClose (t := ⟨.dtd .doctypeClose, x.pos, pos, fault⟩) inDtd hd.weaken hle hsize
  refine ⟨?_, .of_none hnone⟩
  show Steady s x.dtdFile.toNat pos _
  rw [hfile]
  exact h'

end outside

section anywhere
variable {inDtd : Bool} (h : Fits s x b) (hle : x.pos ≤ pos) (hsize : pos ≤ size s)
include h hle hsize

theorem Fits.subsetOpen {stage : Lexer.DoctypeStage} (hmode : x.mode = .doctype stage) :
    Fits s ({ x with inSubset := true }.moved pos spaced .dtdContent)
      (step s b ⟨.dtd .subsetOpen, x.pos, pos, fault⟩ inDtd) := by
  have hd := h.doctype
  rw [hmode] at hd
  have hon (g : Doctype → Doctype) := (h.inDoctype hmode).onDoctype
    (t := ⟨.dtd .subsetOpen, x.pos, pos, fault⟩) (g := g) hd.weaken hle hsize
  exact ⟨(hon _).1, (hon _).2⟩

theorem Fits.subsetClose (hy : x.YieldsToDeclaration) :
    Fits s ({ x with inProlog := false, inSubset := false }.moved pos spaced (.doctype .subset))
      (step s b ⟨.dtd .subsetClose, x.pos, pos, fault⟩ inDtd) := by
  obtain ⟨hsteady, hleft⟩ := h.leaveDeclaration hy
  have hon (g : Doctype → Doctype) := hsteady.onDoctype
    (t := ⟨.dtd .subsetClose, x.pos, pos, fault⟩) (g := g) hleft hle hsize
  exact ⟨(hon _).1, (hon _).2⟩

theorem Fits.doctypeParameter {stage next : Lexer.DoctypeStage} {k : Token.DtdKind}
    (hmode : x.mode = .doctype stage) (hk : k ∈ Lexer.doctypeParameters) :
    Fits s (x.moved pos spaced (.doctype next)) (step s b ⟨.dtd k, x.pos, pos, fault⟩ inDtd) := by
  have hd := h.doctype
  simp only [Lexer.inDoctype, hmode] at hd
  obtain ⟨h', hkeeps⟩ := Steady.doctypeParameter (t := ⟨.dtd _, x.pos, pos, fault⟩) inDtd hk
    (h.inDoctype hmode) hd hle hsize
  exact ⟨h', hd.of_keeps hkeeps⟩

theorem Fits.declarationClose {stage : Lexer.DeclarationStage} (hmode : x.mode = .declaration stage) :
    Fits s (x.moved pos spaced .dtdContent)
      (step s b ⟨.dtd .declarationClose, x.pos, pos, fault⟩ inDtd) := by
  have hd := h.doctype
  simp only [Lexer.inDoctype, hmode, Bool.or_false] at hd
  obtain ⟨h', hp, hdoctype⟩ := (h.inDeclaration hmode).close
    (t := ⟨.dtd .declarationClose, x.pos, pos, fault⟩) inDtd hle hsize
  refine ⟨h', ?_⟩
  show AtDoctype x.dtdFile (x.inSubset || false) false _
  rw [Bool.or_false]
  exact hd.leave hdoctype hp

theorem Fits.declarationParameter {stage next : Lexer.DeclarationStage} {k : Token.DtdKind}
    (hmode : x.mode = .declaration stage) (hk : k ∈ Lexer.declarationParameters) :
    Fits s (x.moved pos spaced (.declaration next)) (step s b ⟨.dtd k, x.pos, pos, fault⟩ inDtd) := by
  have hd := h.doctype
  simp only [Lexer.inDoctype, hmode] at hd
  obtain ⟨h', hkeeps⟩ := Declaring.step (t := ⟨.dtd _, x.pos, pos, fault⟩) inDtd hk
    (h.inDeclaration hmode) hle hsize
  exact ⟨h', hd.of_keeps hkeeps⟩

/-! ### Inside a comment or an instruction -/

theorem Fits.commentText (hmode : x.mode = .inComment) :
    Fits s (x.moved pos spaced .inComment) (step s b ⟨.commentText, x.pos, pos, fault⟩ inDtd) := by
  have hd := h.doctype
  simp only [Lexer.inDoctype, hmode] at hd
  obtain ⟨hsteady, c, hkind⟩ := h.inEnclosed (.inl hmode)
  obtain ⟨h', hkeeps, hkind'⟩ := hsteady.enclosedText fault inDtd hkind (.inl rfl) hle hsize
  rw [← hkeeps.current] at hkind'
  exact ⟨⟨h', hkind'⟩, hd.of_keeps hkeeps⟩

theorem Fits.commentClose (hmode : x.mode = .inComment) :
    Fits s (x.moved pos spaced x.contentMode) (step s b ⟨.commentClose, x.pos, pos, fault⟩ inDtd) := by
  have hd := h.doctype
  simp only [Lexer.inDoctype, hmode, Bool.or_false] at hd
  obtain ⟨hsteady, c, hkind⟩ := h.inEnclosed (.inl hmode)
  obtain ⟨h', hp, hdoctype⟩ := hsteady.enclosedClose fault inDtd hkind (.inl rfl) hle hsize
  exact Fits.of_leave hd h' hp hdoctype

theorem Fits.instructionTarget (hmode : x.mode = .afterInstructionOpen) :
    Fits s (x.moved pos spaced .inInstruction)
      (step s b ⟨.instructionTarget, x.pos, pos, fault⟩ inDtd) := by
  have hd := h.doctype
  simp only [Lexer.inDoctype, hmode] at hd
  obtain ⟨hsteady, -, p, hkind, hprolog⟩ := h.afterInstructionOpen hmode
  obtain ⟨h', hkeeps, hkind'⟩ := hsteady.instructionTarget fault inDtd hkind hprolog hle hsize
  exact ⟨⟨h', hkind'⟩, hd.of_keeps hkeeps⟩

theorem Fits.instructionContent (hmode : x.mode = .inInstruction) :
    Fits s (x.moved pos spaced .inInstruction)
      (step s b ⟨.instructionContent, x.pos, pos, fault⟩ inDtd) := by
  have hd := h.doctype
  simp only [Lexer.inDoctype, hmode] at hd
  obtain ⟨hsteady, p, hkind⟩ := h.inInstruction hmode
  obtain ⟨h', hkeeps, hkind'⟩ := hsteady.instructionContent fault inDtd hkind hle hsize
  exact ⟨⟨h', hkind'⟩, hd.of_keeps hkeeps⟩

theorem Fits.instructionClose (hmode : x.mode = .inInstruction) :
    Fits s (x.moved pos spaced x.contentMode)
      (step s b ⟨.instructionClose, x.pos, pos, fault⟩ inDtd) := by
  have hd := h.doctype
  simp only [Lexer.inDoctype, hmode, Bool.or_false] at hd
  obtain ⟨hsteady, p, hkind⟩ := h.inInstruction hmode
  obtain ⟨h', hp, hdoctype⟩ := hsteady.instructionClose fault inDtd hkind (.inl rfl) hle hsize
  exact Fits.of_leave hd h' hp hdoctype

end anywhere

/-- **Every token that can be read keeps the builder and the lexer together.** -/
theorem Fits.step (hc : x.Consistent) (h : Fits s x b) (hr : Reads x pos spaced kind y)
    (hlt : x.pos < pos) (hsize : pos ≤ size s) :
    Fits s y (step s b ⟨kind, x.pos, pos, fault⟩ y.inDtd) := by
  have hle := Nat.le_of_lt hlt
  cases hr with
  | blank => exact h.blank hlt hsize
  | content hy hk =>
    have hfile := hc.dtdFile_of_yieldsToContent hy
    exact h.step_content hc hy hk hlt hsize (by simp [Lexer.inDtd, hfile])
  | declaration hy hk =>
    exact h.step_declaration hc hy hk hlt hsize (hc.inDtd_of_yieldsToDeclaration hy)
  | startTagName hmode => exact h.startTagName hc hle hsize hmode
  | startTagClose hmode => exact h.startTagClose hc hle hsize hmode
  | startTagSelfClose hmode => exact h.startTagSelfClose hc hle hsize hmode
  | endTagName hmode => exact h.endTagName hc hle hsize hmode
  | endTagClose hmode => exact h.endTagClose hc hle hsize hmode
  | unknown hmode =>
    rcases hmode with hmode | hmode | hmode
    · exact h.unknown_inTag hc hle hsize (.inl hmode)
    · exact h.unknown_inTag hc hle hsize (.inr hmode)
    · exact h.unknown_inEndTag hc hsize hlt hmode
  | attributeName hmode => exact h.attributeName hc hsize hlt hmode
  | assign hmode => exact h.assign hc hle hsize hmode
  | attributeValue hmode => exact h.attributeValue hc hle hsize hmode
  | commentText hmode => exact h.commentText hle hsize hmode
  | commentClose hmode => exact h.commentClose hle hsize hmode
  | cdataText hmode => exact h.cdataText hc hle hsize hmode
  | cdataClose hmode => exact h.cdataClose hc hle hsize hmode
  | prologName hmode hpos => exact h.prologName hc hle hsize hmode hpos
  | prologClose hmode => exact h.prologClose hc hle hsize hmode
  | instructionTarget hmode => exact h.instructionTarget hle hsize hmode
  | instructionContent hmode => exact h.instructionContent hle hsize hmode
  | instructionClose hmode => exact h.instructionClose hle hsize hmode
  | subsetOpen hmode => exact h.subsetOpen hle hsize hmode
  | subsetClose hy => exact h.subsetClose hle hsize hy
  | doctypeClose hmode => exact h.doctypeClose hc hle hsize hmode
  | doctypeParameter hmode hk => exact h.doctypeParameter hle hsize hmode hk
  | declarationClose hmode => exact h.declarationClose hle hsize hmode
  | declarationParameter hmode hk => exact h.declarationParameter hle hsize hmode hk

/-! ## The whole text -/

theorem Fits.next (hx : Text.isBoundary s x.pos = true) (hlt : x.pos < size s) (hc : x.Consistent)
    (h : Fits s x b) :
    (x.step s).2.Consistent ∧ (x.step s).2.dtdFile = x.dtdFile ∧
      Fits s (x.step s).2 (Builder.step s b (x.step s).1 (x.step s).2.inDtd) := by
  have hmoves := Lexer.moves_lex hx hlt
  obtain ⟨z, spaced, hz, hreads⟩ := Lexer.lex_turns hc hlt
  have hstop := Text.le_size_of_isBoundary hmoves.ahead.2
  rw [Lexer.step_eq_lex hx hlt]
  rcases hz with rfl | hfalls
  · exact ⟨hc.of_reads hmoves.ahead.1 hreads, hreads.dtdFile_eq,
      h.step hc hreads hmoves.ahead.1 hstop⟩
  · have hpos := hfalls.pos_eq
    have hz := hc.of_falls hfalls
    have hlt' : z.pos < (Lexer.lex s x).lexer.pos := hpos ▸ hmoves.ahead.1
    have hfits := h.of_falls (Nat.le_of_lt hlt) hfalls
    rw [← hpos]
    exact ⟨hz.of_reads hlt' hreads, hreads.dtdFile_eq.trans hfalls.dtdFile_eq,
      hfits.step hz hreads hlt' hstop⟩

theorem tokens_of_lt (hx : Text.isBoundary s x.pos = true) (hlt : x.pos < size s) :
    x.tokens s = x.step s :: (x.step s).2.tokens s := by
  have hkind : (x.step s).1.kind ≠ .eos := by
    rw [Lexer.step_eq_lex hx hlt]
    exact (Lexer.moves_lex hx hlt).kind
  exact Lexer.tokens_cons hkind

/-- Behind the last token the builder still fits the lexer. -/
theorem fits_tokens (x : Lexer) (b : Builder) (hx : Text.isBoundary s x.pos = true)
    (hc : x.Consistent) (h : Fits s x b) :
    ∃ y, y.pos = size s ∧ y.dtdFile = x.dtdFile ∧
      Fits s y ((x.tokens s).foldl (fun b (t, x) => Builder.step s b t x.inDtd) b) := by
  rcases Nat.lt_or_ge x.pos (size s) with hlt | hge
  · obtain ⟨hc', hfile, h'⟩ := h.next hx hlt hc
    have hmoves := Lexer.moves_lex hx hlt
    have hnext : (x.step s).2.pos = (Lexer.lex s x).lexer.pos := by rw [Lexer.step_eq_lex hx hlt]
    have hahead : x.pos < (x.step s).2.pos := hnext ▸ hmoves.ahead.1
    obtain ⟨y, hy, hyfile, hfits⟩ := fits_tokens (x.step s).2 _ (hnext ▸ hmoves.ahead.2) hc' h'
    refine ⟨y, hy, hyfile.trans hfile, ?_⟩
    rw [tokens_of_lt hx hlt]
    exact hfits
  · rw [Lexer.tokens_at_end hge]
    exact ⟨x, Nat.le_antisymm (Text.le_size_of_isBoundary hx) hge, rfl, h⟩
termination_by size s - x.pos
decreasing_by omega

theorem Fits.nested_flushEndTag (h : Fits s x b) (hpos : x.pos = size s) :
    Nested s x.dtdFile.toNat (b.flushEndTag (size s) none).nodes
      (b.flushEndTag (size s) none).current (size s) := by
  have hphase := h.phase
  rw [← hpos]
  cases hmode : x.mode with
  | content | dtdContent | doctype _ =>
    simp only [Phase, hmode] at hphase
    rw [flushEndTag_eq hphase.endTagOpen]
    exact hphase.nested
  | afterEndTagOpen =>
    simp only [Phase, hmode] at hphase
    obtain ⟨start, hstart, hpending⟩ := hphase
    exact (hpending.flush hstart (Nat.le_of_lt hstart) (Nat.le_of_eq hpos) none).nested
  | inEndTag =>
    simp only [Phase, hmode] at hphase
    rcases hphase with ⟨start, hstart, hpending⟩ | hclosing
    · exact (hpending.flush hstart (Nat.le_refl _) (Nat.le_of_eq hpos) none).nested
    · rw [flushEndTag_eq hclosing.endTagOpen]
      exact hclosing.nested
  | declaration _ =>
    simp only [Phase, hmode] at hphase
    have hnone : b.endTagOpen = none := hphase.steady.endTagOpen
    rw [flushEndTag_eq hnone]
    exact hphase.steady.nested
  | _ =>
    simp only [Phase, hmode] at hphase
    rw [flushEndTag_eq hphase.1.endTagOpen]
    exact hphase.1.nested

theorem Fits.finish (h : Fits s x b) (hpos : x.pos = size s) :
    (∃ current, Nested s x.dtdFile.toNat (b.finish s) current (size s)) ∧
      ∀ p, Sealed (b.finish s) p := by
  have hflush := h.nested_flushEndTag hpos
  rw [Builder.finish, foldl_extend]
  generalize b.flushEndTag (size s) none = b' at hflush
  have hreach := nested_reach hflush (fun _ hid => hid) (Nat.le_refl _) (Nat.le_refl _)
  refine ⟨⟨_, hreach⟩, fun p => ?_⟩
  by_cases hp : p ∈ chain b'.nodes b'.current
  · rcases Nat.lt_or_ge p x.dtdFile.toNat with hlt | hge
    · intro id n m hm hn _
      rw [(hreach.outer hm (Nat.le_of_lt hlt)).1]
      exact (hreach.span_le hn).2
    · exact sealed_reach hreach hp hge
  · refine hreach.sealed_ ?_
    rwa [(relinks_reach _ _ _).chain]

/-! ## The start -/

section start
variable (s : String)

def emptyDocument : Array Node := #[{ span := ⟨0, size s⟩ }]

theorem getElem?_emptyDocument {id : Nat} {n : Node} (h : (emptyDocument s)[id]? = some n) :
    id = 0 ∧ n = { span := ⟨0, size s⟩ } := by
  cases id <;> simp_all [emptyDocument]

theorem not_child_emptyDocument {p c : Nat} : ¬ Child (emptyDocument s) p c := by
  rintro ⟨n, hn, hp, -⟩
  obtain ⟨-, rfl⟩ := getElem?_emptyDocument s hn
  cases hp

theorem not_attr_emptyDocument {p c : Nat} : ¬ Attr (emptyDocument s) p c := by
  rintro ⟨n, hn, hp, -⟩
  obtain ⟨-, rfl⟩ := getElem?_emptyDocument s hn
  cases hp

theorem arena_emptyDocument : Arena (emptyDocument s) where
  root := ⟨_, rfl, rfl, rfl⟩
  inner hn hpos := by
    obtain ⟨rfl, -⟩ := getElem?_emptyDocument s hn
    exact absurd hpos (Nat.lt_irrefl 0)
  child hn := by
    obtain ⟨-, rfl⟩ := getElem?_emptyDocument s hn
    simp [not_child_emptyDocument]
  attr hn := by
    obtain ⟨-, rfl⟩ := getElem?_emptyDocument s hn
    simp [not_attr_emptyDocument, attributeIds]
  children_lt hn := by
    obtain ⟨-, rfl⟩ := getElem?_emptyDocument s hn
    exact .nil
  attributes_lt hn := by
    obtain ⟨-, rfl⟩ := getElem?_emptyDocument s hn
    exact .nil
  owner hn hne := by
    obtain ⟨-, rfl⟩ := getElem?_emptyDocument s hn
    exact absurd rfl hne
  leaf hn _ := by
    obtain ⟨-, rfl⟩ := getElem?_emptyDocument s hn
    rfl
  preorder hc := (not_child_emptyDocument s hc).elim

theorem rightmost_emptyDocument : Rightmost (emptyDocument s) 0 :=
  ⟨⟨_, rfl, rfl⟩, fun _ _ hc => (not_child_emptyDocument s hc).elim⟩

theorem nested_emptyDocument : Nested s 0 (emptyDocument s) 0 0 where
  arena := arena_emptyDocument s
  rightmost := rightmost_emptyDocument s
  edge_le := Nat.zero_le _
  top_mem := mem_chain_self ..
  outer hn _ := by
    obtain ⟨-, rfl⟩ := getElem?_emptyDocument s hn
    exact ⟨rfl, .inl rfl⟩
  inner hn hpos := by
    obtain ⟨rfl, -⟩ := getElem?_emptyDocument s hn
    exact absurd hpos (Nat.lt_irrefl 0)
  start_le hn hp := by
    obtain ⟨-, rfl⟩ := getElem?_emptyDocument s hn
    cases hp
  start_lt hn hp := by
    obtain ⟨-, rfl⟩ := getElem?_emptyDocument s hn
    cases hp
  disjoint hc := (not_child_emptyDocument s hc).elim
  sealed_ _ id n m _ hn hp := by
    obtain ⟨-, rfl⟩ := getElem?_emptyDocument s hn
    cases hp

/-- The document type that stands for a file of declarations. -/
def fileDoctype : Node :=
  { span := ⟨0, size s⟩, parent := some 0, kind := .doctype { synthetic := true } }

theorem adds_fileDoctype :
    Adds (emptyDocument s) 0 { span := ⟨0, size s⟩ } (withChild 1 { span := ⟨0, size s⟩ })
      (fileDoctype s) :=
  adds_child (arena_emptyDocument s) (rightmost_emptyDocument s) rfl trivial

theorem nested_start_file : Nested s 1 (start s true).nodes 1 0 := by
  show Nested s 1 (grow (emptyDocument s) 0 (withChild 1) (fileDoctype s)) 1 0
  have hadds := adds_fileDoctype s
  have hget {id : Nat} {n : Node}
      (hn : (grow (emptyDocument s) 0 (withChild 1) (fileDoctype s))[id]? = some n) :
      (id = 0 ∧ n.parent = none ∧ n.kind = .document ∧ n.span = ⟨0, size s⟩) ∨
        (id = 1 ∧ n = fileDoctype s) := by
    rcases hadds.get hn with ⟨hid, rfl⟩ | ⟨hid, -, rfl⟩ | ⟨hid, hlt, -⟩
    · exact .inr ⟨hid, rfl⟩
    · exact .inl ⟨hid, rfl, rfl, rfl⟩
    · exact absurd (Nat.lt_one_iff.mp hlt) hid
  refine ⟨(arena_emptyDocument s).grow hadds, hadds.rightmost_new (arena_emptyDocument s) rfl,
    Nat.zero_le _, mem_chain_self .., ?_, ?_, ?_, ?_, ?_, ?_⟩
  · intro id n hn _
    rcases hget hn with ⟨-, -, hkind, hspan⟩ | ⟨-, rfl⟩
    · exact ⟨hspan, .inl hkind⟩
    · exact ⟨rfl, .inr rfl⟩
  · intro id n hn hid
    rcases hget hn with ⟨rfl, -⟩ | ⟨rfl, -⟩ <;> omega
  · intro id p n m _ _ hm
    rcases hget hm with ⟨-, -, -, hspan⟩ | ⟨-, rfl⟩
    · rw [hspan]
      exact Nat.zero_le _
    · exact Nat.zero_le _
  · intro id p n m _ _ hm hpos
    rcases hget hm with ⟨-, -, -, hspan⟩ | ⟨-, rfl⟩
    · rw [hspan] at hpos
      exact absurd hpos (Nat.lt_irrefl 0)
    · exact absurd hpos (Nat.lt_irrefl 0)
  · intro p c c' n n' hc hc' hlt
    have := hc'.lt_size
    have := ((arena_emptyDocument s).grow hadds).child_lt hc
    rw [size_grow, show (emptyDocument s).size = 1 from rfl] at *
    omega
  · intro p hp id n m hm
    have hsize := lt_size_of_getElem? hm
    rw [size_grow, show (emptyDocument s).size = 1 from rfl] at hsize
    have hchain := hadds.chain_size
    rw [show (emptyDocument s).size = 1 from rfl] at hchain
    rw [hchain, List.mem_cons, not_or] at hp
    obtain rfl : p = 0 := by omega
    exact absurd (mem_chain_self ..) hp.2

theorem unclosed_top {nodes : Array Node} (h : Nested s top nodes top edge) : Unclosed nodes top := by
  intro c hc n hn
  rcases (h.outer hn (le_of_mem_chain hc)).2 with hk | hk
  · rw [hk]
    rfl
  · cases hkind : n.kind <;> simp_all [isDoctype, doctype?, Kind.isClosedElement]

theorem fits_document : Fits s Lexer.document (start s false) :=
  ⟨⟨nested_emptyDocument s, unclosed_top s (nested_emptyDocument s), rfl, rfl⟩, .of_none rfl⟩

theorem fits_declarations : Fits s Lexer.declarations (start s true) := by
  refine ⟨⟨nested_start_file s, unclosed_top s (nested_start_file s), rfl, rfl⟩, fun i hi => ?_⟩
  exact (Option.some.inj hi).symm

end start

/-- **The nodes of every text are nested and sealed.** -/
theorem build_spec (s : String) (dtdFile : Bool) :
    (∃ current, Nested s dtdFile.toNat (build s dtdFile) current (size s)) ∧
      ∀ p, Sealed (build s dtdFile) p := by
  cases dtdFile with
  | false =>
    obtain ⟨y, hy, hfile, h⟩ := fits_tokens Lexer.document (start s false) (Text.isBoundary_zero s)
      ⟨nofun, nofun, rfl, rfl⟩ (fits_document s)
    have hfinish := h.finish hy
    rw [hfile] at hfinish
    exact hfinish
  | true =>
    obtain ⟨y, hy, hfile, h⟩ := fits_tokens Lexer.declarations (start s true) (Text.isBoundary_zero s)
      ⟨fun _ => rfl, nofun, rfl, rfl⟩ (fits_declarations s)
    have hfinish := h.finish hy
    rw [hfile] at hfinish
    exact hfinish

end XmlAssist.Builder
