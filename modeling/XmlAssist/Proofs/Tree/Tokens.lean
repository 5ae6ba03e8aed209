import XmlAssist.Tree.Builder

/-!
# What each token does

`Builder.step` by the kind of the token and of the current node. Arguments about a run of tokens
rewrite with these equations and never open `Builder.step` itself.
-/

namespace XmlAssist.Builder

variable {s : String} {b : Builder} {i j : Nat} {fault : Option Token.Fault} {inDtd : Bool}

/-! ## New markup -/

theorem step_text : step s b ⟨.text, i, j, fault⟩ inDtd = (b.beforeMarkup i inDtd).append .text ⟨i, j⟩ := by
  simp only [step, Token.span]

theorem step_commentOpen : step s b ⟨.commentOpen, i, j, fault⟩ inDtd =
    (b.beforeMarkup i inDtd).openNode (.comment {}) ⟨i, j⟩ := by
  simp only [step, sectionToken, Token.span]

theorem step_cdataOpen : step s b ⟨.cdataOpen, i, j, fault⟩ inDtd =
    (b.beforeMarkup i inDtd).openNode (.cdata {}) ⟨i, j⟩ := by
  simp only [step, sectionToken, Token.span]

theorem step_instructionOpen : step s b ⟨.instructionOpen, i, j, fault⟩ inDtd =
    (b.beforeMarkup i inDtd).openNode (.instruction {}) ⟨i, j⟩ := by
  simp only [step, sectionToken, Token.span]

theorem step_startTagOpen : step s b ⟨.startTagOpen, i, j, fault⟩ inDtd =
    (b.beforeMarkup i inDtd).openNode (.element { startOpen := some i }) ⟨i, j⟩ := by
  simp only [step, tagToken, Token.span]

theorem step_endTagOpen : step s b ⟨.endTagOpen, i, j, fault⟩ inDtd =
    { b.beforeMarkup i inDtd with endTagOpen := some i } := by
  simp only [step, tagToken]

theorem step_doctypeOpen : step s b ⟨.dtd .doctypeOpen, i, j, fault⟩ inDtd =
    { (b.beforeMarkup i inDtd).openNode (.doctype {}) ⟨i, j⟩ with
      doctype := some ((b.beforeMarkup i inDtd).openNode (.doctype {}) ⟨i, j⟩).current } := by
  simp only [step, dtdToken, Token.span]

/-! ## Tags -/

section element
variable {e : Element} (h : b.kindOf b.current = .element e)
include h

theorem step_startTagName : step s b ⟨.startTagName, i, j, fault⟩ inDtd =
    b.update b.current
      (.element { e with tag := some (Text.slice s i j), tagSpan := some ⟨i, j⟩ }) j := by
  simp only [step, tagToken, h, Token.span]

theorem step_startTagClose : step s b ⟨.startTagClose, i, j, fault⟩ inDtd =
    { b with openAttribute := none }.update b.current (.element { e with startClose := some i }) j := by
  simp only [step, tagToken, h]

theorem step_startTagSelfClose : step s b ⟨.startTagSelfClose, i, j, fault⟩ inDtd =
    ({ b with openAttribute := none }.update b.current
      (.element { e with startClose := some i, selfClosed := true, closed := true }) j).leave := by
  simp only [step, tagToken, h]

end element

theorem step_endTagName : step s b ⟨.endTagName, i, j, fault⟩ inDtd =
    endTag s b ⟨.endTagName, i, j, fault⟩ := by
  simp only [step, tagToken]

theorem step_attributeName : step s b ⟨.attributeName, i, j, fault⟩ inDtd =
    attributeName s b ⟨.attributeName, i, j, fault⟩ := by
  simp only [step]

theorem step_assign : step s b ⟨.assign, i, j, fault⟩ inDtd = assign b ⟨.assign, i, j, fault⟩ := by
  simp only [step]

theorem step_attributeValue : step s b ⟨.attributeValue, i, j, fault⟩ inDtd =
    attributeValue s b ⟨.attributeValue, i, j, fault⟩ := by
  simp only [step]

theorem step_endTagClose {e : Element} (h : b.kindOf b.current = .element e)
    (hpending : b.endTagOpen = none) (hclosed : e.closed = true) (hend : e.endOpen.isSome = true) :
    step s b ⟨.endTagClose, i, j, fault⟩ inDtd =
      (b.update b.current (.element { e with endClose := some i }) j).leave := by
  simp only [step, tagToken, h, hpending, hclosed, hend, Option.isSome_none, Bool.and_self,
    Bool.false_eq_true, if_false, if_true]

/-! ## Comments, CDATA sections and instructions -/

section enclosed
variable {c : Enclosed} {kind : Token.Kind}

theorem step_text_of_comment (h : b.kindOf b.current = .comment c)
    (hk : kind = .commentText ∨ kind = .cdataText) : step s b ⟨kind, i, j, fault⟩ inDtd =
    b.update b.current (.comment { c with content := some ⟨i, j⟩ }) j := by
  rcases hk with rfl | rfl <;> simp only [step, sectionToken, h, Token.span]

theorem step_text_of_cdata (h : b.kindOf b.current = .cdata c)
    (hk : kind = .commentText ∨ kind = .cdataText) : step s b ⟨kind, i, j, fault⟩ inDtd =
    b.update b.current (.cdata { c with content := some ⟨i, j⟩ }) j := by
  rcases hk with rfl | rfl <;> simp only [step, sectionToken, h, Token.span]

theorem step_close_of_comment (h : b.kindOf b.current = .comment c)
    (hk : kind = .commentClose ∨ kind = .cdataClose) : step s b ⟨kind, i, j, fault⟩ inDtd =
    (b.update b.current (.comment { c with closed := true }) j).leave := by
  rcases hk with rfl | rfl <;> simp only [step, sectionToken, h]

theorem step_close_of_cdata (h : b.kindOf b.current = .cdata c)
    (hk : kind = .commentClose ∨ kind = .cdataClose) : step s b ⟨kind, i, j, fault⟩ inDtd =
    (b.update b.current (.cdata { c with closed := true }) j).leave := by
  rcases hk with rfl | rfl <;> simp only [step, sectionToken, h]

end enclosed

section instruction
variable {p : Instruction} (h : b.kindOf b.current = .instruction p)
include h

theorem step_prologName : step s b ⟨.prologName, i, j, fault⟩ inDtd =
    b.update b.current (.instruction
      { p with isProlog := true, target := some (Text.slice s i j), targetSpan := some ⟨i, j⟩ }) j := by
  simp only [step, sectionToken, h, Token.span]

theorem step_instructionTarget : step s b ⟨.instructionTarget, i, j, fault⟩ inDtd =
    b.update b.current (.instruction
      { p with isProlog := false, target := some (Text.slice s i j), targetSpan := some ⟨i, j⟩ }) j := by
  simp only [step, sectionToken, h, Token.span]

theorem step_instructionContent : step s b ⟨.instructionContent, i, j, fault⟩ inDtd =
    b.update b.current (.instruction { p with content := some ⟨i, j⟩ }) j := by
  simp only [step, sectionToken, h, Token.span]

theorem step_close_of_instruction {kind : Token.Kind}
    (hk : kind = .instructionClose ∨ kind = .prologClose) : step s b ⟨kind, i, j, fault⟩ inDtd =
    ({ b with openAttribute := none }.update b.current
      (.instruction { p with closed := true }) j).leave := by
  rcases hk with rfl | rfl <;> simp only [step, sectionToken, h]

end instruction

/-! ## Declarations -/

theorem step_dtd {kind : Token.DtdKind} : step s b ⟨.dtd kind, i, j, fault⟩ inDtd =
    dtdToken s b kind ⟨.dtd kind, i, j, fault⟩ inDtd := by
  simp only [step]

end XmlAssist.Builder
