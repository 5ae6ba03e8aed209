import XmlAssist.Markup.Lexer.Stream

/-!
# How far tokens reach

White space is read as far as it goes, and the `>` of a start tag is one byte (`Extent`). Every token
of a scan that is not the end has some length (`extent_run`).
-/

namespace XmlAssist.Lexer

/-- How far what was read at `i` reaches, if it is white space or the `>` of a start tag. -/
structure Extent (s : String) (i : Nat) (r : Lexed) : Prop where
  blank : r.kind = .blank → r.lexer.pos = Text.skipWhile isSpace s i
  close : r.kind = .startTagClose → Text.byte? s i = some 0x3E ∧ r.lexer.pos = i + 1

variable {s : String} {x : Lexer} {i : Nat}

/-! ## One function of the lexer after the other -/

/-- The kind is neither white space nor the `>` of a start tag. -/
def IsOther (kind : Token.Kind) : Prop := kind ≠ .blank ∧ kind ≠ .startTagClose

instance (kind : Token.Kind) : Decidable (IsOther kind) := inferInstanceAs (Decidable (_ ∧ _))

theorem extent_emit {kind : Token.Kind} (h : IsOther kind) (x : Lexer) (pos : Nat) (mode : Mode)
    (fault : Option Token.Fault) : Extent s i (x.emit kind pos mode fault) :=
  ⟨fun hkind => absurd hkind h.1, fun hkind => absurd hkind h.2⟩

theorem extent_emitSpace {pos : Nat} (h : space? s i = some pos) (x : Lexer) (fault : Option Token.Fault) :
    Extent s i (x.emitSpace pos fault) := by
  refine ⟨fun _ => ?_, nofun⟩
  simp only [space?] at h
  split at h
  · exact (Option.some.inj h).symm
  · cases h

theorem extent_of_firstOpener {openers : List (String × Token.Kind × Mode)} {r : Lexed}
    (ho : ∀ o ∈ openers, IsOther o.2.1) (h : firstOpener s x openers = some r) :
    Extent s i r := by
  induction openers with
  | nil => cases h
  | cons o openers ih =>
    obtain ⟨hfirst, hothers⟩ := List.forall_mem_cons.mp ho
    simp only [firstOpener] at h
    split at h
    · obtain rfl := Option.some.inj h
      exact extent_emit hfirst ..
    · exact ih hothers h

theorem extent_getD_map {α : Type} {o : Option α} {f : α → Lexed} {r : Lexed}
    (hf : ∀ a, Extent s i (f a)) (hr : Extent s i r) : Extent s i ((o.map f).getD r) := by
  cases o with
  | none => exact hr
  | some a => exact hf a

theorem extent_content (x : Lexer) : Extent s x.pos (content s x) := by
  unfold content
  split
  · rename_i r hr
    exact extent_of_firstOpener (by decide) hr
  · exact extent_emit (by decide) ..

theorem extent_dtdContent (x : Lexer) : Extent s x.pos (dtdContent s x) := by
  unfold dtdContent
  split
  · exact extent_emitSpace ‹_› ..
  split
  · exact extent_emit (by decide) ..
  split
  · rename_i r hr
    exact extent_of_firstOpener (by decide) hr
  split
  · exact extent_content { x with inSubset := false, mode := .content }
  · exact extent_emit (by decide) ..

theorem extent_betweenMarkup (x : Lexer) : Extent s x.pos (betweenMarkup s x) := by
  unfold betweenMarkup
  split
  · exact extent_dtdContent { x with mode := .dtdContent }
  · exact extent_content { x with mode := .content }

theorem extent_insideTag (x : Lexer) : Extent s x.pos (insideTag s x) := by
  unfold insideTag
  split
  · exact extent_emitSpace ‹_› ..
  split
  · exact extent_emit (by decide) ..
  split
  · exact extent_emit (by decide) ..
  split
  · exact extent_emit (by decide) ..
  split
  · rename_i hclose
    simp only [Bool.and_eq_true, sees, peek, beq_iff_eq] at hclose
    exact ⟨nofun, fun _ => ⟨hclose.2, rfl⟩⟩
  split
  · exact extent_betweenMarkup { x with inProlog := false }
  · exact extent_emit (by decide) ..

theorem extent_startTag (x : Lexer) : Extent s x.pos (startTag s x) := by
  unfold startTag
  split
  · exact extent_emit (by decide) ..
  split
  · exact extent_emitSpace ‹_› ..
  · exact extent_insideTag { x with mode := .inTag, spaced := false }

theorem extent_insideEndTag (x : Lexer) : Extent s x.pos (insideEndTag s x) := by
  unfold insideEndTag
  split
  · exact extent_emitSpace ‹_› ..
  split
  · exact extent_emit (by decide) ..
  split
  · exact extent_content { x with mode := .content }
  · exact extent_emit (by decide) ..

theorem extent_endTag (x : Lexer) : Extent s x.pos (endTag s x) := by
  unfold endTag
  split
  · exact extent_emit (by decide) ..
  split
  · exact extent_emitSpace ‹_› ..
  · exact extent_insideEndTag { x with mode := .inEndTag }

theorem extent_attributeAssign (x : Lexer) : Extent s x.pos (attributeAssign s x) := by
  unfold attributeAssign
  split
  · exact extent_emitSpace ‹_› ..
  split
  · exact extent_emit (by decide) ..
  · exact extent_insideTag { x with mode := x.tagMode }

theorem extent_attributeValue (x : Lexer) : Extent s x.pos (attributeValue s x) := by
  unfold attributeValue
  split
  · exact extent_emitSpace ‹_› ..
  split
  · exact extent_emit (by decide) ..
  · dsimp only
    split
    · exact extent_emit (by decide) ..
    · exact extent_insideTag { { x with spaced := false } with mode := x.tagMode }

theorem extent_delimited {close : String} {inside closing : Token.Kind} {fault : Token.Fault} (x : Lexer)
    (hinside : IsOther inside) (hclosing : IsOther closing) :
    Extent s i (delimited close inside closing fault s x) := by
  unfold delimited
  split
  · exact extent_emit hclosing ..
  · exact extent_emit hinside ..

theorem extent_insideInstruction (x : Lexer) : Extent s x.pos (insideInstruction s x) := by
  unfold insideInstruction
  split
  · exact extent_emitSpace ‹_› ..
  · exact extent_delimited x (by decide) (by decide)

theorem extent_instruction (x : Lexer) : Extent s x.pos (instruction s x) := by
  unfold instruction
  split
  · exact extent_emit (by decide) ..
  split
  · exact extent_emit (by decide) ..
  · exact extent_insideInstruction { x with mode := .inInstruction }

theorem extent_unrecognized (stops : List UInt8) (x : Lexer) : Extent s i (unrecognized stops s x) :=
  extent_emit (by decide) ..

theorem extent_parameter (kind : Token.DtdKind) (x : Lexer) (pos : Nat) (mode : Mode)
    (fault : Option Token.Fault) : Extent s i (x.emit (.dtd kind) pos mode fault) := by
  apply extent_emit
  constructor
  · exact nofun
  · exact nofun

theorem extent_doctypeParameter (x : Lexer) (stage : DoctypeStage) :
    Extent s i (doctypeParameter s x stage) := by
  have hjunk := extent_unrecognized (s := s) (i := i) [0x3C, 0x3E, 0x5B] x
  unfold doctypeParameter
  cases stage with
  | named =>
    dsimp only
    split
    · exact extent_parameter ..
    · exact extent_getD_map (fun _ => extent_parameter ..) hjunk
  | ids | subset => exact hjunk
  | _ => exact extent_getD_map (fun _ => extent_parameter ..) hjunk

theorem extent_doctype (x : Lexer) (stage : DoctypeStage) : Extent s x.pos (doctype s x stage) := by
  unfold doctype
  split
  · exact extent_emitSpace ‹_› ..
  split
  · exact extent_parameter ..
  split
  · exact extent_parameter ..
  split
  · exact extent_content { x with inSubset := false, mode := .content }
  · exact extent_doctypeParameter x stage

theorem extent_elementContent (x : Lexer) : Extent s i (elementContent s x) := by
  unfold elementContent
  split
  · exact extent_parameter ..
  · exact extent_parameter ..

theorem extent_declarationParameter (x : Lexer) (stage : DeclarationStage) :
    Extent s i (declarationParameter s x stage) := by
  have hjunk (stops : List UInt8) := extent_unrecognized (s := s) (i := i) stops x
  have hone {α : Type} {o : Option α} {f : α → Lexed} {r : Lexed} (hf : ∀ a, Extent s i (f a))
    (hr : Extent s i r) := extent_getD_map (o := o) hf hr
  unfold declarationParameter
  cases stage with
  | elementNamed =>
    dsimp only
    split
    · exact extent_parameter ..
    · exact hone (fun _ => extent_parameter ..) (hone (fun _ => extent_parameter ..) (hjunk _))
  | elementContent => exact extent_elementContent x
  | elementDone | entityDone | notationDone => exact hjunk _
  | entityStart =>
    dsimp only
    split
    · exact extent_parameter ..
    · exact hone (fun _ => extent_parameter ..) (hjunk _)
  | entityNamed =>
    exact hone (fun _ => extent_parameter ..) (hone (fun _ => extent_parameter ..)
      (hone (fun _ => extent_parameter ..) (hjunk _)))
  | notationNamed => exact hone (fun _ => extent_parameter ..) (hone (fun _ => extent_parameter ..) (hjunk _))
  | _ => exact hone (fun _ => extent_parameter ..) (hjunk _)

theorem extent_declaration (x : Lexer) (stage : DeclarationStage) :
    Extent s x.pos (declaration s x stage) := by
  unfold declaration
  split
  · exact extent_emitSpace ‹_› ..
  split
  · exact extent_parameter ..
  split
  · exact extent_dtdContent { x with mode := .dtdContent }
  · exact extent_declarationParameter x stage

/-! ## All of them -/

theorem extent_lex (s : String) (x : Lexer) : Extent s x.pos (lex s x) := by
  unfold lex
  split
  · exact ⟨nofun, nofun⟩
  split
  · exact extent_content x
  · exact extent_startTag x
  · exact extent_endTag x
  · exact extent_insideTag x
  · exact extent_insideTag x
  · exact extent_insideEndTag x
  · exact extent_attributeAssign x
  · exact extent_attributeValue x
  · exact extent_delimited x (by decide) (by decide)
  · exact extent_delimited x (by decide) (by decide)
  · exact extent_instruction x
  · exact extent_insideInstruction x
  · exact extent_dtdContent x
  · exact extent_doctype x _
  · exact extent_declaration x _

/-- A token that is not the end has some length; white space is read as far as it goes, and the `>`
of a start tag is one byte. -/
structure TokenExtent (s : String) (t : Token) : Prop where
  lt : t.kind ≠ .eos → t.start < t.stop
  blank : t.kind = .blank → t.stop = Text.skipWhile isSpace s t.start
  close : t.kind = .startTagClose → Text.byte? s t.start = some 0x3E ∧ t.stop = t.start + 1

theorem extent_step (s : String) (x : Lexer) : TokenExtent s (x.step s).1 := by
  have hlt (h : (x.step s).1.kind ≠ .eos) := (step_pos_lt s x h).2
  have hlex := extent_lex s x
  by_cases hstuck : (lex s x).kind ≠ .eos ∧ (lex s x).lexer.pos ≤ x.pos
  · simp only [step, if_pos hstuck] at hlt ⊢
    exact ⟨hlt, by simp, by simp⟩
  · simp only [step, if_neg hstuck] at hlt ⊢
    exact ⟨hlt, hlex.blank, hlex.close⟩

theorem extent_run (s : String) (x : Lexer) : ∀ t ∈ x.run s, TokenExtent s t.1 := by
  rw [run]
  split
  · rw [List.forall_mem_singleton]
    exact extent_step s x
  · rename_i hne
    have hlt := step_pos_lt s x hne
    exact List.forall_mem_cons.mpr ⟨extent_step s x, extent_run s _⟩
termination_by Text.size s - x.pos

end XmlAssist.Lexer
