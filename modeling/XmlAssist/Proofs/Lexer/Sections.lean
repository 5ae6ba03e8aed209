import XmlAssist.Proofs.Lexer.Progress

/-!
# Comments, CDATA sections and instructions

Inside a section the lexer looks for the literal that ends it. What stands before that literal is one
token; where the literal is missing, the token reaches to the end of the text and has the fault of its
section (`lex_section`). No other token has such a fault (`section_of_fault`).
-/

namespace XmlAssist

open Text (size startsAt bytesOf)

/-- What is read up to a literal, whatever stands before it. -/
inductive Section where
  | comment
  | cdata
  | instruction
deriving DecidableEq, Repr

namespace Section

/-- The literal that starts the section. -/
def opening : Section → String
  | .comment => "<!--"
  | .cdata => "<![CDATA["
  | .instruction => "<?"

/-- The token of that literal. -/
def first : Section → Token.Kind
  | .comment => .commentOpen
  | .cdata => .cdataOpen
  | .instruction => .instructionOpen

/-- The literal that ends the section. -/
def closing : Section → String
  | .comment => "-->"
  | .cdata => "]]>"
  | .instruction => "?>"

/-- The token before that literal. -/
def inside : Section → Token.Kind
  | .comment => .commentText
  | .cdata => .cdataText
  | .instruction => .instructionContent

/-- The token of that literal. -/
def last : Section → Token.Kind
  | .comment => .commentClose
  | .cdata => .cdataClose
  | .instruction => .instructionClose

/-- What is broken where the literal is missing. -/
def fault : Section → Token.Fault
  | .comment => .unterminatedComment
  | .cdata => .unterminatedCData
  | .instruction => .unterminatedInstruction

theorem lt_size_of_closing {s : String} {i : Nat} (k : Section)
    (h : startsAt s i (bytesOf k.closing) = true) : i < size s := by
  obtain ⟨c, rest, hc⟩ := List.exists_cons_of_ne_nil (l := bytesOf k.closing) (by cases k <;> decide)
  rw [hc, startsAt, Bool.and_eq_true, beq_iff_eq] at h
  exact Text.lt_size_of_byte? h.1

theorem fault_injective {k k' : Section} (h : k.fault = k'.fault) : k = k' := by
  cases k <;> cases k' <;> first | rfl | cases h

end Section

namespace Lexer

/-- The section that is being read in the mode. -/
def Mode.section? : Mode → Option Section
  | .inComment => some .comment
  | .inCData => some .cdata
  | .afterInstructionOpen | .inInstruction => some .instruction
  | _ => none

variable {s : String} {x : Lexer} {k : Section}

theorem section?_contentMode (x : Lexer) : x.contentMode.section? = none := by
  cases hd : x.inDtd <;> simp [contentMode, hd, Mode.section?]

theorem section?_tagMode (x : Lexer) : x.tagMode.section? = none := by
  cases hp : x.inProlog <;> simp [tagMode, hp, Mode.section?]

/-! ## Inside a section -/

/-- What is read at `i` inside a section. -/
inductive InSection (s : String) (i : Nat) (k : Section) (r : Lexed) : Prop where
  | last (stands : startsAt s i (bytesOf k.closing) = true) (kind : r.kind = k.last)
      (fault : r.fault = none) (stop : r.lexer.pos = i + size k.closing)
  | before (only : k = .instruction) (more : startsAt s i (bytesOf k.closing) = false)
      (kind : r.kind = .blank ∨ r.kind = .prologName ∨ r.kind = .instructionTarget) (fault : r.fault = none)
  | inside (more : startsAt s i (bytesOf k.closing) = false) (kind : r.kind = k.inside)
      (fault : r.fault = none) (found : Text.find? (bytesOf k.closing) s i = some r.lexer.pos)
  | cut (more : startsAt s i (bytesOf k.closing) = false) (kind : r.kind = k.inside)
      (fault : r.fault = some k.fault) (missing : Text.find? (bytesOf k.closing) s i = none)
      (stop : r.lexer.pos = size s)

theorem inSection_delimited (k : Section) (x : Lexer) :
    InSection s x.pos k (delimited k.closing k.inside k.last k.fault s x) := by
  unfold delimited literal?
  cases hmore : startsAt s x.pos (bytesOf k.closing) with
  | true => exact .last hmore rfl rfl rfl
  | false =>
    cases hfind : Text.find? (bytesOf k.closing) s x.pos with
    | some j =>
      simp only [until?, hfind]
      exact .inside hmore rfl rfl hfind
    | none =>
      simp only [until?, hfind]
      exact .cut hmore rfl rfl hfind rfl

theorem ne_question_of_run {i j : Nat} (h : space? s i = some j ∨ name? s i = some j) :
    startsAt s i (bytesOf Section.instruction.closing) = false := by
  refine Bool.eq_false_iff.mpr fun hstands => ?_
  have hbyte : Text.byte? s i = some 0x3F := by
    have hbytes : bytesOf Section.instruction.closing = [0x3F, 0x3E] := by decide
    rw [hbytes, startsAt, Bool.and_eq_true, beq_iff_eq] at hstands
    exact hstands.1
  rcases h with h | h
  · have hlt := Text.lt_size_of_byte? hbyte
    have hget : s.getUTF8Byte ⟨i⟩ hlt = 0x3F := by simpa [Text.byte?, hlt] using hbyte
    have hstop : Text.skipWhile isSpace s i = i := by
      rw [Text.skipWhile, dif_pos hlt, hget]
      rfl
    simp [space?, hstop] at h
  · rw [name?, hbyte] at h
    cases h

theorem inSection_insideInstruction (x : Lexer) :
    InSection s x.pos .instruction (insideInstruction s x) := by
  unfold insideInstruction
  split
  · exact .before rfl (ne_question_of_run (.inl ‹_›)) (.inl rfl) rfl
  · exact inSection_delimited .instruction x

theorem inSection_instruction (x : Lexer) : InSection s x.pos .instruction (instruction s x) := by
  unfold instruction
  split
  · rename_i hprolog
    refine .before rfl ?_ (.inr (.inl rfl)) rfl
    simp only [Bool.and_eq_true, seesPrologName] at hprolog
    refine Bool.eq_false_iff.mpr fun hstands => ?_
    have hxml : bytesOf "xml" = [0x78, 0x6D, 0x6C] := by decide
    have hclose : bytesOf Section.instruction.closing = [0x3F, 0x3E] := by decide
    rw [hclose, startsAt, Bool.and_eq_true, beq_iff_eq] at hstands
    simp [hxml, startsAt, hstands.1] at hprolog
  · split
    · exact .before rfl (ne_question_of_run (.inr ‹_›)) (.inr (.inr rfl)) rfl
    · exact inSection_insideInstruction { x with mode := .inInstruction }

/-- **What is read inside a section**: what stands before its last literal, or that literal. -/
theorem lex_section (h : x.mode.section? = some k) (hlt : x.pos < size s) : InSection s x.pos k (lex s x) := by
  unfold lex
  rw [if_neg (Nat.not_le.mpr hlt)]
  cases hmode : x.mode with
  | inComment =>
    rw [hmode] at h
    obtain rfl := Option.some.inj h
    exact inSection_delimited .comment x
  | inCData =>
    rw [hmode] at h
    obtain rfl := Option.some.inj h
    exact inSection_delimited .cdata x
  | afterInstructionOpen =>
    rw [hmode] at h
    obtain rfl := Option.some.inj h
    exact inSection_instruction x
  | inInstruction =>
    rw [hmode] at h
    obtain rfl := Option.some.inj h
    exact inSection_insideInstruction x
  | _ => rw [hmode] at h; cases h

theorem delimited_last (x : Lexer) (h : startsAt s x.pos (bytesOf k.closing) = true) :
    delimited k.closing k.inside k.last k.fault s x = x.emit k.last (x.pos + size k.closing) x.contentMode := by
  rw [delimited, literal?, if_pos h]

theorem insideInstruction_last (x : Lexer) (h : startsAt s x.pos (bytesOf Section.instruction.closing) = true) :
    insideInstruction s x = x.emit .instructionClose (x.pos + size Section.instruction.closing) x.contentMode := by
  unfold insideInstruction
  split
  · rename_i j hspace
    rw [ne_question_of_run (.inl hspace)] at h
    cases h
  · exact delimited_last (k := .instruction) x h

theorem lex_last (hx : x.mode.section? = some k) (h : startsAt s x.pos (bytesOf k.closing) = true) :
    lex s x = x.emit k.last (x.pos + size k.closing) x.contentMode := by
  rw [lex, if_neg (Nat.not_le_of_lt (k.lt_size_of_closing h))]
  cases hmode : x.mode with
  | inComment =>
    rw [hmode] at hx
    obtain rfl := Option.some.inj hx
    exact delimited_last (k := .comment) x h
  | inCData =>
    rw [hmode] at hx
    obtain rfl := Option.some.inj hx
    exact delimited_last (k := .cdata) x h
  | inInstruction =>
    rw [hmode] at hx
    obtain rfl := Option.some.inj hx
    exact insideInstruction_last x h
  | afterInstructionOpen =>
    rw [hmode] at hx
    obtain rfl := Option.some.inj hx
    have hb : Text.byte? s x.pos = some 0x3F := by
      have hclose : bytesOf Section.instruction.closing = [0x3F, 0x3E] := by decide
      rw [hclose, startsAt, Bool.and_eq_true, beq_iff_eq] at h
      exact h.1
    have hxml : x.seesPrologName s = false := by
      have hbytes : bytesOf "xml" = [0x78, 0x6D, 0x6C] := by decide
      simp [seesPrologName, hbytes, startsAt, hb]
    have hname : name? s x.pos = none := by
      rw [name?, hb]
      rfl
    dsimp only
    rw [instruction, hxml, hname, Bool.and_false]
    exact insideInstruction_last { x with mode := .inInstruction } h
  | _ => rw [hmode] at hx; cases hx

/-! ## Outside of sections -/

/-- The fault is not that of a section. -/
def Ordinary (r : Lexed) : Prop := ∀ k : Section, r.fault ≠ some k.fault

theorem ordinary_of_none {r : Lexed} (h : r.fault = none) : Ordinary r := fun _ hf => by
  rw [h] at hf
  cases hf

theorem ordinary_of_some {r : Lexed} {f : Token.Fault} (h : r.fault = some f)
    (hf : f ∉ [.unterminatedComment, .unterminatedCData, .unterminatedInstruction]) : Ordinary r := by
  intro k hk
  obtain rfl := Option.some.inj (h.symm.trans hk)
  cases k <;> exact hf (by decide)

theorem ordinary_of_closed {r : Lexed} {f : Token.Fault} (closed : Bool)
    (h : r.fault = if closed then none else some f)
    (hf : f ∉ [.unterminatedComment, .unterminatedCData, .unterminatedInstruction]) : Ordinary r := by
  cases closed with
  | true => exact ordinary_of_none h
  | false => exact ordinary_of_some h hf

theorem ordinary_getD_map {α : Type} {o : Option α} {f : α → Lexed} {r : Lexed}
    (hf : ∀ a, Ordinary (f a)) (hr : Ordinary r) : Ordinary ((o.map f).getD r) := by
  cases o with
  | none => exact hr
  | some a => exact hf a

theorem ordinary_of_firstOpener {openers : List (String × Token.Kind × Mode)} {r : Lexed}
    (h : firstOpener s x openers = some r) : Ordinary r := by
  induction openers with
  | nil => cases h
  | cons o openers ih =>
    simp only [firstOpener] at h
    split at h
    · obtain rfl := Option.some.inj h
      exact ordinary_of_none rfl
    · exact ih h

theorem ordinary_content (x : Lexer) : Ordinary (content s x) := by
  unfold content
  split
  · exact ordinary_of_firstOpener ‹_›
  · exact ordinary_of_none rfl

theorem ordinary_dtdContent (x : Lexer) : Ordinary (dtdContent s x) := by
  unfold dtdContent
  split
  · exact ordinary_of_none rfl
  split
  · exact ordinary_of_none rfl
  split
  · exact ordinary_of_firstOpener ‹_›
  split
  · exact ordinary_content _
  · exact ordinary_of_none rfl

theorem ordinary_insideTag (x : Lexer) : Ordinary (insideTag s x) := by
  unfold insideTag
  split
  · exact ordinary_of_none rfl
  split
  · exact ordinary_of_none rfl
  split
  · exact ordinary_of_none rfl
  split
  · exact ordinary_of_none rfl
  split
  · exact ordinary_of_none rfl
  split
  · unfold betweenMarkup
    split
    · exact ordinary_dtdContent _
    · exact ordinary_content _
  · exact ordinary_of_some rfl (by decide)

theorem ordinary_startTag (x : Lexer) : Ordinary (startTag s x) := by
  unfold startTag
  split
  · exact ordinary_of_none rfl
  split
  · exact ordinary_of_some rfl (by decide)
  · exact ordinary_insideTag _

theorem ordinary_insideEndTag (x : Lexer) : Ordinary (insideEndTag s x) := by
  unfold insideEndTag
  split
  · exact ordinary_of_none rfl
  split
  · exact ordinary_of_none rfl
  split
  · exact ordinary_content _
  · exact ordinary_of_some rfl (by decide)

theorem ordinary_endTag (x : Lexer) : Ordinary (endTag s x) := by
  unfold endTag
  split
  · exact ordinary_of_none rfl
  split
  · exact ordinary_of_some rfl (by decide)
  · exact ordinary_insideEndTag _

theorem ordinary_attributeAssign (x : Lexer) : Ordinary (attributeAssign s x) := by
  unfold attributeAssign
  split
  · exact ordinary_of_none rfl
  split
  · exact ordinary_of_none rfl
  · exact ordinary_insideTag _

theorem ordinary_attributeValue (x : Lexer) : Ordinary (attributeValue s x) := by
  unfold attributeValue
  split
  · exact ordinary_of_none rfl
  split
  · exact ordinary_of_closed _ rfl (by decide)
  · dsimp only
    split
    · exact ordinary_of_none rfl
    · exact ordinary_insideTag _

theorem ordinary_unrecognized (stops : List UInt8) (x : Lexer) : Ordinary (unrecognized stops s x) :=
  ordinary_of_some rfl (by decide)

theorem ordinary_literal (kind : Token.DtdKind) (x : Lexer) (pos : Nat) (mode : Mode) (closed : Bool) :
    Ordinary (x.emit (.dtd kind) pos mode (literalFault closed)) :=
  ordinary_of_closed closed rfl (by decide)

theorem ordinary_doctype (x : Lexer) (stage : DoctypeStage) : Ordinary (doctype s x stage) := by
  have hjunk := ordinary_unrecognized (s := s) [0x3C, 0x3E, 0x5B] x
  unfold doctype
  split
  · exact ordinary_of_none rfl
  split
  · exact ordinary_of_none rfl
  split
  · exact ordinary_of_none rfl
  split
  · exact ordinary_content _
  unfold doctypeParameter
  cases stage with
  | start => exact ordinary_getD_map (fun _ => ordinary_of_none rfl) hjunk
  | named =>
    dsimp only
    split
    · exact ordinary_of_none rfl
    · exact ordinary_getD_map (fun _ => ordinary_of_none rfl) hjunk
  | ids | subset => exact hjunk
  | _ => exact ordinary_getD_map (fun p => ordinary_literal _ x p.1 _ p.2) hjunk

theorem ordinary_declarationParameter (x : Lexer) (stage : DeclarationStage) :
    Ordinary (declarationParameter s x stage) := by
  have hjunk (stops : List UInt8) := ordinary_unrecognized (s := s) stops x
  have hplain {α : Type} {o : Option α} {f : α → Lexed} {r : Lexed} (hf : ∀ a, (f a).fault = none)
      (hr : Ordinary r) := ordinary_getD_map (o := o) (fun a => ordinary_of_none (hf a)) hr
  have hliteral {o : Option (Nat × Bool)} {r : Lexed} {kind : Token.DtdKind} {mode : Mode} (hr : Ordinary r) :=
    ordinary_getD_map (o := o) (fun a => ordinary_literal kind x a.1 mode a.2) hr
  unfold declarationParameter
  cases stage with
  | elementNamed =>
    dsimp only
    split
    · exact ordinary_of_none rfl
    · exact hplain (fun _ => rfl) (hplain (fun _ => rfl) (hjunk _))
  | elementContent =>
    dsimp only [elementContent]
    split
    · exact ordinary_of_none rfl
    · exact ordinary_of_none rfl
  | elementDone | entityDone | notationDone => exact hjunk _
  | entityStart =>
    dsimp only
    split
    · exact ordinary_of_none rfl
    · exact hplain (fun _ => rfl) (hjunk _)
  | entityNamed => exact hplain (fun _ => rfl) (hplain (fun _ => rfl) (hliteral (hjunk _)))
  | notationNamed => exact hplain (fun _ => rfl) (hplain (fun _ => rfl) (hjunk _))
  | elementStart | attlistStart | attributeName | attributeType | notationStart =>
    exact hplain (fun _ => rfl) (hjunk _)
  | _ => exact hliteral (hjunk _)

theorem ordinary_declaration (x : Lexer) (stage : DeclarationStage) :
    Ordinary (declaration s x stage) := by
  unfold declaration
  split
  · exact ordinary_of_none rfl
  split
  · exact ordinary_of_none rfl
  split
  · exact ordinary_dtdContent _
  · exact ordinary_declarationParameter x stage

theorem ordinary_lex (h : x.mode.section? = none) : Ordinary (lex s x) := by
  unfold lex
  split
  · exact ordinary_of_none rfl
  cases hmode : x.mode with
  | content => exact ordinary_content x
  | afterStartTagOpen => exact ordinary_startTag x
  | afterEndTagOpen => exact ordinary_endTag x
  | inTag | inProlog => exact ordinary_insideTag x
  | inEndTag => exact ordinary_insideEndTag x
  | afterAttributeName => exact ordinary_attributeAssign x
  | beforeAttributeValue => exact ordinary_attributeValue x
  | dtdContent => exact ordinary_dtdContent x
  | doctype stage => exact ordinary_doctype x stage
  | declaration stage => exact ordinary_declaration x stage
  | _ => rw [hmode] at h; cases h

/-- **The fault of a section is found inside that section**, behind all that is left of the text. -/
theorem section_of_fault (hlt : x.pos < size s) (h : (lex s x).fault = some k.fault) :
    x.mode.section? = some k ∧ (lex s x).kind = k.inside ∧ (lex s x).lexer.pos = size s := by
  cases hmode : x.mode.section? with
  | none => exact absurd h (ordinary_lex hmode k)
  | some k' =>
    cases lex_section hmode hlt with
    | cut _ hkind hfault _ hstop =>
      obtain rfl := Section.fault_injective (Option.some.inj (hfault.symm.trans h))
      exact ⟨rfl, hkind, hstop⟩
    | last _ _ hfault | before _ _ _ hfault | inside _ _ hfault => exact absurd (hfault.symm.trans h) nofun

end Lexer

end XmlAssist
