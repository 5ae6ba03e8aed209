import XmlAssist.Proofs.Lexer.TagPrefix

/-!
# Where a tag starts

A tag starts with `<` or `</`, and what is read there depends on nothing but the byte behind it.
Everything that is not a comment, a CDATA section or an instruction breaks off at a bracket, and the
lexer behind the bracket forgets where it came from, but for whether white space was read before
(`lex_tagOpen`).
-/

namespace XmlAssist

def Token.Kind.isTagOpen : Token.Kind → Bool
  | .startTagOpen | .endTagOpen => true
  | _ => false

/-- Markup starts with tokens of the kind: a tag, a comment, a CDATA section, an instruction, a document
type or a declaration. -/
def Token.Kind.opensMarkup : Token.Kind → Bool
  | .startTagOpen | .endTagOpen | .commentOpen | .cdataOpen | .instructionOpen | .dtd .doctypeOpen
  | .dtd .elementOpen | .dtd .attlistOpen | .dtd .entityOpen | .dtd .notationOpen => true
  | _ => false

theorem Token.Kind.opensMarkup_of_isTagOpen {kind : Token.Kind} (h : kind.isTagOpen = true) :
    kind.opensMarkup = true := by
  cases kind <;> first | rfl | cases h

namespace Lexer

open Text (byte? rest bytesOf size isBoundary)

variable {s : String} {x : Lexer} {c : UInt8}

/-! ## Markup starts with a bracket -/

theorem firstOpener_eq_none {openers : List (String × Token.Kind × Mode)}
    (ho : ∀ o ∈ openers, ∃ bs, bytesOf o.1 = 0x3C :: bs) (hb : byte? s x.pos ≠ some 0x3C) :
    firstOpener s x openers = none := by
  cases h : firstOpener s x openers with
  | none => rfl
  | some r =>
    induction openers with
    | nil => cases h
    | cons o openers ih =>
      obtain ⟨bs, hbs⟩ := ho o List.mem_cons_self
      have hnone : literal? o.1 s x.pos = none := by
        refine literal?_eq_none (isPrefixOf_eq_false hbs fun b hhead => ?_)
        rw [← Text.byte?_eq_head?] at hhead
        rw [beq_eq_false_iff_ne]
        rintro rfl
        exact hb hhead
      simp only [firstOpener, hnone] at h
      exact ih (fun o ho' => ho o (List.mem_cons_of_mem _ ho')) h

section elsewhere
variable (hb : byte? s x.pos ≠ some 0x3C)
include hb

theorem sees_eq_false : x.sees s 0x3C = false := by
  rw [sees, peek, beq_eq_false_iff_ne]
  exact hb

theorem opensMarkup_content : (content s x).kind.opensMarkup = false := by
  have hopeners : ∀ o ∈ contentOpeners, ∃ bs, bytesOf o.1 = 0x3C :: bs := by
    simp only [contentOpeners, List.forall_mem_cons, List.not_mem_nil, false_implies, implies_true,
      and_true]
    exact ⟨⟨_, rfl⟩, ⟨_, rfl⟩, ⟨_, rfl⟩, ⟨_, rfl⟩, ⟨_, rfl⟩, ⟨_, rfl⟩⟩
  rw [content, firstOpener_eq_none hopeners hb]
  rfl

theorem opensMarkup_dtdContent : (dtdContent s x).kind.opensMarkup = false := by
  have hopeners : ∀ o ∈ dtdOpeners, ∃ bs, bytesOf o.1 = 0x3C :: bs := by
    simp only [dtdOpeners, List.forall_mem_cons, List.not_mem_nil, false_implies, implies_true,
      and_true]
    exact ⟨⟨_, rfl⟩, ⟨_, rfl⟩, ⟨_, rfl⟩, ⟨_, rfl⟩, ⟨_, rfl⟩, ⟨_, rfl⟩⟩
  have htag : x.seesTag s = false := by rw [seesTag, sees_eq_false hb, Bool.false_and]
  rw [dtdContent, firstOpener_eq_none hopeners hb, htag, Bool.and_false]
  split
  · rfl
  · split <;> rfl

theorem opensMarkup_insideTag : (insideTag s x).kind.opensMarkup = false := by
  rw [insideTag, sees_eq_false hb]
  repeat' split
  all_goals first | rfl | contradiction

theorem opensMarkup_startTag : (startTag s x).kind.opensMarkup = false := by
  unfold startTag
  split
  · rfl
  · split
    · rfl
    · exact opensMarkup_insideTag (x := { x with mode := .inTag, spaced := false }) hb

theorem opensMarkup_insideEndTag : (insideEndTag s x).kind.opensMarkup = false := by
  rw [insideEndTag, sees_eq_false hb]
  repeat' split
  all_goals first | rfl | contradiction

theorem opensMarkup_endTag : (endTag s x).kind.opensMarkup = false := by
  unfold endTag
  split
  · rfl
  · split
    · rfl
    · exact opensMarkup_insideEndTag (x := { x with mode := .inEndTag }) hb

theorem opensMarkup_attributeAssign : (attributeAssign s x).kind.opensMarkup = false := by
  unfold attributeAssign
  split
  · rfl
  · split
    · rfl
    · exact opensMarkup_insideTag (x := { x with mode := x.tagMode }) hb

theorem opensMarkup_attributeValue : (attributeValue s x).kind.opensMarkup = false := by
  unfold attributeValue
  split
  · rfl
  · split
    · rfl
    · dsimp only
      split
      · rfl
      · exact opensMarkup_insideTag (x := { x with spaced := false, mode := x.tagMode }) hb

omit hb in
theorem opensMarkup_getD_map {α : Type} {o : Option α} {f : α → Lexed} {r : Lexed}
    (hf : ∀ a, (f a).kind.opensMarkup = false) (hr : r.kind.opensMarkup = false) :
    ((o.map f).getD r).kind.opensMarkup = false := by
  cases o with
  | none => exact hr
  | some a => exact hf a

theorem opensMarkup_doctype (stage : DoctypeStage) : (doctype s x stage).kind.opensMarkup = false := by
  have hparameter : (doctypeParameter s x stage).kind.opensMarkup = false := by
    unfold doctypeParameter
    cases stage with
    | named =>
      dsimp only
      split
      · rfl
      · exact opensMarkup_getD_map (fun _ => rfl) rfl
    | ids | subset => rfl
    | _ => exact opensMarkup_getD_map (fun _ => rfl) rfl
  rw [doctype, sees_eq_false hb]
  repeat' split
  all_goals first | rfl | exact hparameter | contradiction

theorem opensMarkup_declaration (stage : DeclarationStage) :
    (declaration s x stage).kind.opensMarkup = false := by
  have hone {α : Type} {o : Option α} {f : α → Lexed} {r : Lexed}
      (hf : ∀ a, (f a).kind.opensMarkup = false) (hr : r.kind.opensMarkup = false) :=
    opensMarkup_getD_map (o := o) hf hr
  have hparameter : (declarationParameter s x stage).kind.opensMarkup = false := by
    unfold declarationParameter
    cases stage with
    | elementNamed =>
      dsimp only
      split
      · rfl
      · exact hone (fun _ => rfl) (hone (fun _ => rfl) rfl)
    | elementContent =>
      dsimp only [elementContent]
      split <;> rfl
    | elementDone | entityDone | notationDone => rfl
    | entityStart =>
      dsimp only
      split
      · rfl
      · exact hone (fun _ => rfl) rfl
    | entityNamed => exact hone (fun _ => rfl) (hone (fun _ => rfl) (hone (fun _ => rfl) rfl))
    | notationNamed => exact hone (fun _ => rfl) (hone (fun _ => rfl) rfl)
    | _ => exact hone (fun _ => rfl) rfl
  rw [declaration, sees_eq_false hb]
  split
  · rfl
  · split
    · rfl
    · split
      · exact opensMarkup_dtdContent (x := { x with mode := .dtdContent }) hb
      · exact hparameter

end elsewhere

theorem byte?_of_opensMarkup (h : (lex s x).kind.opensMarkup = true) : byte? s x.pos = some 0x3C := by
  by_contra hb
  have hdelimited {close : String} {inside closing : Token.Kind} {fault : Token.Fault} {z : Lexer}
      (hi : inside.opensMarkup = false) (hc : closing.opensMarkup = false) :
      (delimited close inside closing fault s z).kind.opensMarkup = false := by
    unfold delimited
    split
    · exact hc
    · exact hi
  suffices hnot : (lex s x).kind.opensMarkup = false by rw [h] at hnot; cases hnot
  unfold lex
  split
  · rfl
  · split
    · exact opensMarkup_content hb
    · exact opensMarkup_startTag hb
    · exact opensMarkup_endTag hb
    · exact opensMarkup_insideTag hb
    · exact opensMarkup_insideTag hb
    · exact opensMarkup_insideEndTag hb
    · exact opensMarkup_attributeAssign hb
    · exact opensMarkup_attributeValue hb
    · exact hdelimited rfl rfl
    · exact hdelimited rfl rfl
    · unfold instruction insideInstruction
      repeat' split
      all_goals first | rfl | exact hdelimited rfl rfl
    · unfold insideInstruction
      split
      · rfl
      · exact hdelimited rfl rfl
    · exact opensMarkup_dtdContent hb
    · exact opensMarkup_doctype hb _
    · exact opensMarkup_declaration hb _

/-! ## What a bracket starts -/

/-- The mode breaks off at a bracket. -/
def Mode.yields : Mode → Bool
  | .inComment | .inCData | .afterInstructionOpen | .inInstruction => false
  | _ => true

/-- The lexer that has broken off what it was reading. -/
def back (x : Lexer) : Lexer :=
  match x.mode with
  | .afterStartTagOpen | .beforeAttributeValue => { x with spaced := false, inProlog := false }
  | _ => { x with inProlog := false }

@[simp] theorem back_pos (x : Lexer) : x.back.pos = x.pos := by
  unfold back
  split <;> rfl

@[simp] theorem back_inDtd (x : Lexer) : x.back.inDtd = x.inDtd := by
  unfold back
  split <;> rfl

@[simp] theorem back_inSubset (x : Lexer) : x.back.inSubset = x.inSubset := by
  unfold back
  split <;> rfl

@[simp] theorem back_dtdFile (x : Lexer) : x.back.dtdFile = x.dtdFile := by
  unfold back
  split <;> rfl

theorem yields_of_opensMarkup (h : (lex s x).kind.opensMarkup = true) : x.mode.yields = true := by
  have hdelimited {close : String} {inside closing : Token.Kind} {fault : Token.Fault} {z : Lexer}
      (hi : inside.opensMarkup = false) (hc : closing.opensMarkup = false) :
      (delimited close inside closing fault s z).kind.opensMarkup = false := by
    unfold delimited
    split
    · exact hc
    · exact hi
  have hinside {z : Lexer} : (insideInstruction s z).kind.opensMarkup = false := by
    unfold insideInstruction
    split
    · rfl
    · exact hdelimited rfl rfl
  by_contra hmode
  suffices hnot : (lex s x).kind.opensMarkup = false by rw [h] at hnot; cases hnot
  unfold lex
  split
  · rfl
  · cases hm : x.mode <;> simp only [hm, Mode.yields, not_true_eq_false] at hmode
    · exact hdelimited rfl rfl
    · exact hdelimited rfl rfl
    · dsimp only
      unfold instruction
      repeat' split
      all_goals first | rfl | exact hinside
    · exact hinside

section bracket
variable (hb : byte? s x.pos = some 0x3C)
include hb

theorem head?_bracket {b : UInt8} (h : b ∈ (rest s x.pos).head?) : b = 0x3C := by
  rw [← Text.byte?_eq_head?, hb] at h
  exact (Option.some.inj h).symm

theorem insideTag_bracket : insideTag s x = betweenMarkup s { x with inProlog := false } := by
  have hspace : space? s x.pos = none := space?_eq_none fun b h => by rw [head?_bracket hb h]; rfl
  have hname : name? s x.pos = none := name?_eq_none fun b h => by rw [head?_bracket hb h]; rfl
  have hliteral {lit : String} {c : UInt8} {r : List UInt8} (hlit : bytesOf lit = c :: r)
      (hc : c ≠ 0x3C) : literal? lit s x.pos = none :=
    literal?_eq_none (isPrefixOf_eq_false hlit fun b h => by
      rw [head?_bracket hb h]
      exact beq_false_of_ne hc)
  have hprolog : literal? "?>" s x.pos = none := hliteral (c := 0x3F) (r := [0x3E]) rfl (by decide)
  have hclose : literal? "/>" s x.pos = none := hliteral (c := 0x2F) (r := [0x3E]) rfl (by decide)
  simp [insideTag, hspace, hname, hprolog, hclose, sees, peek, hb]

theorem startTag_bracket :
    startTag s x = betweenMarkup s { x with mode := .inTag, spaced := false, inProlog := false } := by
  have hspace : space? s x.pos = none := space?_eq_none fun b h => by rw [head?_bracket hb h]; rfl
  have hname : name? s x.pos = none := name?_eq_none fun b h => by rw [head?_bracket hb h]; rfl
  rw [startTag, hname, hspace]
  exact insideTag_bracket (x := { x with mode := .inTag, spaced := false }) hb

theorem insideEndTag_bracket : insideEndTag s x = content s { x with mode := .content } := by
  have hspace : space? s x.pos = none := space?_eq_none fun b h => by rw [head?_bracket hb h]; rfl
  simp [insideEndTag, hspace, sees, peek, hb]

theorem endTag_bracket : endTag s x = content s { x with mode := .content } := by
  have hspace : space? s x.pos = none := space?_eq_none fun b h => by rw [head?_bracket hb h]; rfl
  have hname : name? s x.pos = none := name?_eq_none fun b h => by rw [head?_bracket hb h]; rfl
  rw [endTag, hname, hspace]
  exact insideEndTag_bracket (x := { x with mode := .inEndTag }) hb

theorem attributeAssign_bracket :
    attributeAssign s x = betweenMarkup s { x with mode := x.tagMode, inProlog := false } := by
  have hspace : space? s x.pos = none := space?_eq_none fun b h => by rw [head?_bracket hb h]; rfl
  have hassign : x.sees s 0x3D = false := by simp [sees, peek, hb]
  rw [attributeAssign, hspace, hassign]
  exact insideTag_bracket (x := { x with mode := x.tagMode }) hb

theorem attributeValue_bracket : attributeValue s x =
    betweenMarkup s { x with mode := x.tagMode, spaced := false, inProlog := false } := by
  have hspace : space? s x.pos = none := space?_eq_none fun b h => by rw [head?_bracket hb h]; rfl
  have hstop : unquotedStop s x.pos = x.pos := by
    have hskip : Text.skipWhile isUnquotedValue s x.pos = x.pos := by
      refine Nat.le_antisymm (Nat.le_of_not_lt fun hlt => ?_) (Text.le_skipWhile ..)
      have hskipped := Text.byte_of_lt_skipWhile (Nat.le_refl _) hlt hb
      cases hskipped
    rw [unquotedStop_eq, hskip, hb]
    rfl
  have hquote : (x.peek s).filter isQuoteByte = none := by
    rw [peek, hb]
    rfl
  rw [attributeValue, hspace, hquote]
  simp only [hstop, Nat.lt_irrefl, decide_false, Bool.false_and, Bool.false_eq_true, if_false]
  exact insideTag_bracket (x := { x with spaced := false, mode := x.tagMode }) hb

theorem lex_bracket (hc : x.Consistent) (hmode : x.mode.yields = true) :
    lex s x = betweenMarkup s x.back := by
  have hlt : ¬ size s ≤ x.pos := Nat.not_le_of_lt (Text.lt_size_of_byte? hb)
  have hm := hc.mode
  have hspace : space? s x.pos = none := space?_eq_none fun b h => by rw [head?_bracket hb h]; rfl
  have hsees {b : UInt8} (hne : b ≠ 0x3C) : x.sees s b = false := by
    rw [sees, peek, hb, beq_eq_false_iff_ne]
    exact fun h => hne (Option.some.inj h).symm
  have hbracket : x.sees s 0x3C = true := by
    rw [sees, peek, hb]
    rfl
  -- outside of declarations a document goes on, and inside of them another declaration may come
  have houter {z : Lexer} (hd : z.inDtd = false) :
      content s { z with mode := .content } = betweenMarkup s z := (if_neg (by simp [hd])).symm
  have hinner {z : Lexer} (hd : z.inDtd = true) :
      dtdContent s { z with mode := .dtdContent } = betweenMarkup s z := (if_pos hd).symm
  rw [lex, if_neg hlt]
  unfold Agrees at hm
  unfold back
  obtain ⟨pos, mode, spaced, inProlog, inSubset, dtdFile⟩ := x
  cases mode with
  | inComment | inCData | afterInstructionOpen | inInstruction => cases hmode
  | content =>
    obtain rfl : inProlog = false := hm.1
    exact houter hm.2
  | afterStartTagOpen => exact startTag_bracket hb
  | afterEndTagOpen =>
    obtain rfl : inProlog = false := hm.1
    exact (endTag_bracket hb).trans (houter hm.2)
  | inTag | inProlog => exact insideTag_bracket hb
  | inEndTag =>
    obtain rfl : inProlog = false := hm.1
    exact (insideEndTag_bracket hb).trans (houter hm.2)
  | afterAttributeName => exact attributeAssign_bracket hb
  | beforeAttributeValue => exact attributeValue_bracket hb
  | dtdContent =>
    obtain rfl : inProlog = false := hm.1
    exact hinner hm.2
  | doctype stage =>
    obtain rfl : inProlog = false := hm.1
    obtain rfl : inSubset = false := inSubset_eq_false hm.2.1
    show doctype s _ stage = _
    rw [doctype, hspace, hsees (by decide), hsees (by decide), hbracket]
    simp only [Bool.and_false, Bool.false_eq_true, if_false, if_true]
    exact houter (z := { pos, mode := .doctype stage, spaced, dtdFile }) hm.2.1
  | declaration stage =>
    obtain rfl : inProlog = false := hm.1
    show declaration s _ stage = _
    rw [declaration, hspace, hsees (by decide), hbracket]
    simp only [Bool.true_or, Bool.false_eq_true, if_false, if_true]
    exact hinner hm.2

end bracket

/-! ## What opens markup -/

/-- What is read at `i` is the opener. -/
structure Opens (s : String) (i : Nat) (o : String × Token.Kind × Mode) (r : Lexed) : Prop where
  stands : Text.startsAt s i (bytesOf o.1) = true
  kind : r.kind = o.2.1
  stop : r.lexer.pos = i + size o.1
  mode : r.lexer.mode = o.2.2
  fault : r.fault = none

theorem opens_of_firstOpener {openers : List (String × Token.Kind × Mode)} {r : Lexed}
    (h : firstOpener s x openers = some r) : ∃ o ∈ openers, Opens s x.pos o r := by
  induction openers with
  | nil => cases h
  | cons o openers ih =>
    simp only [firstOpener, literal?] at h
    split at h
    · rename_i pos hpos
      obtain rfl := Option.some.inj h
      split at hpos
      · rename_i hstands
        obtain rfl := Option.some.inj hpos
        exact ⟨o, List.mem_cons_self, hstands, rfl, rfl, rfl, rfl⟩
      · cases hpos
    · obtain ⟨o', ho', hopens⟩ := ih h
      exact ⟨o', List.mem_cons_of_mem _ ho', hopens⟩

theorem opens_content (h : (content s x).kind.opensMarkup = true) :
    ∃ o ∈ contentOpeners, Opens s x.pos o (content s x) := by
  unfold content at h ⊢
  split
  · exact opens_of_firstOpener ‹_›
  · rename_i hnone
    rw [hnone] at h
    cases h

theorem opens_dtdContent (h : (dtdContent s x).kind.opensMarkup = true) :
    ∃ o ∈ contentOpeners ++ dtdOpeners, Opens s x.pos o (dtdContent s x) := by
  revert h
  unfold dtdContent
  split
  · rintro ⟨⟩
  split
  · rintro ⟨⟩
  split
  · intro _
    obtain ⟨o, ho, hopens⟩ := opens_of_firstOpener ‹_›
    exact ⟨o, List.mem_append_right _ ho, hopens⟩
  split
  · intro h
    obtain ⟨o, ho, hopens⟩ := opens_content h
    exact ⟨o, List.mem_append_left _ ho, hopens⟩
  · rintro ⟨⟩

/-- **Where markup starts, its opener stands.** -/
theorem opens_lex (hc : x.Consistent) (h : (lex s x).kind.opensMarkup = true) :
    ∃ o ∈ contentOpeners ++ dtdOpeners, Opens s x.pos o (lex s x) := by
  have hlex := lex_bracket (byte?_of_opensMarkup h) hc (yields_of_opensMarkup h)
  rw [hlex] at h ⊢
  rw [← back_pos x]
  unfold betweenMarkup at h ⊢
  split
  · rename_i hd
    rw [if_pos hd] at h
    exact opens_dtdContent h
  · rename_i hd
    rw [if_neg hd] at h
    obtain ⟨o, ho, hopens⟩ := opens_content h
    exact ⟨o, List.mem_append_left _ ho, hopens⟩

/-! ## Tags -/

/-- At a bracket with that byte behind it no comment, declaration or instruction starts. -/
def BehindBracket (c : UInt8) : Prop := c ≠ 0x21 ∧ c ≠ 0x3F

/-- The tag that starts at the lexer, by the byte behind its bracket. -/
def tagOpen (x : Lexer) (c : UInt8) : Lexed :=
  let x := { x with inProlog := false, inSubset := false }
  if c = 0x2F then x.emit .endTagOpen (x.pos + 2) .afterEndTagOpen
  else x.emit .startTagOpen (x.pos + 1) .afterStartTagOpen

/-- Inside the brackets of a document type only a name or a slash makes a bracket a tag. -/
def seesTagOpen (x : Lexer) (c : UInt8) : Bool :=
  !x.inDtd || (x.inSubset && (c == 0x2F || isNameStart c))

section tag
variable (hb : byte? s x.pos = some 0x3C) (hnext : byte? s (x.pos + 1) = some c) (hc : BehindBracket c)
include hb hnext hc

omit hc in
theorem rest_bracket : ∃ r, rest s x.pos = 0x3C :: c :: r := by
  obtain ⟨hlt, hbyte⟩ := Text.byte?_eq_some hb
  obtain ⟨hlt', hbyte'⟩ := Text.byte?_eq_some hnext
  exact ⟨_, by rw [Text.rest_of_lt hlt, hbyte, Text.rest_of_lt hlt', hbyte']⟩

omit hc in
theorem literal?_bracket {l : String} {d : UInt8} {r : List UInt8}
    (hl : bytesOf l = 0x3C :: d :: r) (hd : c ≠ d) : literal? l s x.pos = none := by
  obtain ⟨w, hw⟩ := rest_bracket hb hnext
  refine literal?_eq_none ?_
  rw [hl, hw]
  simp [List.isPrefixOf, hd.symm]

theorem content_tag (hp : x.inProlog = false) (hs : x.inSubset = false) :
    content s x = x.tagOpen c := by
  have hstands : literal? "<" s x.pos = some (x.pos + 1) := literal?_lt_of_byte? hb
  obtain ⟨pos, mode, spaced, inProlog, inSubset, dtdFile⟩ := x
  obtain rfl : inProlog = false := hp
  obtain rfl : inSubset = false := hs
  simp only [content, contentOpeners, firstOpener, hstands,
    literal?_bracket hb hnext (l := "<!--") (d := 0x21) (r := [0x2D, 0x2D]) rfl hc.1,
    literal?_bracket hb hnext (l := "<![CDATA[") (d := 0x21)
      (r := [0x5B, 0x43, 0x44, 0x41, 0x54, 0x41, 0x5B]) rfl hc.1,
    literal?_bracket hb hnext (l := "<!DOCTYPE") (d := 0x21)
      (r := [0x44, 0x4F, 0x43, 0x54, 0x59, 0x50, 0x45]) rfl hc.1,
    literal?_bracket hb hnext (l := "<?") (d := 0x3F) (r := []) rfl hc.2, tagOpen]
  by_cases hslash : c = 0x2F
  · subst hslash
    have hend : literal? "</" s pos = some (pos + 2) := by
      obtain ⟨r, hr⟩ := rest_bracket hb hnext
      exact literal?_of_rest (r := r) hr
    simp [hend]
  · simp [literal?_bracket hb hnext (l := "</") (d := 0x2F) (r := []) rfl hslash, hslash]

theorem betweenMarkup_tag (hp : x.inProlog = false) (hf : x.inDtd = false → x.inSubset = false) :
    (x.seesTagOpen c = true ∧ betweenMarkup s x = x.tagOpen c) ∨
      (x.seesTagOpen c = false ∧ (betweenMarkup s x).kind = .text) := by
  by_cases hd : x.inDtd = true
  · have hspace : space? s x.pos = none := space?_eq_none fun b h => by rw [head?_bracket hb h]; rfl
    have hopeners : firstOpener s { x with mode := .dtdContent } dtdOpeners = none := by
      simp only [dtdOpeners, firstOpener,
        literal?_bracket hb hnext (l := "<!ELEMENT") (d := 0x21)
          (r := [0x45, 0x4C, 0x45, 0x4D, 0x45, 0x4E, 0x54]) rfl hc.1,
        literal?_bracket hb hnext (l := "<!ATTLIST") (d := 0x21)
          (r := [0x41, 0x54, 0x54, 0x4C, 0x49, 0x53, 0x54]) rfl hc.1,
        literal?_bracket hb hnext (l := "<!ENTITY") (d := 0x21)
          (r := [0x45, 0x4E, 0x54, 0x49, 0x54, 0x59]) rfl hc.1,
        literal?_bracket hb hnext (l := "<!NOTATION") (d := 0x21)
          (r := [0x4E, 0x4F, 0x54, 0x41, 0x54, 0x49, 0x4F, 0x4E]) rfl hc.1,
        literal?_bracket hb hnext (l := "<!--") (d := 0x21) (r := [0x2D, 0x2D]) rfl hc.1,
        literal?_bracket hb hnext (l := "<?") (d := 0x3F) (r := []) rfl hc.2]
    have htag : seesTag s { x with mode := .dtdContent } = (c == 0x2F || isNameStart c) := by
      simp [seesTag, sees, peek, hb, hnext]
    have hclose : sees s { x with mode := .dtdContent } 0x5D = false := by simp [sees, peek, hb]
    have hsees : x.seesTagOpen c = (x.inSubset && (c == 0x2F || isNameStart c)) := by
      simp [seesTagOpen, hd]
    have hcontent : content s { x with mode := .content, inSubset := false } = x.tagOpen c :=
      content_tag (x := { x with mode := .content, inSubset := false }) hb hnext hc hp rfl
    rw [betweenMarkup, if_pos hd, dtdContent, hopeners, htag, hclose, hsees]
    simp only [hspace, Bool.and_false, Bool.false_eq_true, if_false]
    cases htest : x.inSubset && (c == 0x2F || isNameStart c) with
    | true => exact .inl ⟨rfl, by simpa using hcontent⟩
    | false => exact .inr ⟨rfl, rfl⟩
  · have hd : x.inDtd = false := Bool.eq_false_iff.mpr hd
    refine .inl ⟨by simp [seesTagOpen, hd], ?_⟩
    rw [betweenMarkup, if_neg (by simp [hd])]
    exact content_tag (x := { x with mode := .content }) hb hnext hc hp (hf hd)

/-- **A bracket with a byte behind it** starts a tag, or is text among declarations. -/
theorem lex_tagOpen (hx : x.Consistent) (hmode : x.mode.yields = true) :
    (x.seesTagOpen c = true ∧ lex s x = x.back.tagOpen c) ∨
      (x.seesTagOpen c = false ∧ (lex s x).kind = .text) := by
  have hp : x.back.inProlog = false := by
    unfold back
    split <;> rfl
  have hsees : x.back.seesTagOpen c = x.seesTagOpen c := by simp [seesTagOpen]
  rw [← back_pos x] at hb hnext
  rw [lex_bracket (by simpa using hb) hx hmode, ← hsees]
  exact betweenMarkup_tag hb hnext hc hp fun hd => inSubset_eq_false hd

end tag

theorem lex_tagOpen_again {s' : String} {k : Nat} {c' : UInt8} (hx : x.Consistent)
    (h : (lex s x).kind.isTagOpen = true) (hnext : byte? s (x.pos + 1) = some c)
    (hc : BehindBracket c) (hx' : (x.goTo k).Consistent) (hb' : byte? s' k = some 0x3C)
    (hnext' : byte? s' (k + 1) = some c') (hc' : BehindBracket c')
    (hsame : (c' == 0x2F || isNameStart c') = (c == 0x2F || isNameStart c)) :
    lex s' (x.goTo k) = (x.goTo k).back.tagOpen c' := by
  have hmarkup := Token.Kind.opensMarkup_of_isTagOpen h
  have hmode := yields_of_opensMarkup hmarkup
  have hsees : x.seesTagOpen c = true := by
    rcases lex_tagOpen (byte?_of_opensMarkup hmarkup) hnext hc hx hmode with ⟨hsees, -⟩ | ⟨-, hkind⟩
    · exact hsees
    · rw [hkind] at h
      cases h
  rcases lex_tagOpen (x := x.goTo k) hb' hnext' hc' hx' hmode with ⟨-, hlex⟩ | ⟨hnot, -⟩
  · exact hlex
  · have hsees' : (x.goTo k).seesTagOpen c' = x.seesTagOpen c := by
      simp only [seesTagOpen, goTo_inDtd, goTo_inSubset, hsame]
    rw [hsees', hsees] at hnot
    cases hnot

theorem tagOpen_cursor (hf : x.dtdFile = false) : x.tagOpen c =
    if c = 0x2F then ⟨.endTagOpen, cursor .afterEndTagOpen (x.pos + 2) x.spaced, none⟩
    else ⟨.startTagOpen, cursor .afterStartTagOpen (x.pos + 1) x.spaced, none⟩ := by
  obtain ⟨pos, mode, spaced, inProlog, inSubset, dtdFile⟩ := x
  obtain rfl : dtdFile = false := hf
  rfl

end Lexer

end XmlAssist
