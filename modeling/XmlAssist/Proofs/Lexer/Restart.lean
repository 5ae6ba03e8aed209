import XmlAssist.Proofs.Lexer.Order

/-!
# Reading a document again from the middle

Where a piece of content starts, the lexer can forget all that it knows and start again in the
content of a document: it reads the same tokens up to the end. Two facts carry this. Whatever mode
the lexer is in, it reads what starts content as if it were in the content of a document
(`Resumes`); and the one mark that a fresh lexer may get wrong there, whether white space was read,
is set anew before any mode looks at it (`Alike`).
-/

namespace XmlAssist.Lexer

variable {s : String} {x y : Lexer}

/-! ## The mark for white space -/

/-- What is read in the mode depends on whether white space was read before. -/
def Mode.mindsSpace : Mode → Bool
  | .inTag | .inProlog | .afterAttributeName => true
  | _ => false

/-- The lexers differ in nothing but the mark for white space, and there only if the mode does not
look at it. -/
structure Alike (x y : Lexer) : Prop where
  rest : y = { x with spaced := y.spaced }
  spaced : x.mode.mindsSpace = true → y.spaced = x.spaced

theorem Alike.refl (x : Lexer) : Alike x x := ⟨rfl, fun _ => rfl⟩

theorem alike_spaced (b : Bool) (h : x.mode.mindsSpace = false) : Alike x { x with spaced := b } :=
  ⟨rfl, fun hm => by rw [h] at hm; cases hm⟩

theorem Alike.mode (h : Alike x y) : y.mode = x.mode := by rw [h.rest]

theorem Alike.pos (h : Alike x y) : y.pos = x.pos := by rw [h.rest]

theorem Alike.inDtd (h : Alike x y) : y.inDtd = x.inDtd := by rw [h.rest]; rfl

/-- The same was read, and the lexers behind it are alike. -/
structure SameRead (r q : Lexed) : Prop where
  kind : q.kind = r.kind
  fault : q.fault = r.fault
  lexer : Alike r.lexer q.lexer

theorem SameRead.refl (r : Lexed) : SameRead r r := ⟨rfl, rfl, .refl _⟩

section spaced
variable (b : Bool)

theorem sameRead_emit (x : Lexer) (b : Bool) (kind : Token.Kind) (pos : Nat) {mode : Mode}
    (fault : Option Token.Fault) (h : mode.mindsSpace = false) :
    SameRead (x.emit kind pos mode fault) ({ x with spaced := b }.emit kind pos mode fault) :=
  ⟨rfl, rfl, alike_spaced b h⟩

theorem sameRead_getD_map {α : Type} {o : Option α} {f g : α → Lexed} {r q : Lexed}
    (hf : ∀ a, SameRead (f a) (g a)) (hr : SameRead r q) :
    SameRead ((o.map f).getD r) ((o.map g).getD q) := by
  cases o with
  | none => exact hr
  | some a => exact hf a

theorem sameRead_ite {c : Prop} [Decidable c] {r r' q q' : Lexed} (h : SameRead r q)
    (h' : SameRead r' q') : SameRead (if c then r else r') (if c then q else q') := by
  split
  · exact h
  · exact h'

theorem firstOpener_spaced (openers : List (String × Token.Kind × Mode)) :
    (firstOpener s x openers = none ∧ firstOpener s { x with spaced := b } openers = none) ∨
      ∃ o ∈ openers, ∃ pos, firstOpener s x openers = some (x.emit o.2.1 pos o.2.2) ∧
        firstOpener s { x with spaced := b } openers =
          some ({ x with spaced := b }.emit o.2.1 pos o.2.2) := by
  induction openers with
  | nil => exact .inl ⟨rfl, rfl⟩
  | cons o openers ih =>
    simp only [firstOpener]
    cases literal? o.1 s x.pos with
    | some pos => exact .inr ⟨o, List.mem_cons_self, pos, rfl, rfl⟩
    | none =>
      rcases ih with ih | ⟨o', ho', pos, h⟩
      · exact .inl ih
      · exact .inr ⟨o', List.mem_cons_of_mem _ ho', pos, h⟩

theorem sameRead_content (h : x.mode.mindsSpace = false) :
    SameRead (content s x) (content s { x with spaced := b }) := by
  have hmodes : ∀ o ∈ contentOpeners, o.2.2.mindsSpace = false := by decide
  unfold content
  rcases firstOpener_spaced (s := s) (x := x) b contentOpeners with ⟨h₁, h₂⟩ | ⟨o, ho, pos, h₁, h₂⟩
  · rw [h₁, h₂]
    exact sameRead_emit x b _ _ _ h
  · rw [h₁, h₂]
    exact sameRead_emit x b _ _ _ (hmodes o ho)

theorem sameRead_dtdContent (h : x.mode.mindsSpace = false) :
    SameRead (dtdContent s x) (dtdContent s { x with spaced := b }) := by
  have hmodes : ∀ o ∈ dtdOpeners, o.2.2.mindsSpace = false := by decide
  unfold dtdContent
  cases space? s x.pos with
  | some pos => exact sameRead_emit x b _ _ _ h
  | none =>
    refine sameRead_ite (sameRead_emit { x with inSubset := false } b _ _ _ rfl) ?_
    rcases firstOpener_spaced (s := s) (x := x) b dtdOpeners with ⟨h₁, h₂⟩ | ⟨o, ho, pos, h₁, h₂⟩
    · rw [h₁, h₂]
      refine sameRead_ite ?_ (sameRead_emit x b _ _ _ h)
      exact sameRead_content (x := { x with inSubset := false, mode := .content }) b rfl
    · rw [h₁, h₂]
      exact sameRead_emit x b _ _ _ (hmodes o ho)

theorem sameRead_insideEndTag (h : x.mode.mindsSpace = false) :
    SameRead (insideEndTag s x) (insideEndTag s { x with spaced := b }) := by
  unfold insideEndTag
  cases space? s x.pos with
  | some pos => exact sameRead_emit x b _ _ _ h
  | none =>
    refine sameRead_ite (sameRead_emit x b _ _ _ rfl) (sameRead_ite ?_ (sameRead_emit x b _ _ _ h))
    exact sameRead_content (x := { x with mode := .content }) b rfl

theorem mindsSpace_contentMode (x : Lexer) : x.contentMode.mindsSpace = false := by
  unfold contentMode
  split <;> rfl

theorem sameRead_delimited (close : String) (inside closing : Token.Kind) (fault : Token.Fault)
    (h : x.mode.mindsSpace = false) :
    SameRead (delimited close inside closing fault s x)
      (delimited close inside closing fault s { x with spaced := b }) := by
  unfold delimited
  cases literal? close s x.pos with
  | some pos => exact sameRead_emit x b _ _ _ (mindsSpace_contentMode x)
  | none => exact sameRead_emit x b _ _ _ h

theorem sameRead_insideInstruction (h : x.mode.mindsSpace = false) :
    SameRead (insideInstruction s x) (insideInstruction s { x with spaced := b }) := by
  unfold insideInstruction
  cases space? s x.pos with
  | some pos => exact sameRead_emit x b _ _ _ h
  | none => exact sameRead_delimited b _ _ _ _ h

theorem sameRead_doctypeParameter (stage : DoctypeStage) (h : x.mode.mindsSpace = false) :
    SameRead (doctypeParameter s x stage) (doctypeParameter s { x with spaced := b } stage) := by
  have hjunk (stops : List UInt8) :
      SameRead (unrecognized stops s x) (unrecognized stops s { x with spaced := b }) :=
    sameRead_emit x b _ _ _ h
  have hemit {kind next pos fault} : SameRead (x.emit (.dtd kind) pos (.doctype next) fault)
      ({ x with spaced := b }.emit (.dtd kind) pos (.doctype next) fault) :=
    sameRead_emit x b _ _ _ rfl
  cases stage with
  | start | publicKeyword | systemKeyword | publicId =>
    exact sameRead_getD_map (fun _ => hemit) (hjunk _)
  | named =>
    simp only [doctypeParameter]
    cases keyword? "PUBLIC" s x.pos with
    | some pos => exact hemit
    | none => exact sameRead_getD_map (fun _ => hemit) (hjunk _)
  | ids | subset => exact hjunk _

theorem sameRead_doctype (stage : DoctypeStage) (h : x.mode.mindsSpace = false) :
    SameRead (doctype s x stage) (doctype s { x with spaced := b } stage) := by
  unfold doctype
  cases space? s x.pos with
  | some pos => exact sameRead_emit x b _ _ _ h
  | none =>
    refine sameRead_ite (sameRead_emit { x with inSubset := true } b _ _ _ rfl) ?_
    refine sameRead_ite (sameRead_emit { x with inSubset := false } b _ _ _ rfl) ?_
    refine sameRead_ite ?_ (sameRead_doctypeParameter b stage h)
    exact sameRead_content (x := { x with inSubset := false, mode := .content }) b rfl

theorem sameRead_declarationParameter (stage : DeclarationStage) (h : x.mode.mindsSpace = false) :
    SameRead (declarationParameter s x stage)
      (declarationParameter s { x with spaced := b } stage) := by
  have hjunk (stops : List UInt8) :
      SameRead (unrecognized stops s x) (unrecognized stops s { x with spaced := b }) :=
    sameRead_emit x b _ _ _ h
  have hemit {kind next pos fault} : SameRead (x.emit (.dtd kind) pos (.declaration next) fault)
      ({ x with spaced := b }.emit (.dtd kind) pos (.declaration next) fault) :=
    sameRead_emit x b _ _ _ rfl
  have hstay {kind pos fault} : SameRead (x.emit kind pos x.mode fault)
      ({ x with spaced := b }.emit kind pos x.mode fault) := sameRead_emit x b _ _ _ h
  cases stage with
  | elementStart | attlistStart | attributeName | notationStart | attributeType | attributeDefault
  | entityPublic | entityPublicId | entitySystem | notationPublic | notationPublicId
  | notationSystem => exact sameRead_getD_map (fun _ => hemit) (hjunk _)
  | elementDone | entityDone | notationDone => exact hjunk _
  | elementNamed =>
    exact sameRead_ite hemit
      (sameRead_getD_map (fun _ => hemit) (sameRead_getD_map (fun _ => hemit) (hjunk _)))
  | elementContent => exact sameRead_ite hemit hstay
  | entityStart => exact sameRead_ite hstay (sameRead_getD_map (fun _ => hemit) (hjunk _))
  | entityNamed =>
    exact sameRead_getD_map (fun _ => hemit)
      (sameRead_getD_map (fun _ => hemit) (sameRead_getD_map (fun _ => hemit) (hjunk _)))
  | notationNamed =>
    exact sameRead_getD_map (fun _ => hemit) (sameRead_getD_map (fun _ => hemit) (hjunk _))

theorem sameRead_declaration (stage : DeclarationStage) (h : x.mode.mindsSpace = false) :
    SameRead (declaration s x stage) (declaration s { x with spaced := b } stage) := by
  unfold declaration
  cases space? s x.pos with
  | some pos => exact sameRead_emit x b _ _ _ h
  | none =>
    refine sameRead_ite (sameRead_emit x b _ _ _ rfl) ?_
    refine sameRead_ite ?_ (sameRead_declarationParameter b stage h)
    exact sameRead_dtdContent (x := { x with mode := .dtdContent }) b rfl

theorem sameRead_startTag (h : x.mode.mindsSpace = false) :
    SameRead (startTag s x) (startTag s { x with spaced := b }) := by
  unfold startTag
  cases name? s x.pos with
  | some pos => exact .refl _
  | none =>
    cases space? s x.pos with
    | some pos => exact sameRead_emit x b _ _ _ h
    | none => exact .refl _

theorem sameRead_endTag (h : x.mode.mindsSpace = false) :
    SameRead (endTag s x) (endTag s { x with spaced := b }) := by
  unfold endTag
  cases name? s x.pos with
  | some pos => exact sameRead_emit x b _ _ _ rfl
  | none =>
    cases space? s x.pos with
    | some pos => exact sameRead_emit x b _ _ _ h
    | none => exact sameRead_insideEndTag (x := { x with mode := .inEndTag }) b rfl

theorem sameRead_attributeValue (h : x.mode.mindsSpace = false) :
    SameRead (attributeValue s x) (attributeValue s { x with spaced := b }) := by
  unfold attributeValue
  cases space? s x.pos with
  | some pos => exact sameRead_emit x b _ _ _ h
  | none => exact .refl _

theorem sameRead_instruction :
    SameRead (instruction s x) (instruction s { x with spaced := b }) := by
  unfold instruction
  refine sameRead_ite (.refl _) ?_
  cases name? s x.pos with
  | some pos => exact sameRead_emit x b _ _ _ rfl
  | none => exact sameRead_insideInstruction (x := { x with mode := .inInstruction }) b rfl

theorem sameRead_lex (h : x.mode.mindsSpace = false) :
    SameRead (lex s x) (lex s { x with spaced := b }) := by
  unfold lex
  refine sameRead_ite ⟨rfl, rfl, alike_spaced b h⟩ ?_
  obtain ⟨pos, mode, spaced, inProlog, inSubset, dtdFile⟩ := x
  cases mode with
  | inTag | inProlog | afterAttributeName => cases h
  | content => exact sameRead_content b h
  | afterStartTagOpen => exact sameRead_startTag b h
  | afterEndTagOpen => exact sameRead_endTag b h
  | inEndTag => exact sameRead_insideEndTag b h
  | beforeAttributeValue => exact sameRead_attributeValue b h
  | inComment => exact sameRead_delimited b _ _ _ _ h
  | inCData => exact sameRead_delimited b _ _ _ _ h
  | afterInstructionOpen => exact sameRead_instruction b
  | inInstruction => exact sameRead_insideInstruction b h
  | dtdContent => exact sameRead_dtdContent b h
  | doctype stage => exact sameRead_doctype b stage h
  | declaration stage => exact sameRead_declaration b stage h

end spaced

/-! ## Runs of alike lexers -/

theorem Alike.eq_of_mindsSpace (h : Alike x y) (hm : x.mode.mindsSpace = true) : y = x := by
  rw [h.rest, h.spaced hm]

theorem Alike.lex (h : Alike x y) : SameRead (lex s x) (Lexer.lex s y) := by
  cases hm : x.mode.mindsSpace with
  | true => rw [h.eq_of_mindsSpace hm]; exact .refl _
  | false => rw [h.rest]; exact sameRead_lex _ hm

theorem Alike.step (h : Alike x y) :
    (y.step s).1 = (x.step s).1 ∧ Alike (x.step s).2 (y.step s).2 := by
  have hlex := h.lex (s := s)
  have hpos := hlex.lexer.pos
  unfold Lexer.step
  simp only [hlex.kind, hlex.fault, hpos, h.pos]
  split
  · refine ⟨rfl, ?_, hlex.lexer.spaced⟩
    have hrest := hlex.lexer.rest
    generalize (Lexer.lex s y).lexer = z at hrest
    rw [hrest]
  · exact ⟨rfl, hlex.lexer⟩

/-- What can be seen of a step: the token, and behind it the mode and whether declarations are
expected. -/
def shown (p : Token × Lexer) : Token × Mode × Bool := (p.1, p.2.mode, p.2.inDtd)

theorem Alike.run (h : Alike x y) : (y.run s).map shown = (x.run s).map shown := by
  fun_induction Lexer.run s x generalizing y with
  | case1 x hend =>
    obtain ⟨htoken, hnext⟩ := h.step (s := s)
    rw [Lexer.run, dif_pos (by rw [htoken]; exact hend)]
    simp only [List.map_cons, List.map_nil, shown, htoken, hnext.mode, hnext.inDtd]
  | case2 x hend ih =>
    obtain ⟨htoken, hnext⟩ := h.step (s := s)
    rw [Lexer.run, dif_neg (by rw [htoken]; exact hend)]
    simp only [List.map_cons, shown, htoken, hnext.mode, hnext.inDtd, ih hnext]

/-! ## What starts content -/

/-- The kinds of token with which a lexer can start again: text, and all that opens markup in the
content of a document. -/
def contentStarts : List Token.Kind :=
  [.startTagOpen, .endTagOpen, .cdataOpen, .dtd .doctypeOpen, .commentOpen, .instructionOpen, .text]

/-- If what was read starts content outside of declarations, it was read as in the content of a
document. -/
def Resumes (s : String) (x : Lexer) (r : Lexed) : Prop :=
  r.kind ∈ contentStarts → r.lexer.inDtd = false →
    ∃ spaced, r = content s { pos := x.pos, mode := .content, spaced }

theorem resumes_emit {z : Lexer} {kind : Token.Kind} {pos : Nat} {mode : Mode}
    {fault : Option Token.Fault} (h : kind ∉ contentStarts) :
    Resumes s x (z.emit kind pos mode fault) := fun hk => absurd hk h

theorem resumes_of_inDtd {r : Lexed} (h : r.lexer.inDtd = true) : Resumes s x r := by
  intro _ hd
  rw [h] at hd
  cases hd

theorem resumes_content (hp : x.inProlog = false) (hs : x.inSubset = false) (hf : x.dtdFile = false) :
    Resumes s x (content s { x with mode := .content }) := by
  intro _ _
  refine ⟨x.spaced, ?_⟩
  rw [hp, hs, hf]

theorem resumes_dtdContent (hd : x.inDtd = true) (hp : x.inProlog = false) (hf : x.dtdFile = false) :
    Resumes s x (dtdContent s x) := by
  unfold dtdContent
  split
  · exact resumes_of_inDtd hd
  split
  · exact resumes_emit (by decide)
  split
  · rename_i r hr
    obtain ⟨o, -, rfl⟩ := firstOpener_eq_some hr
    exact resumes_of_inDtd hd
  split
  · exact resumes_content (x := { x with inSubset := false }) hp rfl hf
  · exact resumes_of_inDtd hd

theorem resumes_insideTag (hs : x.inSubset = false) (hf : x.dtdFile = false) :
    Resumes s x (insideTag s x) := by
  unfold insideTag
  split
  · exact resumes_emit (by decide)
  split
  · exact resumes_emit (by decide)
  split
  · exact resumes_emit (by decide)
  split
  · exact resumes_emit (by decide)
  split
  · exact resumes_emit (by decide)
  split
  · rw [betweenMarkup, if_neg (by simp [inDtd, hs, hf])]
    exact resumes_content (x := { x with inProlog := false }) rfl hs hf
  · exact resumes_emit (by decide)

theorem resumes_insideEndTag (hp : x.inProlog = false) (hs : x.inSubset = false)
    (hf : x.dtdFile = false) : Resumes s x (insideEndTag s x) := by
  unfold insideEndTag
  split
  · exact resumes_emit (by decide)
  split
  · exact resumes_emit (by decide)
  split
  · exact resumes_content hp hs hf
  · exact resumes_emit (by decide)

theorem resumes_startTag (hs : x.inSubset = false) (hf : x.dtdFile = false) :
    Resumes s x (startTag s x) := by
  unfold startTag
  split
  · exact resumes_emit (by decide)
  split
  · exact resumes_emit (by decide)
  · exact resumes_insideTag (x := { x with mode := .inTag, spaced := false }) hs hf

theorem resumes_endTag (hp : x.inProlog = false) (hs : x.inSubset = false) (hf : x.dtdFile = false) :
    Resumes s x (endTag s x) := by
  unfold endTag
  split
  · exact resumes_emit (by decide)
  split
  · exact resumes_emit (by decide)
  · exact resumes_insideEndTag (x := { x with mode := .inEndTag }) hp hs hf

theorem resumes_attributeAssign (hs : x.inSubset = false) (hf : x.dtdFile = false) :
    Resumes s x (attributeAssign s x) := by
  unfold attributeAssign
  split
  · exact resumes_emit (by decide)
  split
  · exact resumes_emit (by decide)
  · exact resumes_insideTag (x := { x with mode := x.tagMode }) hs hf

theorem resumes_attributeValue (hs : x.inSubset = false) (hf : x.dtdFile = false) :
    Resumes s x (attributeValue s x) := by
  unfold attributeValue
  split
  · exact resumes_emit (by decide)
  split
  · exact resumes_emit (by decide)
  dsimp only
  split
  · exact resumes_emit (by decide)
  · exact resumes_insideTag
      (x := { x with spaced := false, mode := tagMode { x with spaced := false } }) hs hf

theorem resumes_delimited {close : String} {inside closing : Token.Kind} {fault : Token.Fault}
    (hin : inside ∉ contentStarts) (hout : closing ∉ contentStarts) :
    Resumes s x (delimited close inside closing fault s x) := by
  unfold delimited
  split
  · exact resumes_emit hout
  · exact resumes_emit hin

theorem resumes_insideInstruction : Resumes s x (insideInstruction s x) := by
  unfold insideInstruction
  split
  · exact resumes_emit (by decide)
  · exact resumes_delimited (by decide) (by decide)

theorem resumes_instruction : Resumes s x (instruction s x) := by
  unfold instruction
  split
  · exact resumes_emit (by decide)
  split
  · exact resumes_emit (by decide)
  · exact resumes_insideInstruction (x := { x with mode := .inInstruction })

theorem resumes_getD_map {α : Type} {o : Option α} {f : α → Lexed} {r : Lexed}
    (hf : ∀ a, Resumes s x (f a)) (hr : Resumes s x r) : Resumes s x ((o.map f).getD r) := by
  cases o with
  | none => exact hr
  | some a => exact hf a

theorem inDtd_getD_map {α : Type} {o : Option α} {f : α → Lexed} {r : Lexed}
    (hf : ∀ a, (f a).lexer.inDtd = true) (hr : r.lexer.inDtd = true) :
    ((o.map f).getD r).lexer.inDtd = true := by
  cases o with
  | none => exact hr
  | some a => exact hf a

theorem inDtd_declarationParameter (stage : DeclarationStage) (h : x.inDtd = true) :
    (declarationParameter s x stage).lexer.inDtd = true := by
  cases stage with
  | elementStart | attlistStart | attributeName | notationStart | attributeType | attributeDefault
  | entityPublic | entityPublicId | entitySystem | notationPublic | notationPublicId
  | notationSystem => exact inDtd_getD_map (fun _ => h) h
  | elementDone | entityDone | notationDone => exact h
  | elementNamed =>
    simp only [declarationParameter]
    split
    · exact h
    · exact inDtd_getD_map (fun _ => h) (inDtd_getD_map (fun _ => h) h)
  | elementContent =>
    simp only [declarationParameter, elementContent]
    split <;> exact h
  | entityStart =>
    simp only [declarationParameter]
    split
    · exact h
    · exact inDtd_getD_map (fun _ => h) h
  | entityNamed =>
    exact inDtd_getD_map (fun _ => h) (inDtd_getD_map (fun _ => h) (inDtd_getD_map (fun _ => h) h))
  | notationNamed => exact inDtd_getD_map (fun _ => h) (inDtd_getD_map (fun _ => h) h)

theorem resumes_doctypeParameter (stage : DoctypeStage) :
    Resumes s x (doctypeParameter s x stage) := by
  have hjunk (stops : List UInt8) : Resumes s x (unrecognized stops s x) :=
    resumes_emit (by decide)
  cases stage with
  | start | publicKeyword | systemKeyword | publicId =>
    exact resumes_getD_map (fun _ => resumes_emit (by decide)) (hjunk _)
  | named =>
    simp only [doctypeParameter]
    split
    · exact resumes_emit (by decide)
    · exact resumes_getD_map (fun _ => resumes_emit (by decide)) (hjunk _)
  | ids | subset => exact hjunk _

theorem resumes_doctype {stage : DoctypeStage} (hp : x.inProlog = false) (hf : x.dtdFile = false) :
    Resumes s x (doctype s x stage) := by
  unfold doctype
  split
  · exact resumes_emit (by decide)
  split
  · exact resumes_emit (by decide)
  split
  · exact resumes_emit (by decide)
  split
  · exact resumes_content (x := { x with inSubset := false }) hp rfl hf
  · exact resumes_doctypeParameter stage

theorem resumes_declaration {stage : DeclarationStage} (hc : x.Consistent)
    (hmode : x.mode = .declaration stage) (hf : x.dtdFile = false) :
    Resumes s x (declaration s x stage) := by
  have hm := hc.mode
  rw [Agrees, hmode] at hm
  unfold declaration
  split
  · exact resumes_emit (by decide)
  split
  · exact resumes_emit (by decide)
  split
  · exact resumes_dtdContent (x := { x with mode := .dtdContent }) hm.2 hm.1 hf
  · exact resumes_of_inDtd (inDtd_declarationParameter stage hm.2)

theorem lex_resumes (hc : x.Consistent) (hf : x.dtdFile = false) : Resumes s x (lex s x) := by
  have hm := hc.mode
  unfold lex
  split
  · exact resumes_emit (by decide)
  split
  · rename_i hmode
    rw [Agrees, hmode] at hm
    have hcontent := resumes_content (s := s) hm.1 (inSubset_eq_false hm.2) hf
    rwa [← hmode] at hcontent
  · rename_i hmode
    rw [Agrees, hmode] at hm
    exact resumes_startTag (inSubset_eq_false hm.2) hf
  · rename_i hmode
    rw [Agrees, hmode] at hm
    exact resumes_endTag hm.1 (inSubset_eq_false hm.2) hf
  · rename_i hmode
    rw [Agrees, hmode] at hm
    exact resumes_insideTag (inSubset_eq_false hm.2) hf
  · rename_i hmode
    rw [Agrees, hmode] at hm
    exact resumes_insideTag hm.2 hf
  · rename_i hmode
    rw [Agrees, hmode] at hm
    exact resumes_insideEndTag hm.1 (inSubset_eq_false hm.2) hf
  · rename_i hmode
    rw [Agrees, hmode] at hm
    exact resumes_attributeAssign hm.1 hf
  · rename_i hmode
    rw [Agrees, hmode] at hm
    exact resumes_attributeValue hm.1 hf
  · exact resumes_delimited (by decide) (by decide)
  · exact resumes_delimited (by decide) (by decide)
  · exact resumes_instruction
  · exact resumes_insideInstruction
  · rename_i hmode
    rw [Agrees, hmode] at hm
    exact resumes_dtdContent hm.2 hm.1 hf
  · rename_i hmode
    rw [Agrees, hmode] at hm
    exact resumes_doctype hm.1 hf
  · exact resumes_declaration hc ‹_› hf

/-! ## Starting again -/

theorem run_of_ne (h : (x.step s).1.kind ≠ .eos) : x.run s = x.step s :: (x.step s).2.run s := by
  rw [run, dif_neg h]

theorem run_of_eq (h : (x.step s).1.kind = .eos) : x.run s = [x.step s] := by
  rw [run, dif_pos h]

theorem run_eq_of_step_eq (h : y.step s = x.step s) : y.run s = x.run s := by
  by_cases hend : (x.step s).1.kind = .eos
  · rw [run_of_eq hend, run_of_eq (h ▸ hend), h]
  · rw [run_of_ne hend, run_of_ne (h ▸ hend), h]

theorem step_of_kind (h : (x.step s).1.kind ≠ .eos) : x.pos < Text.size s := by
  refine Nat.lt_of_not_le fun hle => h ?_
  rw [step_at_end hle]

theorem inDtd_of_starts {pos : Nat} {spaced : Bool} {kind : Token.Kind} (hc : x.Consistent)
    (hd : x.inDtd = false) (hk : kind ∈ contentStarts) (h : Reads x pos spaced kind y) :
    y.inDtd = false := by
  cases h with
  | content hy =>
    have hf := hc.dtdFile_of_yieldsToContent hy
    simp [inDtd, hf]
  | declaration hy =>
    have := hc.inDtd_of_yieldsToDeclaration hy
    rw [hd] at this
    cases this
  | blank => exact hd
  | doctypeParameter _ hp =>
    have hdtd : ∀ k ∈ doctypeParameters, Token.Kind.dtd k ∉ contentStarts := by decide
    exact absurd hk (hdtd _ hp)
  | declarationParameter => exact hd
  | _ => exact absurd hk (by decide)

theorem restart_eq (hx : x.pos ≤ Text.size s) :
    restart s x.pos .content = { pos := x.pos, mode := .content } := by
  rw [restart, Nat.min_eq_left hx]
  rfl

/-- The token at `x` is the first one of a lexer that starts there again, and the others follow. -/
theorem run_restart (hx : Text.isBoundary s x.pos = true) (hc : x.Consistent)
    (hf : x.dtdFile = false) (hk : (x.step s).1.kind ∈ contentStarts)
    (hd : x.inDtd = false ∨ (x.step s).2.inDtd = false) :
    ((restart s (x.step s).1.start .content).run s).map shown = (x.run s).map shown := by
  have hlt : x.pos < Text.size s := step_of_kind fun he => by rw [he] at hk; revert hk; decide
  rw [step_eq_lex hx hlt] at hk hd ⊢
  -- the step at `x` is a step in the content of a document
  have hout : (lex s x).lexer.inDtd = false := by
    rcases hd with hd | hd
    · obtain ⟨z, spaced, hz, hreads⟩ := lex_turns hc hlt
      rcases hz with rfl | hfalls
      · exact inDtd_of_starts hc hd hk hreads
      · refine inDtd_of_starts (hc.of_falls hfalls) ?_ hk hreads
        cases hfalls <;> exact hd
    · exact hd
  obtain ⟨spaced, hcontent⟩ := lex_resumes hc hf hk hout
  have hstep : Lexer.step s { pos := x.pos, mode := .content, spaced } = x.step s := by
    have hlex : lex s { pos := x.pos, mode := .content, spaced } = lex s x := by
      rw [hcontent, lex, if_neg (Nat.not_le_of_lt hlt)]
    simp only [Lexer.step, hlex]
  have halike : Alike { pos := x.pos, mode := .content, spaced } (restart s x.pos .content) := by
    rw [restart_eq (Nat.le_of_lt hlt)]
    exact alike_spaced false rfl
  rw [halike.run, run_eq_of_step_eq hstep]

theorem dtdFile_step (hx : Text.isBoundary s x.pos = true) (hlt : x.pos < Text.size s)
    (hc : x.Consistent) : (x.step s).2.Consistent ∧ (x.step s).2.dtdFile = x.dtdFile := by
  have hmoves := moves_lex hx hlt
  obtain ⟨z, spaced, hz, hreads⟩ := lex_turns hc hlt
  rw [step_eq_lex hx hlt]
  rcases hz with rfl | hfalls
  · exact ⟨hc.of_reads hmoves.ahead.1 hreads, hreads.dtdFile_eq⟩
  · have hpos := hfalls.pos_eq
    exact ⟨(hc.of_falls hfalls).of_reads (hpos ▸ hmoves.ahead.1) hreads,
      hreads.dtdFile_eq.trans hfalls.dtdFile_eq⟩

theorem restart_of_run {n : Nat} {t : Token} (hx : Text.isBoundary s x.pos = true)
    (hc : x.Consistent) (hf : x.dtdFile = false) (ht : (x.run s)[n]? = some (t, y))
    (hk : t.kind ∈ contentStarts) (hd : (x.after s n).inDtd = false ∨ y.inDtd = false) :
    ((restart s t.start .content).run s).map shown = ((x.run s).drop n).map shown := by
  induction n generalizing x with
  | zero =>
    have hstep : x.step s = (t, y) := by
      rw [run] at ht
      split at ht <;> exact Option.some.inj ht
    have h := run_restart hx hc hf (by rw [hstep]; exact hk) (by rw [hstep]; exact hd)
    rwa [hstep] at h
  | succ n ih =>
    by_cases hend : (x.step s).1.kind = .eos
    · rw [run_of_eq hend] at ht
      cases ht
    · rw [run_of_ne hend] at ht ⊢
      rw [List.drop_succ_cons]
      have hlt := step_of_kind hend
      obtain ⟨hc', hf'⟩ := dtdFile_step hx hlt hc
      have hnext : Text.isBoundary s (x.step s).2.pos = true := by
        rw [step_eq_lex hx hlt]
        exact (moves_lex hx hlt).ahead.2
      exact ih hnext hc' (hf'.trans hf) ht hd

/-- **Starting again at a piece of content.** Let `t` be the token number `n` of a document, of a
kind that starts content and read outside of declarations. A lexer that starts where `t` does, in
the content of a document, reads `t` and all tokens behind it, with the same modes in between. -/
theorem restart_reads_rest (s : String) (n : Nat) (t : Token) (y : Lexer)
    (ht : (document.run s)[n]? = some (t, y)) (hk : t.kind ∈ contentStarts)
    (hd : (document.after s n).inDtd = false ∨ y.inDtd = false) :
    ((restart s t.start .content).run s).map shown = ((document.run s).drop n).map shown :=
  restart_of_run (Text.isBoundary_zero s) ⟨nofun, nofun, rfl, rfl⟩ rfl ht hk hd

/-- In `<a b <c` the second tag starts while white space has been read in the first one. -/
theorem restart_reads_rest_second_tag :
    (document.run "<a b <c")[5]? =
        some (⟨.startTagOpen, 5, 6, none⟩, { pos := 6, mode := .afterStartTagOpen, spaced := true }) ∧
      ((restart "<a b <c" 5 .content).run "<a b <c").map shown =
        ((document.run "<a b <c").drop 5).map shown := by
  have ht : (document.run "<a b <c")[5]? =
      some (⟨.startTagOpen, 5, 6, none⟩, { pos := 6, mode := .afterStartTagOpen, spaced := true }) := by
    decide +kernel
  exact ⟨ht, restart_reads_rest "<a b <c" 5 _ _ ht (by decide) (.inr rfl)⟩

end XmlAssist.Lexer
