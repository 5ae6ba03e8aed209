import XmlAssist.Proofs.Lexer.Progress

/-!
# The order of tokens

Which tokens a mode can read, and the mode behind each of them: `Reads` says once what a step of the
lexer can do, so that an argument about a run of tokens needs neither the bytes of the text nor the
functions of the lexer. A mode whose construct breaks off goes over to another one without reading
anything (`Falls`). In every scan of a whole text the marks of the lexer agree with its mode
(`Consistent`): declarations stand only in a file of declarations or between the brackets of a
document type, and attributes belong to a tag or to the XML declaration at the start of the text.
-/

namespace XmlAssist.Lexer

open Text (isBoundary byte? size)

def moved (x : Lexer) (pos : Nat) (spaced : Bool) (mode : Mode) : Lexer := { x with pos, spaced, mode }

section moved
variable (x : Lexer) (pos : Nat) (spaced : Bool) (mode : Mode)

@[simp] theorem moved_pos : (x.moved pos spaced mode).pos = pos := rfl
@[simp] theorem moved_mode : (x.moved pos spaced mode).mode = mode := rfl
@[simp] theorem moved_inProlog : (x.moved pos spaced mode).inProlog = x.inProlog := rfl
@[simp] theorem moved_inSubset : (x.moved pos spaced mode).inSubset = x.inSubset := rfl
@[simp] theorem moved_dtdFile : (x.moved pos spaced mode).dtdFile = x.dtdFile := rfl
@[simp] theorem moved_inDtd : (x.moved pos spaced mode).inDtd = x.inDtd := rfl

end moved

/-- What the mode says about the marks. -/
def Agrees (x : Lexer) : Prop :=
  match x.mode with
  | .content | .afterStartTagOpen | .afterEndTagOpen | .inTag | .inEndTag | .inCData =>
    x.inProlog = false ∧ x.inDtd = false
  | .doctype _ => x.inProlog = false ∧ x.inDtd = false ∧ 2 < x.pos
  | .inComment | .afterInstructionOpen | .inInstruction => x.inProlog = false
  | .inProlog => x.inProlog = true ∧ x.inSubset = false
  | .afterAttributeName | .beforeAttributeValue =>
    x.inSubset = false ∧ (x.inProlog = false → x.dtdFile = false)
  | .dtdContent | .declaration _ => x.inProlog = false ∧ x.inDtd = true

/-- The marks agree with the mode and with each other. -/
structure Consistent (x : Lexer) : Prop where
  file : x.dtdFile = true → x.inSubset = false
  subset : x.inSubset = true → 2 < x.pos
  mode : x.Agrees

/-- The kind and the mode of what can start in the content of a document. -/
def StartsContent (kind : Token.Kind) (mode : Mode) : Prop :=
  (kind = .text ∧ mode = .content) ∨ (kind, mode) ∈ contentOpeners.map (·.2)

/-- The kind and the mode of what can start between declarations. -/
def StartsDeclaration (kind : Token.Kind) (mode : Mode) : Prop :=
  (kind = .text ∧ mode = .dtdContent) ∨ (kind, mode) ∈ dtdOpeners.map (·.2)

def doctypeParameters : List Token.DtdKind :=
  [.doctypeName, .doctypePublic, .doctypeSystem, .doctypePublicId, .doctypeSystemId, .unrecognized]

def declarationParameters : List Token.DtdKind :=
  [.elementName, .elementCategory, .contentOpen, .contentBody, .contentClose, .attlistElement,
    .attributeName, .attributeType, .attributeDefault, .entityPercent, .entityName, .entityValue,
    .entityPublic, .entitySystem, .entityPublicId, .entitySystemId, .notationName, .notationPublic,
    .notationSystem, .notationPublicId, .notationSystemId, .unrecognized]

/-- Content of a document can start in the place of what is read at `x`. -/
def YieldsToContent (x : Lexer) : Prop :=
  match x.mode with
  | .content | .inTag | .inEndTag | .doctype _ => True
  | .inProlog => x.dtdFile = false
  | .dtdContent | .declaration _ => x.inSubset = true
  | _ => False

/-- Declarations can start in the place of what is read at `x`. -/
def YieldsToDeclaration (x : Lexer) : Prop :=
  match x.mode with
  | .dtdContent | .declaration _ => True
  | .inProlog => x.dtdFile = true
  | _ => False

/-- White space is a token of its own at `x`. -/
def ReadsBlank (x : Lexer) : Prop :=
  match x.mode with
  | .content | .inComment | .inCData | .afterInstructionOpen => False
  | _ => True

/-- A token that can be read at `x`, and the lexer behind it. -/
inductive Reads (x : Lexer) (pos : Nat) (spaced : Bool) : Token.Kind → Lexer → Prop where
  | blank : x.ReadsBlank → Reads x pos spaced .blank (x.moved pos spaced x.mode)
  | content {kind mode} : x.YieldsToContent → StartsContent kind mode →
      (kind = .dtd .doctypeOpen → 2 < pos) →
      Reads x pos spaced kind ({ x with inProlog := false, inSubset := false }.moved pos spaced mode)
  | declaration {kind mode} : x.YieldsToDeclaration → StartsDeclaration kind mode →
      Reads x pos spaced kind ({ x with inProlog := false }.moved pos spaced mode)
  | startTagName : x.mode = .afterStartTagOpen →
      Reads x pos spaced .startTagName (x.moved pos spaced .inTag)
  | startTagClose : x.mode = .inTag →
      Reads x pos spaced .startTagClose (x.moved pos spaced .content)
  | startTagSelfClose : x.mode = .inTag →
      Reads x pos spaced .startTagSelfClose (x.moved pos spaced .content)
  | endTagName : x.mode = .afterEndTagOpen →
      Reads x pos spaced .endTagName (x.moved pos spaced .inEndTag)
  | endTagClose : x.mode = .inEndTag →
      Reads x pos spaced .endTagClose (x.moved pos spaced .content)
  | unknown : x.mode = .inTag ∨ x.mode = .inProlog ∨ x.mode = .inEndTag →
      Reads x pos spaced .unknown (x.moved pos spaced x.mode)
  | attributeName : x.mode = .inTag ∨ x.mode = .inProlog →
      Reads x pos spaced .attributeName (x.moved pos spaced .afterAttributeName)
  | assign : x.mode = .afterAttributeName →
      Reads x pos spaced .assign (x.moved pos spaced .beforeAttributeValue)
  | attributeValue : x.mode = .beforeAttributeValue →
      Reads x pos spaced .attributeValue (x.moved pos spaced x.tagMode)
  | commentText : x.mode = .inComment →
      Reads x pos spaced .commentText (x.moved pos spaced .inComment)
  | commentClose : x.mode = .inComment →
      Reads x pos spaced .commentClose (x.moved pos spaced x.contentMode)
  | cdataText : x.mode = .inCData → Reads x pos spaced .cdataText (x.moved pos spaced .inCData)
  | cdataClose : x.mode = .inCData →
      Reads x pos spaced .cdataClose (x.moved pos spaced x.contentMode)
  | prologName : x.mode = .afterInstructionOpen → x.pos = 2 →
      Reads x pos spaced .prologName ({ x with inProlog := true }.moved pos spaced .inProlog)
  | prologClose : x.mode = .inProlog →
      Reads x pos spaced .prologClose ({ x with inProlog := false }.moved pos spaced x.contentMode)
  | instructionTarget : x.mode = .afterInstructionOpen →
      Reads x pos spaced .instructionTarget (x.moved pos spaced .inInstruction)
  | instructionContent : x.mode = .inInstruction →
      Reads x pos spaced .instructionContent (x.moved pos spaced .inInstruction)
  | instructionClose : x.mode = .inInstruction →
      Reads x pos spaced .instructionClose (x.moved pos spaced x.contentMode)
  | subsetOpen {stage} : x.mode = .doctype stage →
      Reads x pos spaced (.dtd .subsetOpen) ({ x with inSubset := true }.moved pos spaced .dtdContent)
  | subsetClose : x.YieldsToDeclaration → x.inSubset = true →
      Reads x pos spaced (.dtd .subsetClose)
        ({ x with inProlog := false, inSubset := false }.moved pos spaced (.doctype .subset))
  | doctypeClose {stage} : x.mode = .doctype stage →
      Reads x pos spaced (.dtd .doctypeClose) ({ x with inSubset := false }.moved pos spaced .content)
  | doctypeParameter {stage next kind} : x.mode = .doctype stage → kind ∈ doctypeParameters →
      Reads x pos spaced (.dtd kind) (x.moved pos spaced (.doctype next))
  | declarationClose {stage} : x.mode = .declaration stage →
      Reads x pos spaced (.dtd .declarationClose) (x.moved pos spaced .dtdContent)
  | declarationParameter {stage next kind} : x.mode = .declaration stage →
      kind ∈ declarationParameters →
      Reads x pos spaced (.dtd kind) (x.moved pos spaced (.declaration next))

/-- The construct at `x` breaks off, and the lexer goes on in another mode at the same place. -/
inductive Falls (x : Lexer) (spaced : Bool) : Lexer → Prop where
  | startTag : x.mode = .afterStartTagOpen → Falls x spaced (x.moved x.pos spaced .inTag)
  | endTag : x.mode = .afterEndTagOpen → Falls x spaced (x.moved x.pos spaced .inEndTag)
  | backInTag : x.mode = .afterAttributeName ∨ x.mode = .beforeAttributeValue →
      Falls x spaced (x.moved x.pos spaced x.tagMode)
  | instruction : x.mode = .afterInstructionOpen →
      Falls x spaced (x.moved x.pos spaced .inInstruction)

theorem Reads.dtdFile_eq {x y : Lexer} {pos : Nat} {spaced : Bool} {kind : Token.Kind}
    (h : Reads x pos spaced kind y) : y.dtdFile = x.dtdFile := by
  cases h <;> rfl

theorem Falls.dtdFile_eq {x y : Lexer} {spaced : Bool} (h : Falls x spaced y) :
    y.dtdFile = x.dtdFile := by
  cases h <;> rfl

theorem Falls.pos_eq {x y : Lexer} {spaced : Bool} (h : Falls x spaced y) : y.pos = x.pos := by
  cases h <;> rfl

/-! ## What the modes read -/

variable {s : String} {x : Lexer}

/-- What was read can be read at `x`. -/
def Gives (x : Lexer) (r : Lexed) : Prop := Reads x r.lexer.pos r.lexer.spaced r.kind r.lexer

theorem firstOpener_eq_some {openers : List (String × Token.Kind × Mode)} {r : Lexed}
    (h : firstOpener s x openers = some r) :
    ∃ o ∈ openers, r = x.emit o.2.1 (x.pos + size o.1) o.2.2 := by
  induction openers with
  | nil => cases h
  | cons o openers ih =>
    obtain ⟨lit, kind, mode⟩ := o
    simp only [firstOpener, literal?] at h
    split at h
    · rename_i pos hpos
      obtain rfl := Option.some.inj h
      split at hpos
      · exact ⟨_, List.mem_cons_self, by rw [← Option.some.inj hpos]⟩
      · cases hpos
    · obtain ⟨o, ho, hr⟩ := ih h
      exact ⟨o, List.mem_cons_of_mem _ ho, hr⟩

theorem gives_content (h : x.YieldsToContent) :
    x.Gives (content s { x with inProlog := false, inSubset := false, mode := .content }) := by
  unfold content
  split
  · rename_i r hr
    obtain ⟨o, ho, rfl⟩ := firstOpener_eq_some hr
    refine Reads.content h (.inr (List.mem_map_of_mem ho)) fun hkind => ?_
    -- the only opener of a document type is longer than two bytes
    have hsize : ∀ o ∈ contentOpeners, o.2.1 = .dtd .doctypeOpen → 2 < size o.1 := by decide
    exact Nat.lt_add_left _ (hsize o ho hkind)
  · exact Reads.content h (.inl ⟨rfl, rfl⟩) (by intro h; cases h)

theorem eq_of_content (hmode : x.mode = .content) (hp : x.inProlog = false)
    (hs : x.inSubset = false) :
    x = { x with inProlog := false, inSubset := false, mode := .content } := by
  obtain ⟨pos, mode, spaced, inProlog, inSubset, dtdFile⟩ := x
  dsimp only at hmode hp hs
  rw [hmode, hp, hs]

theorem gives_content_of_eq {y : Lexer} (h : x.YieldsToContent)
    (hy : y = { x with inProlog := false, inSubset := false, mode := .content }) :
    x.Gives (content s y) := hy ▸ gives_content h

theorem gives_dtdContent (h : x.YieldsToDeclaration) (hc : x.inSubset = true → x.YieldsToContent)
    (hspace : space? s x.pos = none) :
    x.Gives (dtdContent s { x with inProlog := false, mode := .dtdContent }) := by
  unfold dtdContent
  rw [hspace]
  dsimp only
  split
  · rename_i hclose
    simp only [Bool.and_eq_true] at hclose
    exact Reads.subsetClose h hclose.1
  split
  · rename_i r hr
    obtain ⟨o, ho, rfl⟩ := firstOpener_eq_some hr
    exact Reads.declaration h (.inr (List.mem_map_of_mem ho))
  split
  · rename_i htag
    simp only [Bool.and_eq_true] at htag
    exact gives_content (hc htag.1)
  · exact Reads.declaration h (.inl ⟨rfl, rfl⟩)

theorem inSubset_eq_false (h : x.inDtd = false) : x.inSubset = false := by
  simp only [inDtd, Bool.or_eq_false_iff] at h
  exact h.2

theorem dtdFile_eq_false (h : x.inDtd = false) : x.dtdFile = false := by
  simp only [inDtd, Bool.or_eq_false_iff] at h
  exact h.1

theorem Consistent.mode_of_inProlog (hc : x.Consistent) (h : x.mode = .inTag ∨ x.mode = .inProlog) :
    x.mode = x.tagMode := by
  have hmode := hc.mode
  rcases h with h | h <;> rw [Agrees, h] at hmode <;> simp [h, tagMode, hmode.1]

theorem gives_betweenMarkup (hc : x.Consistent) (hmode : x.mode = .inTag ∨ x.mode = .inProlog)
    (hspace : space? s x.pos = none) : x.Gives (betweenMarkup s { x with inProlog := false }) := by
  have hm := hc.mode
  have hsubset : x.inSubset = false := by
    rcases hmode with h | h <;> rw [Agrees, h] at hm
    · exact inSubset_eq_false hm.2
    · exact hm.2
  unfold betweenMarkup
  split
  · rename_i hdtd
    have hfile : x.dtdFile = true := by simpa [inDtd, hsubset] using hdtd
    have hprolog : x.mode = .inProlog := by
      rcases hmode with h | h
      · rw [Agrees, h] at hm
        simp [dtdFile_eq_false hm.2] at hfile
      · exact h
    refine gives_dtdContent (by simp [YieldsToDeclaration, hprolog, hfile]) ?_ hspace
    simp [hsubset]
  · rename_i hdtd
    have hfile : x.dtdFile = false := by
      simp only [inDtd, Bool.or_eq_true, not_or, Bool.not_eq_true] at hdtd
      exact hdtd.1
    refine gives_content_of_eq ?_ (by simp [hsubset])
    rcases hmode with h | h <;> simp [YieldsToContent, h, hfile]

theorem gives_insideTag (hc : x.Consistent) (hmode : x.mode = .inTag ∨ x.mode = .inProlog) :
    x.Gives (insideTag s x) := by
  have htag := hc.mode_of_inProlog hmode
  unfold insideTag
  split
  · exact Reads.blank (by rcases hmode with h | h <;> simp [ReadsBlank, h])
  rename_i hspace
  split
  · rename_i pos hpos
    split at hpos
    · rename_i hprolog
      exact Reads.prologClose (by rw [htag, tagMode, if_pos hprolog])
    · cases hpos
  split
  · exact Reads.attributeName hmode
  split
  · rename_i pos hpos
    split at hpos
    · cases hpos
    · rename_i hprolog
      exact Reads.startTagSelfClose (by rw [htag, tagMode, if_neg hprolog])
  split
  · rename_i hclose
    simp only [Bool.and_eq_true, Bool.not_eq_true'] at hclose
    exact Reads.startTagClose (by rw [htag, tagMode, if_neg (by simp [hclose.1])])
  split
  · exact gives_betweenMarkup hc hmode hspace
  · exact Reads.unknown (by rcases hmode with h | h <;> simp [h])

theorem gives_insideEndTag (hc : x.Consistent) (hmode : x.mode = .inEndTag) :
    x.Gives (insideEndTag s x) := by
  have hm := hc.mode
  rw [Agrees, hmode] at hm
  unfold insideEndTag
  split
  · exact Reads.blank (by simp [ReadsBlank, hmode])
  split
  · exact Reads.endTagClose hmode
  split
  · exact gives_content_of_eq (by simp [YieldsToContent, hmode])
      (by simp [hm.1, inSubset_eq_false hm.2])
  · exact Reads.unknown (.inr (.inr hmode))

theorem gives_delimited {close : String} {inside closing : Token.Kind} {fault : Token.Fault}
    (hin : ∀ pos spaced, Reads x pos spaced inside (x.moved pos spaced x.mode))
    (hout : ∀ pos spaced, Reads x pos spaced closing (x.moved pos spaced x.contentMode)) :
    x.Gives (delimited close inside closing fault s x) := by
  unfold delimited
  split
  · exact hout _ _
  · exact hin _ _

theorem gives_insideInstruction (hmode : x.mode = .inInstruction) :
    x.Gives (insideInstruction s x) := by
  unfold insideInstruction
  split
  · exact Reads.blank (by simp [ReadsBlank, hmode])
  · refine gives_delimited (fun _ _ => ?_) fun _ _ => Reads.instructionClose hmode
    rw [hmode]
    exact Reads.instructionContent hmode

theorem gives_getD_map {α : Type} {o : Option α} {f : α → Lexed} {r : Lexed}
    (hf : ∀ a, x.Gives (f a)) (hr : x.Gives r) : x.Gives ((o.map f).getD r) := by
  cases o with
  | none => exact hr
  | some a => exact hf a

theorem gives_doctypeParameter {stage : DoctypeStage} (hmode : x.mode = .doctype stage) :
    x.Gives (doctypeParameter s x stage) := by
  have hemit {kind next pos fault} (hk : kind ∈ doctypeParameters) :
      x.Gives (x.emit (.dtd kind) pos (.doctype next) fault) := Reads.doctypeParameter hmode hk
  have hjunk (stops : List UInt8) : x.Gives (unrecognized stops s x) := by
    rw [unrecognized, hmode]
    exact hemit (by decide)
  cases stage with
  | start => exact gives_getD_map (fun _ => hemit (by decide)) (hjunk _)
  | named =>
    simp only [doctypeParameter]
    split
    · exact hemit (by decide)
    · exact gives_getD_map (fun _ => hemit (by decide)) (hjunk _)
  | publicKeyword | systemKeyword | publicId =>
    exact gives_getD_map (fun _ => hemit (by decide)) (hjunk _)
  | ids | subset => exact hjunk _

theorem gives_doctype {stage : DoctypeStage} (hc : x.Consistent) (hmode : x.mode = .doctype stage) :
    x.Gives (doctype s x stage) := by
  have hm := hc.mode
  rw [Agrees, hmode] at hm
  unfold doctype
  split
  · exact Reads.blank (by simp [ReadsBlank, hmode])
  split
  · exact Reads.subsetOpen hmode
  split
  · exact Reads.doctypeClose hmode
  split
  · exact gives_content_of_eq (by simp [YieldsToContent, hmode]) (by simp [hm.1])
  · exact gives_doctypeParameter hmode

theorem gives_declarationParameter {stage : DeclarationStage} (hmode : x.mode = .declaration stage) :
    x.Gives (declarationParameter s x stage) := by
  have hemit {kind next pos fault} (hk : kind ∈ declarationParameters) :
      x.Gives (x.emit (.dtd kind) pos (.declaration next) fault) :=
    Reads.declarationParameter hmode hk
  have hjunk (stops : List UInt8) : x.Gives (unrecognized stops s x) := by
    rw [unrecognized, hmode]
    exact hemit (by decide)
  cases stage with
  | elementStart | attlistStart | attributeName | notationStart | attributeType | attributeDefault
  | entityPublic | entityPublicId | entitySystem | notationPublic | notationPublicId
  | notationSystem => exact gives_getD_map (fun _ => hemit (by decide)) (hjunk _)
  | elementDone | entityDone | notationDone => exact hjunk _
  | elementNamed =>
    simp only [declarationParameter]
    split
    · exact hemit (by decide)
    · exact gives_getD_map (fun _ => hemit (by decide))
        (gives_getD_map (fun _ => hemit (by decide)) (hjunk _))
  | elementContent =>
    simp only [declarationParameter, elementContent]
    split
    · exact hemit (by decide)
    · rw [hmode]
      exact hemit (by decide)
  | entityStart =>
    simp only [declarationParameter]
    split
    · rw [hmode]
      exact hemit (by decide)
    · exact gives_getD_map (fun _ => hemit (by decide)) (hjunk _)
  | entityNamed =>
    exact gives_getD_map (fun _ => hemit (by decide))
      (gives_getD_map (fun _ => hemit (by decide))
        (gives_getD_map (fun _ => hemit (by decide)) (hjunk _)))
  | notationNamed =>
    exact gives_getD_map (fun _ => hemit (by decide))
      (gives_getD_map (fun _ => hemit (by decide)) (hjunk _))

theorem gives_declaration {stage : DeclarationStage} (hc : x.Consistent)
    (hmode : x.mode = .declaration stage) : x.Gives (declaration s x stage) := by
  have hm := hc.mode
  rw [Agrees, hmode] at hm
  unfold declaration
  split
  · exact Reads.blank (by simp [ReadsBlank, hmode])
  rename_i hspace
  split
  · exact Reads.declarationClose hmode
  split
  · have h := gives_dtdContent (x := x) (by simp [YieldsToDeclaration, hmode])
      (fun h => by simp [YieldsToContent, hmode, h]) hspace
    rwa [← hm.1] at h
  · exact gives_declarationParameter hmode

theorem gives_dtdContent_of_mode (hc : x.Consistent) (hmode : x.mode = .dtdContent) :
    x.Gives (dtdContent s x) := by
  have hm := hc.mode
  rw [Agrees, hmode] at hm
  cases hspace : space? s x.pos with
  | some pos =>
    rw [dtdContent, hspace]
    exact Reads.blank (by simp [ReadsBlank, hmode])
  | none =>
    have h := gives_dtdContent (x := x) (by simp [YieldsToDeclaration, hmode])
      (fun h => by simp [YieldsToContent, hmode, h]) hspace
    rwa [← hm.1, ← hmode] at h

/-! ## A step -/

theorem Consistent.of_falls {y : Lexer} {spaced : Bool} (hc : x.Consistent) (h : Falls x spaced y) :
    y.Consistent := by
  have hm := hc.mode
  cases h with
  | startTag h | endTag h | instruction h =>
    rw [Agrees, h] at hm
    exact ⟨hc.file, hc.subset, hm⟩
  | backInTag h =>
    refine ⟨hc.file, hc.subset, ?_⟩
    have hm : x.inSubset = false ∧ (x.inProlog = false → x.dtdFile = false) := by
      rcases h with h | h <;> simpa [Agrees, h] using hm
    cases hp : x.inProlog with
    | true => simp [Agrees, tagMode, hp, hm.1]
    | false => simp [Agrees, tagMode, hp, hm.1, hm.2 hp, inDtd]

/-- What was read can be read at `x`, or in the mode that the lexer goes over to at `x`. -/
def Turns (x : Lexer) (r : Lexed) : Prop := ∃ y spaced, (y = x ∨ Falls x spaced y) ∧ y.Gives r

theorem Gives.turns {r : Lexed} (h : x.Gives r) : x.Turns r := ⟨x, false, .inl rfl, h⟩

theorem Falls.turns {y : Lexer} {spaced : Bool} {r : Lexed} (hy : Falls x spaced y) (h : y.Gives r) :
    x.Turns r := ⟨y, spaced, .inr hy, h⟩

theorem turns_startTag (hc : x.Consistent) (hmode : x.mode = .afterStartTagOpen) :
    x.Turns (startTag s x) := by
  unfold startTag
  split
  · exact Gives.turns (Reads.startTagName hmode)
  split
  · exact Gives.turns (Reads.blank (by simp [ReadsBlank, hmode]))
  · have hfall : Falls x false _ := .startTag hmode
    exact hfall.turns (gives_insideTag (hc.of_falls hfall) (.inl rfl))

theorem turns_endTag (hc : x.Consistent) (hmode : x.mode = .afterEndTagOpen) :
    x.Turns (endTag s x) := by
  unfold endTag
  split
  · exact Gives.turns (Reads.endTagName hmode)
  split
  · exact Gives.turns (Reads.blank (by simp [ReadsBlank, hmode]))
  · have hfall : Falls x x.spaced _ := .endTag hmode
    exact hfall.turns (gives_insideEndTag (hc.of_falls hfall) rfl)

theorem turns_backInTag (hc : x.Consistent) (spaced : Bool)
    (hmode : x.mode = .afterAttributeName ∨ x.mode = .beforeAttributeValue) :
    x.Turns (backInTag s { x with spaced }) := by
  have hfall : Falls x spaced _ := .backInTag hmode
  refine hfall.turns (gives_insideTag (hc.of_falls hfall) ?_)
  simp only [moved_mode, tagMode]
  split
  · exact .inr rfl
  · exact .inl rfl

theorem turns_attributeAssign (hc : x.Consistent) (hmode : x.mode = .afterAttributeName) :
    x.Turns (attributeAssign s x) := by
  unfold attributeAssign
  split
  · exact Gives.turns (Reads.blank (by simp [ReadsBlank, hmode]))
  split
  · exact Gives.turns (Reads.assign hmode)
  · exact turns_backInTag hc x.spaced (.inl hmode)

theorem turns_attributeValue (hc : x.Consistent) (hmode : x.mode = .beforeAttributeValue) :
    x.Turns (attributeValue s x) := by
  unfold attributeValue
  split
  · exact Gives.turns (Reads.blank (by simp [ReadsBlank, hmode]))
  split
  · exact Gives.turns (Reads.attributeValue hmode)
  dsimp only
  split
  · exact Gives.turns (Reads.attributeValue hmode)
  · exact turns_backInTag hc false (.inr hmode)

theorem turns_instruction (hmode : x.mode = .afterInstructionOpen) : x.Turns (instruction s x) := by
  unfold instruction
  split
  · rename_i hxml
    simp only [Bool.and_eq_true, beq_iff_eq] at hxml
    exact Gives.turns (Reads.prologName hmode hxml.1)
  split
  · exact Gives.turns (Reads.instructionTarget hmode)
  · exact (Falls.instruction hmode).turns (gives_insideInstruction rfl)

/-- What the lexer reads, after it has gone over to another mode if it does, is one of the tokens
that can be read there. -/
theorem lex_turns (hc : x.Consistent) (hlt : x.pos < size s) : x.Turns (lex s x) := by
  rw [lex, if_neg (Nat.not_le_of_lt hlt)]
  have hm := hc.mode
  split
  · rename_i h
    rw [Agrees, h] at hm
    refine (gives_content_of_eq (by simp [YieldsToContent, h]) ?_).turns
    exact eq_of_content h hm.1 (inSubset_eq_false hm.2)
  · exact turns_startTag hc ‹_›
  · exact turns_endTag hc ‹_›
  · exact (gives_insideTag hc (.inl ‹_›)).turns
  · exact (gives_insideTag hc (.inr ‹_›)).turns
  · exact (gives_insideEndTag hc ‹_›).turns
  · exact turns_attributeAssign hc ‹_›
  · exact turns_attributeValue hc ‹_›
  · rename_i h
    refine (gives_delimited (fun _ _ => ?_) fun _ _ => Reads.commentClose h).turns
    rw [h]
    exact Reads.commentText h
  · rename_i h
    refine (gives_delimited (fun _ _ => ?_) fun _ _ => Reads.cdataClose h).turns
    rw [h]
    exact Reads.cdataText h
  · exact turns_instruction ‹_›
  · exact (gives_insideInstruction ‹_›).turns
  · exact (gives_dtdContent_of_mode hc ‹_›).turns
  · exact (gives_doctype hc ‹_›).turns
  · exact (gives_declaration hc ‹_›).turns

theorem Consistent.of_moved {pos : Nat} {spaced : Bool} {mode : Mode} (hc : x.Consistent)
    (hpos : x.pos < pos) (h : (x.moved pos spaced mode).Agrees) :
    (x.moved pos spaced mode).Consistent :=
  ⟨hc.file, fun hs => Nat.lt_trans (hc.subset hs) hpos, h⟩

theorem Agrees.moved_mode {pos : Nat} {spaced : Bool} (h : x.Agrees) (hpos : x.pos < pos) :
    (x.moved pos spaced x.mode).Agrees := by
  cases hmode : x.mode with
  | doctype stage =>
    rw [Agrees, hmode] at h
    exact ⟨h.1, h.2.1, Nat.lt_trans h.2.2 hpos⟩
  | _ =>
    rw [Agrees, hmode] at h
    exact h

theorem agrees_contentMode {pos : Nat} {spaced : Bool} (h : x.inProlog = false) :
    (x.moved pos spaced x.contentMode).Agrees := by
  unfold contentMode
  split
  · rename_i hdtd
    exact ⟨h, hdtd⟩
  · rename_i hdtd
    exact ⟨h, Bool.eq_false_iff.mpr hdtd⟩

theorem agrees_tagMode {pos : Nat} {spaced : Bool} (hs : x.inSubset = false)
    (hf : x.inProlog = false → x.dtdFile = false) : (x.moved pos spaced x.tagMode).Agrees := by
  cases hp : x.inProlog with
  | true => simp [Agrees, tagMode, hp, hs]
  | false => simp [Agrees, tagMode, hp, hs, hf hp, inDtd]

theorem Consistent.dtdFile_of_yieldsToContent (hc : x.Consistent) (h : x.YieldsToContent) :
    x.dtdFile = false := by
  have hm := hc.mode
  unfold YieldsToContent at h
  split at h
  · rename_i hmode
    rw [Agrees, hmode] at hm
    exact dtdFile_eq_false hm.2
  · rename_i hmode
    rw [Agrees, hmode] at hm
    exact dtdFile_eq_false hm.2
  · rename_i hmode
    rw [Agrees, hmode] at hm
    exact dtdFile_eq_false hm.2
  · rename_i hmode
    rw [Agrees, hmode] at hm
    exact dtdFile_eq_false hm.2.1
  · exact h
  · exact Bool.eq_false_iff.mpr fun hf => by simp [hc.file hf] at h
  · exact Bool.eq_false_iff.mpr fun hf => by simp [hc.file hf] at h
  · exact h.elim

theorem Consistent.inDtd_of_yieldsToDeclaration (hc : x.Consistent) (h : x.YieldsToDeclaration) :
    x.inDtd = true := by
  have hm := hc.mode
  unfold YieldsToDeclaration at h
  split at h
  · rename_i hmode
    rw [Agrees, hmode] at hm
    exact hm.2
  · rename_i hmode
    rw [Agrees, hmode] at hm
    exact hm.2
  · simp [inDtd, h]
  · exact h.elim

theorem agrees_of_startsContent {kind : Token.Kind} {mode : Mode} {pos : Nat} {spaced : Bool}
    (hf : x.dtdFile = false) (hk : StartsContent kind mode)
    (hpos : kind = .dtd .doctypeOpen → 2 < pos) :
    ({ x with inProlog := false, inSubset := false }.moved pos spaced mode).Agrees := by
  rcases hk with ⟨-, rfl⟩ | hk
  · simp [Agrees, inDtd, hf]
  · simp only [contentOpeners, List.map_cons, List.map_nil, List.mem_cons, Prod.mk.injEq,
      List.not_mem_nil, or_false] at hk
    rcases hk with ⟨-, rfl⟩ | ⟨-, rfl⟩ | ⟨hk, rfl⟩ | ⟨-, rfl⟩ | ⟨-, rfl⟩ | ⟨-, rfl⟩
    case inr.inr.inr.inl => simp [Agrees, inDtd, hf, hpos hk]
    all_goals simp [Agrees, inDtd, hf]

theorem agrees_of_startsDeclaration {kind : Token.Kind} {mode : Mode} {pos : Nat} {spaced : Bool}
    (hd : x.inDtd = true) (hk : StartsDeclaration kind mode) :
    ({ x with inProlog := false }.moved pos spaced mode).Agrees := by
  have hd : x.dtdFile = true ∨ x.inSubset = true := by simpa [inDtd] using hd
  rcases hk with ⟨-, rfl⟩ | hk
  · simpa [Agrees, inDtd] using hd
  · simp only [dtdOpeners, List.map_cons, List.map_nil, List.mem_cons, Prod.mk.injEq,
      List.not_mem_nil, or_false] at hk
    rcases hk with ⟨-, rfl⟩ | ⟨-, rfl⟩ | ⟨-, rfl⟩ | ⟨-, rfl⟩ | ⟨-, rfl⟩ | ⟨-, rfl⟩
    all_goals simp [Agrees, inDtd, hd]

theorem Consistent.of_reads {y : Lexer} {pos : Nat} {spaced : Bool} {kind : Token.Kind}
    (hc : x.Consistent) (hpos : x.pos < pos) (h : Reads x pos spaced kind y) : y.Consistent := by
  have hm := hc.mode
  cases h with
  | blank h => exact hc.of_moved hpos (hm.moved_mode hpos)
  | unknown h => exact hc.of_moved hpos (hm.moved_mode hpos)
  | content h hk hp =>
    have hf := hc.dtdFile_of_yieldsToContent h
    exact ⟨fun _ => rfl, nofun, agrees_of_startsContent hf hk hp⟩
  | declaration h hk =>
    have hd := hc.inDtd_of_yieldsToDeclaration h
    exact ⟨hc.file, fun hs => Nat.lt_trans (hc.subset hs) hpos, agrees_of_startsDeclaration hd hk⟩
  | startTagName h | startTagClose h | startTagSelfClose h | endTagName h | endTagClose h
  | commentText h | cdataText h | instructionTarget h | instructionContent h
  | declarationClose h | declarationParameter h _ | assign h =>
    rw [Agrees, h] at hm
    exact hc.of_moved hpos hm
  | attributeName h =>
    refine hc.of_moved hpos ?_
    rcases h with h | h <;> rw [Agrees, h] at hm
    · exact ⟨inSubset_eq_false hm.2, fun _ => dtdFile_eq_false hm.2⟩
    · exact ⟨hm.2, fun hp => by rw [moved_inProlog, hm.1] at hp; cases hp⟩
  | attributeValue h =>
    rw [Agrees, h] at hm
    exact hc.of_moved hpos (agrees_tagMode hm.1 hm.2)
  | commentClose h | instructionClose h =>
    rw [Agrees, h] at hm
    exact hc.of_moved hpos (agrees_contentMode hm)
  | cdataClose h =>
    rw [Agrees, h] at hm
    exact hc.of_moved hpos (agrees_contentMode hm.1)
  | prologName h h2 =>
    have hs : x.inSubset = false := by
      refine Bool.eq_false_iff.mpr fun hs => ?_
      have := hc.subset hs
      omega
    exact ⟨hc.file, fun hs => Nat.lt_trans (hc.subset hs) hpos, rfl, hs⟩
  | prologClose h =>
    refine ⟨hc.file, fun hs => Nat.lt_trans (hc.subset hs) hpos, ?_⟩
    exact agrees_contentMode (x := { x with inProlog := false }) rfl
  | subsetOpen h =>
    rw [Agrees, h] at hm
    refine ⟨fun hf => ?_, fun _ => Nat.lt_trans hm.2.2 hpos, hm.1, by simp [inDtd]⟩
    have := dtdFile_eq_false hm.2.1
    exact absurd hf (by simp [this])
  | subsetClose h hs =>
    have hf : x.dtdFile = false := Bool.eq_false_iff.mpr fun hf => by simp [hc.file hf] at hs
    exact ⟨fun _ => rfl, nofun, rfl, by simp [inDtd, hf], Nat.lt_trans (hc.subset hs) hpos⟩
  | doctypeClose h =>
    rw [Agrees, h] at hm
    have hf := dtdFile_eq_false hm.2.1
    exact ⟨fun _ => rfl, nofun, hm.1, by simp [inDtd, hf]⟩
  | doctypeParameter h _ =>
    rw [Agrees, h] at hm
    exact hc.of_moved hpos ⟨hm.1, hm.2.1, Nat.lt_trans hm.2.2 hpos⟩

end XmlAssist.Lexer
